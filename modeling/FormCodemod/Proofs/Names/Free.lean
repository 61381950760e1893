import FormCodemod.Tree.Binding
import FormCodemod.Tree.Shape
import FormCodemod.Proofs.Tree.Places

/-!
# Free names

A name in a tree refers to what the nodes around it say. `Tree.mentions` tells which nodes refer to a variable, and
`Tree.namesFor` which names a node binds for each of its children. A reference is free in a tree if no node around it
binds its name (`Tree.FreeAt`), and the free names of a tree are those of its children that it does not bind, and its own
(`freeIn_iff`).

When a tree is put into another one, a reference that was free in it stays free if its name is not among those that are
bound on the way to it, and is captured if it is (`freeAt_append`).

Names of types are none of variables, and are left out.
-/

namespace FormCodemod.Tree

variable {t u : Tree} {p q : Place} {x : String}

/-! ## References -/

def isVariable (x : String) : Tree → Bool
  | .expr _ (.ident y) _ => y == x
  | _ => false

/-- An object literal with a shorthand property of the name, which refers to the variable and is no expression. -/
def hasShorthand (x : String) : Tree → Bool
  | .expr _ .object [.list ps] => ps.any fun t => t.tag? == some x
  | _ => false

/-- The first name of a dotted tag. -/
def tagRoot? : Tree → Option String
  | .markup _ .tagMember (obj :: _) => tagRoot? obj
  | t => t.tag?

/-- An element whose tag refers to the variable. A tag in small letters that is not dotted is that of a plain element. -/
def tagMentions (x : String) : Tree → Bool
  | .markup _ (.element _ _) (.part _ (.name y) _ :: _) => y == x && !y.toList.head?.any Char.isLower
  | .markup _ (.element _ _) (name :: _) => name.tagRoot? == some x
  | _ => false

/-- A node that assigns to the variable. The target is a pattern, and declares nothing. -/
def assigns (x : String) : Tree → Bool
  | .expr _ (.assign _) (target :: _) => target.binds x
  | .stmt _ .forIn (target :: _) => target.binds x
  | .stmt _ (.forOf _) (target :: _) => target.binds x
  | _ => false

/-- A node that refers to the variable by itself, and not only by a node below it. -/
def mentions (x : String) (t : Tree) : Bool :=
  t.isVariable x || t.hasShorthand x || t.tagMentions x || t.assigns x

/-! ## Binders -/

/-- The nodes on the way from a function's body to the statements in it. -/
def holdsStatements : Tree → Bool
  | .stmt _ (.space _ _) _ => false
  | .stmt _ _ _ => true
  | .part _ .switchCase _ => true
  | .part _ .catchClause _ => true
  | .list _ => true
  | _ => false

/-- The names that `var` declares somewhere in a body: they are bound in the whole function. -/
def hoisted (body : Tree) : List String :=
  body.collect (fun t => !t.holdsStatements) fun t =>
    match t with
    | .stmt _ (.vars "var" _) _ => t.declared
    | _ => []

/-- The names that a statement binds in the block it is in, or in a loop that it is the head of. -/
def blockNames : Tree → List String
  | .stmt _ (.using _) ds => ds.flatMap fun d => d.declaredPattern.boundNames
  | .stmt _ (.enum _ _) (name :: _) => name.tag?.toList
  | .stmt _ (.space _ _) (.list (name :: _) :: _) => name.tag?.toList
  | t => t.declared

def itemNames : Tree → List String
  | .item _ .exportDecl [d] => d.blockNames
  | .item _ .exportDefaultDecl [.expr _ _ (name :: _)] => name.tag?.toList
  | .item _ (.importEquals _ _) (name :: _) => name.tag?.toList
  | t => t.blockNames

def memberNames : Tree → List String
  | .part _ .enumMember (name :: _) => name.tag?.toList
  | _ => []

def caseStatements : Tree → List Tree
  | .part _ .switchCase [_, .list ss] => ss
  | _ => []

/-- The pattern of a parameter of a constructor, which may be a field as well. -/
def fieldPattern : Tree → Tree
  | .pat _ (.field _) [p] => p
  | p => p

/-- The names that a node binds for the child with the number. A default of a parameter does not see the variables
of the body, and neither the key of a member nor the subject of a `switch` sees what is inside. -/
def namesFor (t : Tree) (i : Nat) : List String :=
  match t with
  | .expr _ (.arrow _) (.list ps :: body :: _) => allBoundNames ps ++ if i = 0 then [] else body.hoisted
  | .part _ (.function _ _) (.list ps :: body :: _) =>
      "arguments" :: allBoundNames ps ++ if i = 0 then [] else body.hoisted
  | .prop _ .getter [_, _, body] => if i = 0 then [] else "arguments" :: body.hoisted
  | .prop _ .setter [_, first, param, body] =>
      if i = 0 then [] else "arguments" :: first.boundNames ++ param.boundNames ++ body.hoisted
  | .node _ (.member (.constructor _)) [_, .list ps, body] =>
      if i = 0 then [] else "arguments" :: allBoundNames (ps.map fieldPattern) ++ body.hoisted
  | .node _ (.member .staticBlock) [body] => body.hoisted
  | .expr _ .func (name :: _) => name.tag?.toList
  | .expr _ .clazz (name :: _) => name.tag?.toList
  | .stmt _ .block ss => ss.flatMap blockNames
  | .part _ .items ss => ss.flatMap itemNames
  | .stmt _ (.enum _ _) [_, .list members] => if i = 0 then [] else members.flatMap memberNames
  | .stmt _ .forLoop (init :: _) => init.blockNames
  | .stmt _ .forIn (left :: _) => left.blockNames
  | .stmt _ (.forOf _) (left :: _) => left.blockNames
  | .stmt _ .switch [_, .list cases] => if i = 0 then [] else (cases.flatMap caseStatements).flatMap blockNames
  | .part _ .catchClause (param :: _) => param.boundNames
  | _ => []

/-! ## Free references -/

/-- The names that are bound on the way down to a place, from the outside in. -/
def namesAlong : Tree → Place → List String
  | _, [] => []
  | t, i :: p =>
      t.namesFor i ++
        match t.children[i]? with
        | some u => u.namesAlong p
        | none => []

/-- The node at the place refers to the variable, and nothing around it in the tree binds the name. -/
def FreeAt (x : String) (t : Tree) (p : Place) : Prop :=
  x ∉ t.namesAlong p ∧ ∃ u, t.at? p = some u ∧ u.mentions x = true

/-- The names bound along a way are those bound along its two pieces. -/
theorem namesAlong_append (h : t.at? p = some u) (q : Place) :
    t.namesAlong (p ++ q) = t.namesAlong p ++ u.namesAlong q := by
  -- on the way down to `u`, of which nothing is known but where it stands
  induction p generalizing t with
  | nil =>
      cases h
      rfl
  | cons i p ih =>
      obtain ⟨c, hc, hu⟩ := at?_cons_eq_some.mp h
      rw [List.cons_append, namesAlong, namesAlong, hc]
      dsimp only
      rw [ih hu, List.append_assoc]

/-- A reference in a part of a tree is free in the tree if it is free in the part, and the way to the part does not bind
its name. -/
theorem freeAt_append (h : t.at? p = some u) : t.FreeAt x (p ++ q) ↔ x ∉ t.namesAlong p ∧ u.FreeAt x q := by
  have hat : ∀ v, t.at? (p ++ q) = some v ↔ u.at? q = some v := by
    intro v
    rw [at?_append, h]
    simp
  rw [FreeAt, FreeAt, namesAlong_append h, List.mem_append, not_or, and_assoc]
  exact and_congr_right fun _ => and_congr_right fun _ => exists_congr fun v => and_congr_left fun _ => hat v

/-- A reference to the variable is free somewhere in the tree. -/
def FreeIn (x : String) (t : Tree) : Prop := ∃ p, t.FreeAt x p

/-- A variable is free in a tree if the node refers to it, or if it is free in a child for
which the node does not bind it. -/
theorem freeIn_iff :
    t.FreeIn x ↔ t.mentions x = true ∨ ∃ i c, t.children[i]? = some c ∧ x ∉ t.namesFor i ∧ c.FreeIn x := by
  constructor
  · rintro ⟨p, hno, u, hu, hmentions⟩
    cases p with
    | nil =>
        cases hu
        exact .inl hmentions
    | cons i p =>
        obtain ⟨c, hc, hu⟩ := at?_cons_eq_some.mp hu
        rw [namesAlong, hc, List.mem_append, not_or] at hno
        exact .inr ⟨i, c, hc, hno.1, p, hno.2, u, hu, hmentions⟩
  · rintro (hmentions | ⟨i, c, hc, hno, p, hfree⟩)
    · exact ⟨[], List.not_mem_nil, t, rfl, hmentions⟩
    · have hat : t.at? [i] = some c := at?_cons_eq_some.mpr ⟨c, hc, rfl⟩
      refine ⟨[i] ++ p, (freeAt_append hat).mpr ⟨?_, hfree⟩⟩
      rw [namesAlong, hc]
      simpa [namesAlong] using hno

/-- A node that binds the same names for all of its children. -/
theorem freeIn_of_namesFor {names : List String} (hnames : ∀ i, t.namesFor i = names) :
    t.FreeIn x ↔ t.mentions x = true ∨ x ∉ names ∧ ∃ c ∈ t.children, c.FreeIn x := by
  rw [freeIn_iff]
  refine or_congr_right ?_
  constructor
  · rintro ⟨i, c, hc, hno, hfree⟩
    exact ⟨hnames i ▸ hno, c, List.mem_of_getElem? hc, hfree⟩
  · rintro ⟨hno, c, hc, hfree⟩
    obtain ⟨i, hi⟩ := List.mem_iff_getElem?.mp hc
    exact ⟨i, c, hi, (hnames i).symm ▸ hno, hfree⟩

/-- Where a node binds nothing, what is free in one of its children is free in it. -/
theorem freeIn_open (hnames : ∀ i, t.namesFor i = []) :
    t.FreeIn x ↔ t.mentions x = true ∨ ∃ c ∈ t.children, c.FreeIn x := by
  rw [freeIn_of_namesFor hnames]
  exact or_congr_right (and_iff_right List.not_mem_nil)

/-- Where it does not refer to the variable by itself either, only these references are free. -/
theorem freeIn_plain (hmentions : t.mentions x = false) (hnames : ∀ i, t.namesFor i = []) :
    t.FreeIn x ↔ ∃ c ∈ t.children, c.FreeIn x := by
  rw [freeIn_open hnames, hmentions]
  exact or_iff_right Bool.false_ne_true

/-- Of the references that are free in a part, those are captured whose names are bound on the way to it. -/
theorem freeAt_append_iff (h : t.at? p = some u) (hfree : u.FreeAt x q) :
    t.FreeAt x (p ++ q) ↔ x ∉ t.namesAlong p := by
  rw [freeAt_append h]
  exact and_iff_left hfree

end FormCodemod.Tree
