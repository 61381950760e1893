import FormCodemod.Convert.Context
import FormCodemod.Proofs.Convert.Declared
import FormCodemod.Proofs.Convert.Handlers
import FormCodemod.Proofs.Names.Hooks
import FormCodemod.Proofs.Scope.Treated

/-!
# Hooks among statements

A declarator holds a hook if its value is a call of it, in parentheses or not (`Tree.hooks`). Which function a value calls
is a matter of names and parentheses. `Tree.KeepsCalls` carries what is known of these names from the parts of a tree to
the tree, for changes that keep them, or bring in none.

So a walk leaves as many hooks among statements as there were, reads that are converted add none, and the hook that is
converted is one less (`Tree.length_hooks_of_walked`, `Tree.length_hooks_convertReads_le`, `Tree.length_hooks_first`).
-/

namespace FormCodemod

namespace Tree

variable {r : Option String → Option String → Prop} {p t t' d : Tree} {ts ss ss' : List Tree} {hook : String}

/-! ## Declarators -/

def stmtDeclarators : Tree → List Tree
  | .stmt _ (.vars _ _) ds => ds
  | .stmt _ (.using _) ds => ds
  | _ => []

/-- The name of what is called, in parentheses or not, for the value of a declarator. -/
def initialCall? (d : Tree) : Option String := d.initial.unparen.calleeName?

def allDeclarators (ss : List Tree) : List Tree := ss.flatMap stmtDeclarators

/-- The declarators among statements that are initialized with a call of the hook. -/
def hooks (hook : String) (ss : List Tree) : List Tree :=
  (allDeclarators ss).filter fun d => d.initialCall? == some hook

/-- Variables that are not disposed of. -/
def isVars : Tree → Bool
  | .stmt _ (.vars _ _) _ => true
  | _ => false

/-- Statements hold at most one call of the hook, and one that the conversion takes: it stands in no parentheses, and its
variable is not disposed of. -/
structure Lone (hook : String) (ss : List Tree) : Prop where
  length_le : (hooks hook ss).length ≤ 1
  plain : ∀ t ∈ ss, ∀ d ∈ t.stmtDeclarators, d.initialCall? = some hook →
    t.isVars = true ∧ (d.convertHook? hook).isSome = true

theorem hooks_append (hook : String) (ss ss' : List Tree) : hooks hook (ss ++ ss') = hooks hook ss ++ hooks hook ss' := by
  rw [hooks, hooks, hooks, allDeclarators, allDeclarators, allDeclarators, List.flatMap_append, List.filter_append]

theorem length_hooks (hook : String) (ss : List Tree) :
    (hooks hook ss).length = ((allDeclarators ss).map initialCall?).countP (· == some hook) := by
  rw [hooks, ← List.countP_eq_length_filter, List.countP_map]
  rfl

/-- Statements that are put in bring their own hooks and take none. -/
theorem hooks_insertAt (hook : String) (n : Nat) (new ss : List Tree) :
    (hooks hook (insertAt n new ss)).length = (hooks hook ss).length + (hooks hook new).length := by
  have hss := congrArg List.length (hooks_append hook (ss.take n) (ss.drop n))
  rw [List.take_append_drop] at hss
  rw [insertAt, hooks_append, hooks_append, hss]
  simp only [List.length_append]
  omega

theorem mem_hooks : d ∈ hooks hook ss ↔ (∃ t ∈ ss, d ∈ t.stmtDeclarators) ∧ d.initialCall? = some hook := by
  rw [hooks, List.mem_filter, allDeclarators, List.mem_flatMap, beq_iff_eq]

/-! ## Changes and calls -/

/-- The names that a tree calls are related, one by one, to those that it called before. -/
structure KeepsCalls (r : Option String → Option String → Prop) (t t' : Tree) : Prop where
  ident : r t.ident? t'.ident?
  called : r t.unparen.calleeName? t'.unparen.calleeName?
  initial : r t.initialCall? t'.initialCall?
  declarators : List.Forall₂ r (t.stmtDeclarators.map initialCall?) (t'.stmtDeclarators.map initialCall?)
  statements : List.Forall₂ r ((allDeclarators t.statements).map initialCall?)
    ((allDeclarators t'.statements).map initialCall?)

/-- Statements with related calls have declarators with related calls. -/
theorem allDeclarators_map_of_forall₂ (h : List.Forall₂ (KeepsCalls r) ss ss') :
    List.Forall₂ r ((allDeclarators ss).map initialCall?) ((allDeclarators ss').map initialCall?) := by
  induction h with
  | nil => exact .nil
  | cons hc _ ih =>
      rw [allDeclarators, allDeclarators, List.flatMap_cons, List.flatMap_cons, List.map_append, List.map_append]
      exact List.rel_append hc.declarators ih

/-- Nothing is called in the statements of a body that is no block. -/
theorem allDeclarators_of_none (h : t.statements? = none) : allDeclarators t.statements = [] := by
  rw [Tree.statements, h]
  rfl

/-- Trees that are themselves no call, no name and no declaration. -/
theorem KeepsCalls.of_none (hident : r t.ident? t'.ident?) (hcalled : r t.unparen.calleeName? t'.unparen.calleeName?)
    (hinitial : r t.initialCall? t'.initialCall?)
    (hdeclarators : t.stmtDeclarators = [] ∧ t'.stmtDeclarators = [])
    (hstatements : t.statements? = none ∧ t'.statements? = none) : KeepsCalls r t t' where
  ident := hident
  called := hcalled
  initial := hinitial
  declarators := by
    rw [hdeclarators.1, hdeclarators.2]
    exact .nil
  statements := by
    rw [allDeclarators_of_none hstatements.1, allDeclarators_of_none hstatements.2]
    exact .nil

section Congruence

variable (hrefl : ∀ a, r a a)
include hrefl

/-- An expression calls what its parts are, and is no declaration. -/
theorem KeepsCalls.expr {o : Origin} {k : ExprKind} {ts ts' : List Tree} (h : List.Forall₂ (KeepsCalls r) ts ts') :
    KeepsCalls r (.expr o k ts) (.expr o k ts') := by
  refine .of_none ?_ ?_ (hrefl none) ⟨rfl, rfl⟩ ⟨rfl, rfl⟩
  · cases k with
    | paren =>
        -- only one expression in parentheses is looked at
        cases h with
        | nil => exact hrefl none
        | cons he hrest =>
            cases hrest with
            | nil => exact he.ident
            | cons => exact hrefl none
    | _ => exact hrefl _
  · cases k with
    | paren =>
        cases h with
        | nil => exact hrefl none
        | cons he hrest =>
            cases hrest with
            | nil => exact he.called
            | cons => exact hrefl none
    | call =>
        cases h with
        | nil => exact hrefl none
        | cons hcallee _ => exact hcallee.ident
    | _ => exact hrefl _

/-- A statement's calls are those below it. -/
theorem KeepsCalls.stmt {o : Origin} {k : StmtKind} {ts ts' : List Tree} (h : List.Forall₂ (KeepsCalls r) ts ts') :
    KeepsCalls r (.stmt o k ts) (.stmt o k ts') where
  ident := hrefl none
  called := hrefl none
  initial := hrefl none
  declarators := by
    have hinitial : List.Forall₂ r (ts.map initialCall?) (ts'.map initialCall?) := by
      rw [List.forall₂_map_left_iff, List.forall₂_map_right_iff]
      exact h.imp fun _ _ h => h.initial
    -- variables that are disposed of have declarators too
    cases k <;> first | exact hinitial | exact .nil
  statements := by
    cases k with
    | block => exact allDeclarators_map_of_forall₂ h
    | _ => exact .nil

theorem KeepsCalls.part {o : Origin} {k : PartKind} {ts ts' : List Tree} (h : List.Forall₂ (KeepsCalls r) ts ts') :
    KeepsCalls r (.part o k ts) (.part o k ts') := by
  refine .of_none (hrefl none) (hrefl none) ?_ ⟨rfl, rfl⟩ ⟨rfl, rfl⟩
  cases k with
  | declarator d =>
      -- a declarator has a pattern and a value
      cases h with
      | nil => exact hrefl none
      | cons _ h =>
          cases h with
          | nil => exact hrefl none
          | cons he h =>
              cases h with
              | nil => exact he.called
              | cons => exact hrefl none
  | _ => exact hrefl none

/-- Changes all over a tree keep its calls if each of them does. -/
theorem keepsCalls_congruence (htrans : ∀ a b c, r a b → r b c → r a c) : Congruence (KeepsCalls r) where
  refl t :=
    ⟨hrefl _, hrefl _, hrefl _, List.forall₂_same.mpr fun a _ => hrefl a, List.forall₂_same.mpr fun a _ => hrefl a⟩
  trans h h' :=
    ⟨htrans _ _ _ h.ident h'.ident, htrans _ _ _ h.called h'.called, htrans _ _ _ h.initial h'.initial,
      forall₂_comp_of_mem h.declarators h'.declarators fun _ _ _ _ => htrans _ _ _,
      forall₂_comp_of_mem h.statements h'.statements fun _ _ _ _ => htrans _ _ _⟩
  parent {t ts'} h := by
    cases t with
    | node o k ts =>
        cases k with
        | expr k => exact .expr hrefl h
        | stmt k => exact .stmt hrefl h
        | part k => exact .part hrefl h
        | _ => exact .of_none (hrefl none) (hrefl none) (hrefl none) ⟨rfl, rfl⟩ ⟨rfl, rfl⟩
    | list ts => exact .of_none (hrefl none) (hrefl none) (hrefl none) ⟨rfl, rfl⟩ ⟨rfl, rfl⟩
    | absent => exact .of_none (hrefl none) (hrefl none) (hrefl none) ⟨rfl, rfl⟩ ⟨rfl, rfl⟩

end Congruence

/-! ## Calls in a walk -/

/-- From outside, a function is no call and declares nothing, whatever it holds. -/
theorem keepsCalls_of_isFunction (hrefl : ∀ a, r a a) (h : t.isFunction = true) (ts' : List Tree) :
    KeepsCalls r t (t.withChildren ts') := by
  unfold isFunction at h
  split at h
  · exact .of_none (hrefl none) (hrefl none) (hrefl none) ⟨rfl, rfl⟩ ⟨rfl, rfl⟩
  · exact .of_none (hrefl none) (hrefl none) (hrefl none) ⟨rfl, rfl⟩ ⟨rfl, rfl⟩
  · cases h

/-- Whatever is done with bodies, a walk leaves the calls outside of them. -/
theorem walkable_keepsCalls {m : Type → Type} [Monad m] [Observed m] (f : ScopeKind → Tree → m Tree) :
    Walkable f fun t _ t' _ => KeepsCalls Eq t t' :=
  (keepsCalls_congruence Eq.refl fun _ _ _ => Eq.trans).walkable fun hscope _ =>
    keepsCalls_of_isFunction Eq.refl (isFunction_of_scopeBody? hscope) _

/-- A walk through a body leaves as many hooks in its statements as there were. -/
theorem length_hooks_of_walked {m : Type → Type} [Monad m] [LawfulMonad m] [Observed m] {f : ScopeKind → Tree → m Tree}
    (h : Walked f t t') (hook : String) : (hooks hook t'.statements).length = (hooks hook t.statements).length := by
  obtain ⟨n, s, s', hwalk⟩ := h
  have hkeeps : KeepsCalls Eq t t' := walk_gives (walkable_keepsCalls f) hwalk
  have hcalls := hkeeps.statements
  -- one by one the same names, so the same list of names
  rw [List.forall₂_eq_eq_eq] at hcalls
  rw [length_hooks, length_hooks, hcalls]

/-! ## Calls and reads that are converted -/

theorem readIn?_ident (p : Tree) (o : Origin) (x : String) (ts : List Tree) :
    p.readIn? (.expr o (.ident x) ts) = p.readIn? (Make.ident x) := by
  cases hw : p.wholeBinding? with
  | some y => rw [readIn?_of_whole hw, flatRead?_eq_bind, flatRead?_eq_bind]; rfl
  | none => rw [readIn?_of_parts hw]; rfl

/-- A read is no call, and does not become one. It becomes a variable only of the name of a capability. -/
theorem readIn?_calls (h : p.readIn? t = some t') :
    t.unparen.calleeName? = none ∧ t'.unparen.calleeName? = none ∧ ∀ x, t'.ident? = some x → x ∈ flattened := by
  rcases readIn?_eq_some h with ⟨x, -, h⟩ | h
  · -- a member of the whole form state, which becomes a variable or a member of the form
    rw [flatRead?_eq_bind, Option.bind_eq_some_iff] at h
    obtain ⟨k, hk, h⟩ := h
    obtain ⟨o, obj, key, heq, -⟩ := memberOf?_eq_some.mp hk
    refine ⟨by rw [heq]; rfl, ?_⟩
    unfold flatKey? at h
    split at h
    · cases h
      exact ⟨rfl, nofun⟩
    · split at h
      · next hflat =>
          cases h
          refine ⟨rfl, fun x hx => ?_⟩
          cases hx
          exact List.contains_iff_mem.mp hflat
      · cases h
  · -- a variable of a handler, which becomes a member of the form
    obtain ⟨o, x, ts, member, rfl, -, rfl⟩ := handlerRead?_eq_some h
    exact ⟨rfl, rfl, nofun⟩

/-- No call is a read that is converted. -/
theorem readIn?_of_calleeName? (h : t.unparen.calleeName? = some hook) : p.readIn? t = none := by
  rw [Option.eq_none_iff_forall_not_mem]
  intro t' ht'
  rw [(readIn?_calls ht').1] at h
  cases h

theorem readIn?_part {o : Origin} {k : PartKind} : p.readIn? (.part o k ts) = none := by
  rw [Option.eq_none_iff_forall_not_mem]
  intro t' ht'
  obtain ⟨⟨_, _, _, heq⟩, -⟩ := expr_of_readIn? ht'
  cases heq

/-- A read that is a name is read wherever that name is a variable. -/
theorem readIn?_of_ident? {x : String} (h : p.readIn? t = some t') (hx : t.ident? = some x) :
    p.readIn? (Make.ident x) ≠ none := by
  rcases readIn?_eq_some h with ⟨y, -, hflat⟩ | hhandler
  · obtain ⟨k, hk, -⟩ := flatRead?_eq_some hflat
    obtain ⟨o, obj, key, heq, -⟩ := memberOf?_eq_some.mp hk
    rw [ident?, heq] at hx
    cases hx
  · obtain ⟨o, y, ts, member, rfl, -, -⟩ := handlerRead?_eq_some hhandler
    cases hx
    rw [← readIn?_ident p o x ts, h]
    exact Option.some_ne_none _

/-- A converted read calls what it called, unless it becomes a variable that is called. -/
theorem keepsCalls_of_readIn? (hrefl : ∀ a, r a a) (h : p.readIn? t = some t') (hident : r t.ident? t'.ident?) :
    KeepsCalls r t t' := by
  obtain ⟨hcall, hcall', -⟩ := readIn?_calls h
  obtain ⟨⟨o, k, ts, rfl⟩, ⟨o', k', ts', rfl⟩⟩ := expr_of_readIn? h
  refine .of_none hident ?_ (hrefl none) ⟨rfl, rfl⟩ ⟨rfl, rfl⟩
  rw [hcall, hcall']
  exact hrefl none

/-- A call of the hook is one that was there before. -/
def BringsNone (hook : String) (a b : Option String) : Prop := b = some hook → a = some hook

/-- A call of the hook is there exactly if it was there before. -/
def KeepsAll (hook : String) (a b : Option String) : Prop := b = some hook ↔ a = some hook

theorem bringsNone_congruence (hook : String) : Congruence (KeepsCalls (BringsNone hook)) :=
  keepsCalls_congruence (fun _ => id) fun _ _ _ h h' hx => h (h' hx)

theorem keepsAll_congruence (hook : String) : Congruence (KeepsCalls (KeepsAll hook)) :=
  keepsCalls_congruence (fun _ => Iff.rfl) fun _ _ _ h h' => h'.trans h

/-- To convert reads makes no calls of a hook that no member is called like. -/
theorem bringsNone_convertReads (hflat : hook ∉ flattened) (p t : Tree) :
    KeepsCalls (BringsNone hook) t (p.convertReads t) := by
  rw [convertReads_eq_mapDown]
  refine (bringsNone_congruence hook).mapDown (fun t t' h => ?_) _ t
  refine keepsCalls_of_readIn? (fun _ => id) h fun hx => ?_
  exact absurd ((readIn?_calls h).2.2 hook hx) hflat

/-- To convert reads loses no calls of a hook whose own name is no read. -/
theorem keepsAll_convertReads (hflat : hook ∉ flattened) (hno : p.readIn? (Make.ident hook) = none) (t : Tree) :
    KeepsCalls (KeepsAll hook) t (p.convertReads t) := by
  rw [convertReads_eq_mapDown]
  refine (keepsAll_congruence hook).mapDown (fun t t' h => ?_) _ t
  refine keepsCalls_of_readIn? (fun _ => Iff.rfl) h (iff_of_false ?_ ?_)
  · exact fun hx => hflat ((readIn?_calls h).2.2 hook hx)
  · exact fun hx => readIn?_of_ident? h hx hno

/-- Where no calls are brought in, they do not become more. -/
theorem countP_le_of_bringsNone {as bs : List (Option String)} (h : List.Forall₂ (BringsNone hook) as bs) :
    bs.countP (· == some hook) ≤ as.countP (· == some hook) := by
  induction h with
  | nil => exact Nat.le_refl _
  | @cons a b _ _ hab _ ih =>
      rw [List.countP_cons, List.countP_cons]
      refine Nat.add_le_add ih ?_
      by_cases hb : b = some hook
      · simp [hb, hab hb]
      · rw [if_neg fun heq => hb (beq_iff_eq.mp heq)]
        exact Nat.zero_le _

/-- Where calls are neither brought in nor lost, they stay as many. -/
theorem countP_eq_of_keepsAll {as bs : List (Option String)} (h : List.Forall₂ (KeepsAll hook) as bs) :
    bs.countP (· == some hook) = as.countP (· == some hook) := by
  induction h with
  | nil => rfl
  | @cons a b _ _ hab _ ih =>
      have hsame : (b == some hook) = (a == some hook) := by
        rw [Bool.eq_iff_iff, beq_iff_eq, beq_iff_eq]
        exact hab
      rw [List.countP_cons, List.countP_cons, ih, hsame]

/-- Reads that are converted bring in no hook. -/
theorem length_hooks_convertReads_le (hflat : hook ∉ flattened) (p : Tree) (ss : List Tree) :
    (hooks hook (ss.map p.convertReads)).length ≤ (hooks hook ss).length := by
  have hall : List.Forall₂ (KeepsCalls (BringsNone hook)) ss (ss.map p.convertReads) := by
    rw [List.forall₂_map_right_iff]
    exact List.forall₂_same.mpr fun t _ => bringsNone_convertReads hflat p t
  rw [length_hooks, length_hooks]
  exact countP_le_of_bringsNone (allDeclarators_map_of_forall₂ hall)

/-- A pattern that does not bind the hook's name does not make it a read. -/
theorem readIn?_hook (h : hook ∉ p.boundNames) : p.readIn? (Make.ident hook) = none := by
  cases hread : p.readIn? (Make.ident hook) with
  | none => rfl
  | some t' =>
      exfalso
      rcases readIn?_eq_some hread with ⟨x, -, hflat⟩ | hhandler
      · rw [flatRead?_eq_bind] at hflat
        cases hflat
      · obtain ⟨o, x, ts, member, heq, hget, -⟩ := handlerRead?_eq_some hhandler
        cases heq
        have hmem : hook ∈ (takenHandlers p.takenNames).map (·.1) :=
          Renaming.isSome_get?.mp (Option.isSome_iff_exists.mpr ⟨member, hget⟩)
        obtain ⟨k, -, hk⟩ := mem_takenHandlers.mp hmem
        exact h (mem_boundNames_of_takenNames hk)

/-- To convert reads leaves the number of hooks, unless the pattern binds the hook's name. -/
theorem length_hooks_convertReads (hflat : hook ∉ flattened) (hp : hook ∉ p.boundNames) (ss : List Tree) :
    (hooks hook (ss.map p.convertReads)).length = (hooks hook ss).length := by
  have hall : List.Forall₂ (KeepsCalls (KeepsAll hook)) ss (ss.map p.convertReads) := by
    rw [List.forall₂_map_right_iff]
    exact List.forall₂_same.mpr fun t _ => keepsAll_convertReads hflat (readIn?_hook hp) t
  rw [length_hooks, length_hooks]
  exact countP_eq_of_keepsAll (allDeclarators_map_of_forall₂ hall)

/-! ## The hook that is converted -/

/-- A declarator with a plain hook is initialized with it, and afterwards with a call of another function. -/
theorem initialCall?_of_convertHook? {d' : Tree} (h : d.convertHook? hook = some (d', p)) :
    d.initialCall? = some hook ∧ d'.initialCall? = some "useFormMetadata" := by
  obtain ⟨o, dk, co, callee, args, targs, hcallee, rfl, rfl⟩ := convertHook?_eq_some h
  exact ⟨hcallee, rfl⟩

/-- The first plain hook is one hook less. -/
theorem length_hooks_first {i : Nat} (hname : hook ≠ "useFormMetadata")
    (h : mapFirst? (convertHookIn? hook) ss = some (ss', i, p)) :
    (hooks hook ss').length + 1 = (hooks hook ss).length := by
  obtain ⟨pre, t, t', post, rfl, ht, rfl, -⟩ := mapFirst?_eq_some h
  obtain ⟨o, kw, dcl, before, d, d', after, hd, rfl, rfl⟩ := convertHookIn?_eq_some ht
  obtain ⟨hcall, hcall'⟩ := initialCall?_of_convertHook? hd
  have hno : (some "useFormMetadata" == some hook) = false :=
    beq_false_of_ne fun heq => hname (Option.some.inj heq).symm
  simp only [length_hooks, allDeclarators, List.flatMap_append, List.flatMap_cons, stmtDeclarators, List.map_append,
    List.map_cons, List.countP_append, List.countP_cons, hcall, hcall', hno, beq_self_eq_true, if_true]
  simp only [Bool.false_eq_true, if_false]
  omega

end Tree

end FormCodemod
