import FormCodemod.Library.Features
import FormCodemod.Proofs.Tree.Alike
import FormCodemod.Proofs.Tree.Congruence

/-!
# Norms

A norm says what the nodes of a tree must keep to: elements end the way they begin
(`Element.isWellFormed`), or there are no types (`Tree.isTypeSyntax`). `Tree.Meets` is a tree all of
whose nodes keep to a norm.

Whether a node does so depends on its kind and on the looks of its children. So a change below a
node that keeps looks does not matter to the node: `Tree.Upholds` is a congruence, and a rule
that upholds a norm at a node may be applied all over a tree.
-/

namespace FormCodemod

/-! ## Looks -/

/-- The name of an element. -/
inductive Tag
  | plain (x : String)
  /-- `object.key` -/
  | dotted (object : Tag) (key : String)
  /-- `space:name` -/
  | colon (space name : String)
  deriving DecidableEq, Repr

/-- What a parent sees of a child. -/
inductive Look
  | tag (name : Tag)
  | key (text : String)
  | group (isEmpty : Bool)
  | absent
  /-- Any other node. -/
  | other
  deriving DecidableEq, Repr

namespace Look

def isTag : Look → Bool
  | tag _ => true
  | _ => false

def ofKind : Kind → List Look → Look
  | .part (.name x), _ => tag (.plain x)
  | .part (.key k), _ => key k
  | .markup .tagMember, [tag g, key k] => tag (.dotted g k)
  | .markup (.namespaced s x), _ => tag (.colon s x)
  | _, _ => other

end Look

namespace Tree

mutual

/-- What a parent sees of a tree. -/
def look : Tree → Look
  | .node _ k ts => Look.ofKind k (lookAll ts)
  | .list ts => .group ts.isEmpty
  | .absent => .absent

def lookAll : List Tree → List Look
  | [] => []
  | t :: ts => look t :: lookAll ts

end

theorem lookAll_eq_map (ts : List Tree) : lookAll ts = ts.map look := by
  induction ts with
  | nil => rfl
  | cons t ts ih => rw [lookAll, ih, List.map_cons]

theorem look_node (o : Origin) (k : Kind) (ts : List Tree) : (node o k ts).look = Look.ofKind k (ts.map look) := by
  rw [look, lookAll_eq_map]

theorem look_list (ts : List Tree) : (list ts).look = .group ts.isEmpty := by rw [look]

@[simp] theorem look_absent : absent.look = .absent := rfl

/-- The same node around children with the same looks has the same look. -/
theorem look_withChildren {t : Tree} {ts' : List Tree} (h : ts'.map look = t.children.map look) :
    (t.withChildren ts').look = t.look := by
  cases t with
  | node o k ts =>
      show (node o k ts').look = _
      rw [look_node, look_node, h, children_node]
  | list ts =>
      have hempty : ts'.isEmpty = ts.isEmpty := by
        rw [← List.isEmpty_map (f := look), h, children_list, List.isEmpty_map]
      show (list ts').look = _
      rw [look_list, look_list, hempty]
  | absent => rfl

theorem look_eq_absent {t : Tree} : t.look = .absent ↔ t.isAbsent = true := by
  cases t with
  | node o k ts =>
      rw [look_node, Look.ofKind.eq_def]
      split <;> simp [isAbsent]
  | list ts => simp [look_list, isAbsent]
  | absent => simp [isAbsent]

/-- The look of a group tells whether there is anything in it. -/
theorem look_eq_group {t : Tree} {b : Bool} : t.look = .group b ↔ ∃ ts, t = .list ts ∧ ts.isEmpty = b := by
  cases t with
  | node o k ts =>
      rw [look_node, Look.ofKind.eq_def]
      split <;> simp
  | list ts => simp [look_list]
  | absent => simp

end Tree

/-! ## Elements that end the way they begin -/

namespace Element

/-- An element that closes itself has no children and no closing tag. Any other one has a closing tag, with
the name that it begins with. -/
def isWellFormed (e : Element) : Bool :=
  if e.selfClosing then e.closing.isAbsent && e.children.isEmpty
  else e.name.look.isTag && e.closing.look == e.name.look

end Element

def Module.isWellFormed (m : Module) : Bool := !m.anyElement fun e => !e.isWellFormed

namespace Look

/-- Whether an element is well formed, by the looks of its parts. -/
def ends (selfClosing : Bool) : List Look → Bool
  | [name, group _, _, group isEmpty, closing] =>
      if selfClosing then closing == absent && isEmpty else name.isTag && closing == name
  | _ => true

/-- Whether a node is well formed, if it is an element. -/
def closes : Kind → List Look → Bool
  | .markup (.element selfClosing _), looks => ends selfClosing looks
  | _, _ => true

end Look

namespace Tree

/-- An element is told by the looks of its children. -/
theorem exists_of_looks {ts : List Tree} {name targs closing : Look} {b b' : Bool}
    (h : ts.map look = [name, .group b, targs, .group b', closing]) :
    ∃ n as ta cs c, ts = [n, .list as, ta, .list cs, c] := by
  obtain ⟨n, a, ta, ch, c, rfl, -, ha, -, hch, -⟩ := exists_five_of_map_eq h
  obtain ⟨as, rfl, -⟩ := look_eq_group.mp ha
  obtain ⟨cs, rfl, -⟩ := look_eq_group.mp hch
  exact ⟨n, as, ta, cs, c, rfl⟩

/-- Whether an element ends the way it begins, by the looks of its parts. -/
theorem closes_toTree (e : Element) :
    Look.closes (.markup (.element e.selfClosing e.asValue))
      ([e.name, .list e.attrs, e.typeArgs, .list e.children, e.closing].map look) = e.isWellFormed := by
  have habsent : (e.closing.look == .absent) = e.closing.isAbsent := by
    rw [Bool.eq_iff_iff, beq_iff_eq, look_eq_absent]
  simp only [Look.closes, Look.ends, List.map_cons, List.map_nil, look_list, habsent]
  rfl

/-- Whether a node is well formed can be told from the looks of its children. -/
theorem closes_eq (o : Origin) (k : Kind) (ts : List Tree) :
    (node o k ts).element?.all Element.isWellFormed = Look.closes k (ts.map look) := by
  cases he : (node o k ts).element? with
  | some e =>
      have htree := toTree_of_element? he
      rw [Element.toTree] at htree
      cases htree
      rw [Option.all_some]
      exact (closes_toTree e).symm
  | none =>
      unfold Look.closes
      split
      · unfold Look.ends
        split
        · -- children that look like this are those of an element
          next h =>
            obtain ⟨n, as, ta, cs, c, rfl⟩ := exists_of_looks h
            cases he
        · rfl
      · rfl

end Tree

/-! ## Norms -/

@[simp, reducible] def Kind.isTyped : Kind → Bool
  | .part .typeAnn => true
  | .part .typeArgs => true
  | .part .typeParams => true
  | .stmt (.interface _) => true
  | .stmt (.typeAlias _) => true
  | .stmt (.enum _ _) => true
  | .expr .asType => true
  | _ => false

@[simp, reducible] def Kind.isUntagged : Kind → Bool
  | .markup (.element _ _) => false
  | _ => true

theorem Tree.isTypeSyntax_node (o : Origin) (k : Kind) (ts : List Tree) : (node o k ts).isTypeSyntax = k.isTyped := by
  cases k with
  | part k => cases k <;> rfl
  | stmt k => cases k <;> rfl
  | expr k => cases k <;> rfl
  | _ => rfl

/-- What the nodes of a tree must keep to. -/
structure Norm where
  /-- There may be types. -/
  types : Bool
  /-- Elements must be well formed. -/
  ends : Bool

def Norm.admits (n : Norm) (t : Tree) : Bool :=
  (n.types || !t.isTypeSyntax) && (!n.ends || t.element?.all Element.isWellFormed)

namespace Tree

variable {n : Norm} {t t' t'' : Tree} {o : Origin} {k : Kind} {ts : List Tree}

/-- Whether a node keeps to a norm can be told from its kind and the looks of its children. -/
theorem admits_node (n : Norm) (o : Origin) (k : Kind) (ts : List Tree) :
    n.admits (node o k ts) = ((n.types || !k.isTyped) && (!n.ends || Look.closes k (ts.map look))) := by
  rw [Norm.admits, isTypeSyntax_node, closes_eq]

/-- Whether a node keeps to a norm does not change if the children keep their looks. -/
theorem admits_withChildren {ts' : List Tree} (h : ts'.map look = t.children.map look) :
    n.admits (t.withChildren ts') = n.admits t := by
  cases t with
  | node o k ts =>
      show n.admits (node o k ts') = n.admits (node o k ts)
      rw [admits_node, admits_node, h, children_node]
  | list ts => rfl
  | absent => rfl

def Meets (n : Norm) (t : Tree) : Prop := t.Everywhere fun u => n.admits u = true

/-- A tree meets a norm if its top keeps to it and its children meet it. -/
theorem meets_iff : t.Meets n ↔ n.admits t = true ∧ ∀ c ∈ t.children, c.Meets n := everywhere_iff

theorem Meets.child (h : t.Meets n) {c : Tree} (hc : c ∈ t.children) : c.Meets n := Everywhere.child h hc

theorem Meets.at? {p : Place} {u : Tree} (h : t.Meets n) (hu : t.at? p = some u) : u.Meets n :=
  fun q v hv => h (p ++ q) v (at?_append.mpr ⟨u, hu, hv⟩)

@[simp] theorem meets_list : (list ts).Meets n ↔ ∀ t ∈ ts, t.Meets n := by
  rw [meets_iff, children_list]
  simp [Norm.admits, isTypeSyntax, element?]

@[simp] theorem meets_absent : absent.Meets n := by
  rw [meets_iff]
  simp [Norm.admits, isTypeSyntax, element?]

/-! ## Nodes, kind by kind -/

/-- Most nodes meet a norm if their children do. -/
@[simp] theorem meets_node (hk : k.isUntagged = true) :
    (node o k ts).Meets n ↔ (k.isTyped = true → n.types = true) ∧ ∀ t ∈ ts, t.Meets n := by
  have hcloses : Look.closes k (ts.map look) = true := by
    unfold Look.closes
    split
    · cases hk
    · rfl
  rw [meets_iff, admits_node, hcloses, children_node]
  refine and_congr_left fun _ => ?_
  cases k.isTyped <;> simp

/-! ## Changes that uphold a norm -/

/-- If the first tree meets the norm, the second one does so, and they look the same. -/
def Upholds (n : Norm) (t t' : Tree) : Prop := t.Meets n → t'.Meets n ∧ t'.look = t.look

/-- A node upholds a norm if its children do. -/
theorem upholds_congruence (n : Norm) : Congruence (Upholds n) where
  refl t h := ⟨h, rfl⟩
  trans h h' ht := by
    obtain ⟨ht', hlook⟩ := h ht
    obtain ⟨ht'', hlook'⟩ := h' ht'
    exact ⟨ht'', hlook'.trans hlook⟩
  parent {t ts'} h ht := by
    have hchildren : List.Forall₂ (fun c c' => c'.Meets n ∧ c'.look = c.look) t.children ts' :=
      forall₂_imp_of_mem h fun c hc c' hR => hR (ht.child hc)
    -- the children keep their looks, so the node is judged as before
    have hlooks : ts'.map look = t.children.map look := map_eq_of_forall₂ (hchildren.imp fun _ _ h => h.2)
    refine ⟨meets_iff.mpr ⟨?_, ?_⟩, look_withChildren hlooks⟩
    · rw [admits_withChildren hlooks]
      exact (meets_iff.mp ht).1
    · intro c hc
      have hmem : c ∈ ts' := by
        cases t with
        | node o k ts => exact hc
        | list ts => exact hc
        | absent => cases hc
      obtain ⟨u, -, hu⟩ := forall₂_exists_left hchildren hmem
      exact hu.1

/-- A tree that meets the norm may take the place of another one if both look like any node. -/
theorem Upholds.of_meets (ht : t.look = .other) (ht' : t'.look = .other) (h : t.Meets n → t'.Meets n) :
    Upholds n t t' :=
  fun hmeets => ⟨h hmeets, ht'.trans ht.symm⟩

end Tree

end FormCodemod
