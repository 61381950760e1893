import FormCodemod.Proofs.FieldMarkup.Rewritten
import FormCodemod.Proofs.Tree.Congruence

/-!
# What field markup becomes

The needs that are collected do not matter to the markup, so the pass is a traversal without a state
(`FieldMarkup.converted`). It puts markup in the place of markup (`FieldMarkup.converted_rewritesMarkup`).

No element gets a tag of the library that it did not have, if no attribute asks for one (`FieldMarkup.Converts.tag?_inv`).
-/

namespace FormCodemod

/-- What a module calls the markup of the library that the field pass converts. -/
def LibraryNames.markup (names : LibraryNames) : List String := [names.form, names.field, names.errorMessage]

def Tree.asksFor (tags : List String) (a : Tree) : Bool := a.askedTag?.any tags.contains

/-- An attribute asks for one of the tags if the tag that it asks for is one of them. -/
theorem Tree.asksFor_eq_true {tags : List String} {a : Tree} :
    a.asksFor tags = true ↔ ∃ tag ∈ tags, a.askedTag? = some tag := by
  cases h : a.askedTag? with
  | none => simp [asksFor, h]
  | some tag => simp [asksFor, h]

namespace FieldMarkup

variable {names : LibraryNames} {bindings tags : List String} {e e' : Element} {x : String} {n n' : Needs}

/-! ## Without a state -/

/-- What a node becomes when its children are converted. -/
def convertedNode (names : LibraryNames) (bindings : List String) (t : Tree) : Tree :=
  ((convertNode names bindings t).run {}).1

def converted (names : LibraryNames) (bindings : List String) (t : Tree) : Tree :=
  t.mapUp Tree.opensScope (convertedNode names bindings)

/-- What a tree becomes does not depend on the needs that are collected along the way. -/
theorem fst_run_mapUpM_convertNode (t : Tree) (n : Needs) :
    ((t.mapUpM Tree.opensScope (convertNode names bindings)).run n).1 = converted names bindings t :=
  Tree.fst_run_mapUpM fst_run_convertNode _ t n

/-- What a node becomes is one of the ways to convert it. -/
theorem exists_convertsNode (names : LibraryNames) (bindings : List String) (t : Tree) :
    ∃ n', ConvertsNode names bindings {} t (convertedNode names bindings t) n' :=
  ⟨_, convertNode_inv rfl⟩

/-- A node is converted around its converted children. -/
theorem converted_node (names : LibraryNames) (bindings : List String) {o : Origin} {k : Kind} {ts : List Tree}
    (hs : (Tree.node o k ts).opensScope = false) :
    ∃ n', ConvertsNode names bindings {} (.node o k (ts.map (converted names bindings)))
      (converted names bindings (.node o k ts)) n' := by
  rw [converted, Tree.mapUp_node, hs, if_neg Bool.false_ne_true]
  exact exists_convertsNode names bindings _

/-- The errors of a field take the place of an expression or of a child. -/
theorem errorMarkup_cases (e : Element) :
    (errorMarkup e).isMarkup = true ∧ ∀ e', (errorMarkup e).element? = some e' → e'.asValue = false := by
  have hmade : ∀ tag attrs children, (Make.element tag attrs children).isMarkup = true ∧
      ∀ e', (Make.element tag attrs children).element? = some e' → e'.asValue = false := by
    intro tag attrs children
    unfold Make.element
    split
    · exact ⟨rfl, fun e' he' => by cases he'; rfl⟩
    · exact ⟨rfl, fun e' he' => by cases he'; rfl⟩
  unfold errorMarkup
  dsimp only
  split
  · exact hmade ..
  · exact ⟨rfl, nofun⟩

/-- The conversion puts markup in the place of markup, and changes nothing else. -/
theorem converted_rewritesMarkup (names : LibraryNames) (bindings : List String) :
    Tree.RewritesMarkup (converted names bindings) := by
  refine Tree.rewritesMarkup_mapUp (fun t ht => ?_) fun t ht => ?_
  · obtain ⟨n', hnode⟩ := exists_convertsNode names bindings t
    generalize convertedNode names bindings t = t' at hnode ⊢
    cases hnode with
    | kept => exact ht
    | message => exact (errorMarkup_cases _).1
    | element => rfl
  · obtain ⟨n', hnode⟩ := exists_convertsNode names bindings t
    generalize convertedNode names bindings t = t' at hnode ⊢
    cases hnode with
    | kept => rfl
    | message => cases ht
    | element => cases ht

/-! ## Tags -/

theorem tag?_settle (e : Element) : e.settle.tag? = e.tag? := by
  unfold Element.settle
  split <;> rfl

theorem tag?_toInput (e : Element) (source : FieldSource) : (e.toInput .native source).tag? = e.tag? := tag?_settle _

theorem asValue_toInput (e : Element) (kind : InputKind) (source : FieldSource) :
    (e.toInput kind source).asValue = e.asValue := by
  have hsettle : ∀ e : Element, e.settle.asValue = e.asValue := by
    intro e
    unfold Element.settle
    split <;> rfl
  cases kind <;> exact hsettle _

namespace Converts

/-- A converted element stands where it stood, bare behind an attribute's name or not. -/
theorem asValue_eq (h : Converts names bindings e n e' n') : e'.asValue = e.asValue := by
  cases h with
  | field => exact asValue_toInput ..
  | form => rfl
  | binding _ _ htake =>
      obtain ⟨-, rfl⟩ := Element.takeBinding?_inv htake
      exact asValue_toInput ..
  | wired => exact asValue_toInput ..
  | spread _ _ hspread =>
      obtain ⟨attrs, rfl⟩ := Element.convertFieldProps?_inv hspread
      rfl
  | other => rfl

/-- A tag of the library was there before, and it is none of a field or of the form. -/
theorem tag?_inv (h : Converts names bindings e n e' n') (hinput : "input" ∉ names.markup) (hform : "form" ∉ names.markup)
    (hasks : ∀ a ∈ e.attrs, a.asksFor names.markup = false) (hx : x ∈ names.markup) (htag : e'.tag? = some x) :
    e.tag? = some x ∧ x ≠ names.field ∧ x ≠ names.form := by
  -- most ways keep the tag, and then it is none of the two that are asked for first
  have hkept : e.tag? ≠ some names.field → e.tag? ≠ some names.form → e'.tag? = e.tag? →
      e.tag? = some x ∧ x ≠ names.field ∧ x ≠ names.form := by
    intro hfield hform heq
    rw [← heq, htag] at hfield hform
    exact ⟨heq ▸ htag, fun h => hfield (congrArg some h), fun h => hform (congrArg some h)⟩
  cases h with
  | field =>
      have hinputTag : some (Attrs.inputTag (Attrs.unwired e.attrs)) = some x := (tag?_settle _).symm.trans htag
      obtain rfl := Option.some.inj hinputTag
      rcases Attrs.inputTag_cases (Attrs.unwired e.attrs) with hdefault | ⟨a, ha, hasked⟩
      · rw [hdefault] at hx
        exact absurd hx hinput
      · have hno := hasks a (Attrs.mem_of_mem_unwired ha)
        rw [Tree.asksFor_eq_true.mpr ⟨_, hx, hasked⟩] at hno
        cases hno
  | form =>
      have hformTag : some "form" = some x := htag
      obtain rfl := Option.some.inj hformTag
      exact absurd hx hform
  | binding hf hf' htake =>
      obtain ⟨-, rfl⟩ := Element.takeBinding?_inv htake
      exact hkept hf hf' (tag?_toInput ..)
  | wired hf hf' _ => exact hkept hf hf' (tag?_toInput ..)
  | spread hf hf' hspread =>
      obtain ⟨attrs, rfl⟩ := Element.convertFieldProps?_inv hspread
      exact hkept hf hf' rfl
  | other hf hf' => exact hkept hf hf' rfl

/-- No attribute that is made asks for a tag. -/
theorem asksFor_closed (tags : List String) : Attrs.Closed (fun _ => True) fun a => a.asksFor tags = false where
  whole _ := trivial
  moved _ _ _ := trivial
  inputProps _ _ := rfl
  id := rfl
  ref {a} h := by
    unfold Attrs.toRef
    split
    · rfl
    · exact h
  form {a} ha := by
    simp only [formAttrs, List.mem_cons, List.not_mem_nil, or_false] at ha
    rcases ha with rfl | rfl | rfl <;> rfl

/-- A converted element asks for no tag that it did not ask for. -/
theorem asksFor_eq_false (h : Converts names bindings e n e' n') (hasks : ∀ a ∈ e.attrs, a.asksFor tags = false) :
    ∀ a ∈ e'.attrs, a.asksFor tags = false := by
  have htrue : Tree.Hereditary fun _ => True := ⟨fun _ => by simp, by simp, trivial⟩
  have hparts : e.Parts (fun _ => True) fun a => a.asksFor tags = false :=
    ⟨trivial, hasks, trivial, fun _ _ => trivial, trivial⟩
  exact (hparts.converts htrue (asksFor_closed tags) h).attrs

end Converts

end FieldMarkup

end FormCodemod
