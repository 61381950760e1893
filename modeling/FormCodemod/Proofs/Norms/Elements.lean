import FormCodemod.Proofs.Convert.Parts
import FormCodemod.Proofs.Norms.Made

/-!
# Norms and elements

An element keeps to a norm if its parts do and, where elements must be well formed, it is
(`Element.meets_toTree`). The parts of an element that is converted do so, as it is hereditary to keep to a norm
(`Tree.meets_hereditary`). Elements are renamed, emptied and given other attributes; each of these changes
keeps the two ends of an element in step.
-/

namespace FormCodemod

variable {n : Norm}

/-! ## Parts of code -/

namespace Tree

variable {t u : Tree}

/-- For most nodes it is enough that the children meet the norm. -/
theorem meets_hereditary (n : Norm) : Hereditary (Meets n) where
  node {o k ts} hk := by
    have hbasic : k.isUntagged = true ∧ k.isTyped = false := by
      unfold Kind.isBasic at hk
      split at hk <;> first | exact ⟨rfl, rfl⟩ | cases hk
    rw [meets_node hbasic.1, hbasic.2]
    simp
  list := meets_list
  absent := meets_absent

theorem Meets.callTo? {x : String} (h : t.Meets n) (hu : t.callTo? x = some u) : u.Meets n := by
  unfold Tree.callTo? at hu
  split at hu
  · obtain rfl := Option.some.inj hu
    exact (meets_hereditary n).unparen h
  · cases hu

/-- Whether an element stands as a value or as an expression does not matter. -/
theorem Meets.asExpr (h : t.Meets n) : t.asExpr.Meets n := by
  unfold Tree.asExpr
  split
  · next o s b ts =>
      rw [meets_iff, admits_node] at h ⊢
      exact h
  · exact h

end Tree

namespace Attrs

variable {attrs : List Tree}

theorem meets_value (h : ∀ a ∈ attrs, a.Meets n) (x : String) : (value x attrs).Holds (Tree.Meets n) :=
  holds_value (Tree.meets_hereditary n).carried fun a ha _ => ((Tree.meets_hereditary n).attrValue (h a ha)).asExpr

theorem meets_toRef {a : Tree} (ha : a.Meets n) : (toRef a).Meets n := by
  unfold toRef
  split
  · simp at ha
    simp [ha.2]
  · exact ha

/-- Attributes that are moved or made meet the norm. -/
theorem meets_closed (n : Norm) : Closed (Tree.Meets n) (Tree.Meets n) where
  whole h := h
  moved h _ _ := ((Tree.meets_hereditary n).attrValue h).asExpr
  inputProps hfield hoptions := (Tree.meets_hereditary n).inputProps.mpr ⟨hfield, hoptions⟩
  id := by simp [Make.stringAttr]
  ref := meets_toRef
  form {a} ha := by
    have hattrs : ∀ a ∈ FieldMarkup.formAttrs, a.Meets n := by
      simp [FieldMarkup.formAttrs, FieldMarkup.formMember, Make.exprAttr]
    exact hattrs a ha

end Attrs

/-! ## Elements -/

namespace Element

variable {e e' : Element} {x : String}

/-- The parts of an element keep to a norm, and so does the element itself. -/
structure Meets (n : Norm) (e : Element) : Prop extends e.Parts (Tree.Meets n) (Tree.Meets n) where
  ends : n.ends = true → e.isWellFormed = true

/-- An element meets a norm exactly if it is well formed where asked and its parts meet it. -/
theorem meets_toTree : e.toTree.Meets n ↔ e.Meets n := by
  have hadmits : n.admits e.toTree = true ↔ (n.ends = true → e.isWellFormed = true) := by
    rw [toTree, Tree.admits_node, Tree.closes_toTree]
    cases n.ends <;> simp
  rw [Tree.meets_iff, hadmits]
  constructor
  · rintro ⟨hends, hparts⟩
    simp [toTree] at hparts
    obtain ⟨hname, hattrs, htargs, hchildren, hclosing⟩ := hparts
    exact ⟨⟨hname, hattrs, htargs, hchildren, hclosing⟩, hends⟩
  · intro h
    refine ⟨h.ends, ?_⟩
    simpa [toTree] using ⟨h.name, h.attrs, h.typeArgs, h.children, h.closing⟩

theorem look_toTree : e.toTree.look = .other := Tree.look_node ..

/-! ### Ends -/

theorem isWellFormed_rename (h : e.isWellFormed = true) (x : String) : (e.rename x).isWellFormed = true := by
  unfold isWellFormed at h ⊢
  cases hself : e.selfClosing with
  | true =>
      rw [hself, if_pos rfl, Bool.and_eq_true] at h
      have habsent : Tree.absent.isAbsent = true := rfl
      simp [rename, hself, h.1, h.2, habsent]
  | false =>
      rw [hself, if_neg Bool.false_ne_true, Bool.and_eq_true, beq_iff_eq] at h
      -- the closing tag looks like a tag, so it is there
      have hthere : e.closing.isAbsent = false := by
        rw [← Bool.not_eq_true, ← Tree.look_eq_absent, h.2]
        intro habsent
        rw [habsent] at h
        cases h.1
      simp [rename, hself, hthere, Make.name, Tree.look_node, Look.ofKind, Look.isTag]

theorem isWellFormed_settle (h : e.isWellFormed = true) : e.settle.isWellFormed = true := by
  unfold settle
  split
  · rfl
  · next hcontent =>
      -- there is content, so the element did not close itself
      have hself : e.selfClosing = false := by
        rw [← Bool.not_eq_true]
        intro hself
        rw [isWellFormed, if_pos hself, Bool.and_eq_true, List.isEmpty_iff] at h
        simp [content, h.2] at hcontent
      rw [isWellFormed, hself, if_neg Bool.false_ne_true, Bool.and_eq_true, beq_iff_eq] at h
      have hlook : (if e.closing.isAbsent = true then e.name else e.closing).look = e.name.look := by
        split
        · rfl
        · exact h.2
      simp [isWellFormed, h.1, hlook]

theorem isWellFormed_toInput (h : e.isWellFormed = true) (kind : InputKind) (source : FieldSource) :
    (e.toInput kind source).isWellFormed = true := by
  cases kind with
  | native => exact isWellFormed_settle h
  | fieldComponent => exact isWellFormed_settle (isWellFormed_rename h _)

/-- However an element is converted, it stays well formed. -/
theorem isWellFormed_converts {names : LibraryNames} {bindings : List String} {needs needs' : FieldMarkup.Needs}
    (h : e.isWellFormed = true) (hconverts : FieldMarkup.Converts names bindings e needs e' needs') :
    e'.isWellFormed = true := by
  cases hconverts with
  | field => exact isWellFormed_toInput h _ _
  | form => exact isWellFormed_rename h "form"
  | binding _ _ htake =>
      obtain ⟨-, rfl⟩ := takeBinding?_inv htake
      exact isWellFormed_toInput (by exact h) _ _
  | wired => exact isWellFormed_toInput h _ _
  | spread _ _ hspread =>
      obtain ⟨attrs, rfl⟩ := convertFieldProps?_inv hspread
      exact h
  | other => exact h

/-- However an element is converted, it meets the norm. -/
theorem Meets.converts {names : LibraryNames} {bindings : List String} {needs needs' : FieldMarkup.Needs}
    (h : e.Meets n) (hconverts : FieldMarkup.Converts names bindings e needs e' needs') : e'.Meets n :=
  ⟨h.toParts.converts (Tree.meets_hereditary n) (Attrs.meets_closed n) hconverts,
    fun hn => isWellFormed_converts (h.ends hn) hconverts⟩

/-! ### Messages -/

/-- A made element meets the norm if its parts do. -/
theorem meets_made {tag : String} {attrs children : List Tree} (hattrs : ∀ a ∈ attrs, a.Meets n)
    (hchildren : ∀ c ∈ children, c.Meets n) : (Make.element tag attrs children).Meets n := by
  unfold Make.element
  split
  · exact meets_toTree (e := ⟨.made, false, true, _, attrs, .absent, [], .absent⟩).mpr
      ⟨⟨Make.meets_name, hattrs, Tree.meets_absent, nofun, Tree.meets_absent⟩, fun _ => rfl⟩
  · refine meets_toTree (e := ⟨.made, false, false, _, attrs, .absent, children, _⟩).mpr
      ⟨⟨Make.meets_name, hattrs, Tree.meets_absent, hchildren, Make.meets_name⟩, fun _ => ?_⟩
    simp [isWellFormed, Tree.look_node, Look.ofKind, Look.isTag]

theorem look_made (tag : String) (attrs children : List Tree) : (Make.element tag attrs children).look = .other := by
  unfold Make.element
  split <;> exact Tree.look_node ..

/-- The markup of an error meets the norm if its element did. -/
theorem Meets.errorMarkup (h : e.Meets n) : (FieldMarkup.errorMarkup e).Meets n :=
  h.toParts.errorMarkup (Tree.meets_hereditary n) (Attrs.meets_closed n)
    (fun _ _ _ _ => meets_made) fun _ hchildren => (Tree.meets_hereditary n).fragment.mpr hchildren

theorem look_errorMarkup : (FieldMarkup.errorMarkup e).look = .other := by
  unfold FieldMarkup.errorMarkup
  dsimp only
  split
  · exact look_made ..
  · exact Tree.look_node ..

end Element

end FormCodemod
