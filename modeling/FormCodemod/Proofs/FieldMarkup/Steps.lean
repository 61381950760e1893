import FormCodemod.Convert.FieldMarkup
import FormCodemod.Proofs.Convert.Capabilities

/-!
# Steps of the field pass

What the field pass does with an element (`FieldMarkup.Converts`), with a node (`FieldMarkup.ConvertsNode`) and with the
statements of a scope (`FieldMarkup.mem_declareNeeds`). Which needs were collected before does not matter to the
markup (`FieldMarkup.fst_run_convertNode`).
-/

namespace FormCodemod

/-- To take a binding out of an element removes the first spread of one. -/
theorem Element.takeBinding?_inv {e e' : Element} {xs : List String} {x : String} (h : e.takeBinding? xs = some (e', x)) :
    e.attrs.findSome? (spreadOf? xs) = some x ∧
      e' = { e with attrs := e.attrs.eraseP fun a => (spreadOf? xs a).isSome } := by
  obtain ⟨y, hfind, heq⟩ := Option.map_eq_some_iff.mp h
  cases heq
  exact ⟨hfind, rfl⟩

/-- To convert the field properties of an element exchanges its attributes only. -/
theorem Element.convertFieldProps?_inv {e e' : Element} {fieldset : String} (h : e.convertFieldProps? fieldset = some e') :
    ∃ attrs, e' = { e with attrs } := by
  obtain ⟨r, -, rfl⟩ := Option.map_eq_some_iff.mp h
  exact ⟨_, rfl⟩

namespace FieldMarkup

variable {names : LibraryNames} {bindings : List String} {e e' : Element} {t t' : Tree} {n n' : Needs}

/-! ## Elements -/

/-- The ways to convert an element, with what its markup needs. -/
inductive Converts (names : LibraryNames) (bindings : List String) (e : Element) (n : Needs) : Element → Needs → Prop
  | field : e.tag? = some names.field →
      Converts names bindings e n (e.toInput .fieldComponent (.fieldset fieldsName))
        { n with fieldset := true, inputProps := true }
  | form : e.tag? = some names.form → Converts names bindings e n (toForm e) { n with form := true }
  | binding {e' : Element} {x : String} : e.tag? ≠ some names.field → e.tag? ≠ some names.form →
      e.takeBinding? bindings = some (e', x) →
      Converts names bindings e n (e'.toInput .native (.binding (Make.ident x))) { n with inputProps := true }
  | wired : e.tag? ≠ some names.field → e.tag? ≠ some names.form → e.isWiredNative = true →
      Converts names bindings e n (e.toInput .native (.fieldset fieldsName))
        { n with fieldset := true, inputProps := true }
  | spread {e' : Element} : e.tag? ≠ some names.field → e.tag? ≠ some names.form →
      e.convertFieldProps? fieldsName = some e' →
      Converts names bindings e n e' { n with fieldset := true, inputProps := true }
  | other : e.tag? ≠ some names.field → e.tag? ≠ some names.form → Converts names bindings e n e n

/-- A run of the conversion of an element is one of the ways to convert it. -/
theorem convertElement_inv (h : (convertElement names bindings e).run n = (e', n')) : Converts names bindings e n e' n' := by
  unfold convertElement at h
  split at h
  next hfield =>
    cases h
    exact .field (beq_iff_eq.mp hfield)
  next hfield =>
    rw [beq_iff_eq] at hfield
    split at h
    next hform =>
      cases h
      exact .form (beq_iff_eq.mp hform)
    next hform =>
      rw [beq_iff_eq] at hform
      split at h
      next e₁ x htake =>
        cases h
        exact .binding hfield hform htake
      next =>
        split at h
        next hwired =>
          cases h
          exact .wired hfield hform hwired
        next =>
          split at h
          next e₁ hspread =>
            cases h
            exact .spread hfield hform hspread
          next =>
            cases h
            exact .other hfield hform

/-! ## Nodes -/

/-- The ways to convert a node. A message that stands as an expression or as a child is replaced, and other
elements stay elements. -/
inductive ConvertsNode (names : LibraryNames) (bindings : List String) (n : Needs) : Tree → Tree → Needs → Prop
  | kept {t : Tree} : t.element? = none → ConvertsNode names bindings n t t n
  | message {e e' : Element} {n' : Needs} : Converts names bindings e n e' n' → e'.tag? = some names.errorMessage →
      e'.asValue = false → ConvertsNode names bindings n e.toTree (errorMarkup e') { n' with fieldset := true }
  | element {e e' : Element} {n' : Needs} : Converts names bindings e n e' n' →
      (e'.tag? = some names.errorMessage → e'.asValue = true) → ConvertsNode names bindings n e.toTree e'.toTree n'

/-- A run of the conversion of a node is one of the ways to convert it. -/
theorem convertNode_inv (h : (convertNode names bindings t).run n = (t', n')) : ConvertsNode names bindings n t t' n' := by
  unfold convertNode at h
  split at h
  next he =>
    cases h
    exact .kept he
  next e he =>
    obtain rfl := Tree.toTree_of_element? he
    have hconverts : Converts names bindings e n _ _ := convertElement_inv rfl
    rw [StateT.run_bind] at h
    dsimp only [bind] at h
    split at h
    next hmessage =>
      rw [Bool.and_eq_true, beq_iff_eq, Bool.not_eq_true'] at hmessage
      cases h
      exact .message hconverts hmessage.1 hmessage.2
    next hmessage =>
      cases h
      refine .element hconverts fun htag => ?_
      rw [htag] at hmessage
      simpa using hmessage

namespace ConvertsNode

/-- What is no element is left as it is. -/
theorem eq_of_none (h : ConvertsNode names bindings n t t' n') (he : t.element? = none) : t' = t := by
  cases h with
  | kept => rfl
  | message => cases he
  | element => cases he

/-- What is no element adds no needs. -/
theorem needs_eq_of_none (h : ConvertsNode names bindings n t t' n') (he : t.element? = none) : n' = n := by
  cases h with
  | kept => rfl
  | message => cases he
  | element => cases he

theorem element_inv (h : ConvertsNode names bindings n e.toTree t' n') :
    ∃ e' n₁, Converts names bindings e n e' n₁ ∧
      (t' = errorMarkup e' ∧ n' = { n₁ with fieldset := true } ∧ e'.tag? = some names.errorMessage ∨
        t' = e'.toTree ∧ n' = n₁ ∧ (e'.tag? = some names.errorMessage → e'.asValue = true)) := by
  generalize ht : e.toTree = t at h
  cases h with
  | kept he =>
      rw [← ht] at he
      cases he
  | message hconverts htag =>
      obtain rfl : e = _ := by simpa using congrArg Tree.element? ht
      exact ⟨_, _, hconverts, .inl ⟨rfl, rfl, htag⟩⟩
  | element hconverts hmessage =>
      obtain rfl : e = _ := by simpa using congrArg Tree.element? ht
      exact ⟨_, _, hconverts, .inr ⟨rfl, rfl, hmessage⟩⟩

end ConvertsNode

/-! ### Needs do not matter -/

/-- What an element becomes does not depend on the needs collected before. -/
theorem fst_run_convertElement (e : Element) (n : Needs) :
    ((convertElement names bindings e).run n).1 = ((convertElement names bindings e).run {}).1 := by
  unfold convertElement
  split
  · rfl
  · split
    · rfl
    · split
      · rfl
      · split
        · rfl
        · split <;> rfl

/-- What a node becomes does not depend on the needs collected before. -/
theorem fst_run_convertNode (t : Tree) (n : Needs) :
    ((convertNode names bindings t).run n).1 = ((convertNode names bindings t).run {}).1 := by
  cases he : t.element? with
  | none =>
      rw [convertNode, he]
      rfl
  | some e =>
      obtain rfl := Tree.toTree_of_element? he
      -- the markup is made from the converted element alone
      have hmarkup : ∀ m, ((convertNode names bindings e.toTree).run m).1 =
          (fun e' => if e'.tag? == some names.errorMessage && !e'.asValue then errorMarkup e' else e'.toTree)
            ((convertElement names bindings e).run m).1 := by
        intro m
        rw [convertNode, Tree.element?_toTree]
        dsimp only
        rw [StateT.run_bind]
        dsimp only [bind]
        split <;> rfl
      rw [hmarkup, hmarkup, fst_run_convertElement]

/-! ## Declarations -/

/-- What is declared for the markup of a scope: the form, which needs the symbol for its hook, and its fields. -/
theorem mem_declareNeeds {n : Needs} {ss : List Tree} {t : Tree} (h : t ∈ (declareNeeds n ss).1) :
    t ∈ ss ∨ t = formDecl ∧ (declareNeeds n ss).2.useFormMetadata = true ∨ t = Capabilities.fieldsetHelper formName := by
  unfold declareNeeds at h ⊢
  dsimp only at h ⊢
  generalize (n.fieldset && !Tree.anyDeclares fieldsName ss) = needsFieldset at h ⊢
  generalize ((n.form || needsFieldset) && !Tree.anyDeclares formName ss) = needsForm at h ⊢
  have hform : ∀ u ∈ (if needsForm = true then formDecl :: ss else ss), u ∈ ss ∨ u = formDecl ∧ needsForm = true := by
    intro u hu
    split at hu
    · next hneeds =>
        rcases List.mem_cons.mp hu with rfl | hu
        · exact .inr ⟨rfl, hneeds⟩
        · exact .inl hu
    · exact .inl hu
  split at h
  · rcases mem_insertAt.mp h with h | h
    · exact .inr (.inr (List.mem_singleton.mp h))
    · exact (hform t h).imp_right .inl
  · exact (hform t h).imp_right .inl

end FieldMarkup

end FormCodemod
