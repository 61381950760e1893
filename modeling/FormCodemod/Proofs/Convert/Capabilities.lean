import Mathlib.Data.List.Basic
import FormCodemod.Convert.Capabilities

/-!
# Helpers of a scope

A scope gets a helper for each capability that it needs, and one for the form state as a whole if it refers to that. What
holds of every kind of helper holds of all that a scope gets.
-/

namespace FormCodemod

/-- Nothing is lost where something is put in. -/
theorem mem_insertAt {α : Type} {n : Nat} {new xs : List α} {x : α} :
    x ∈ insertAt n new xs ↔ x ∈ new ∨ x ∈ xs := by
  have hmem : x ∈ xs ↔ x ∈ xs.take n ∨ x ∈ xs.drop n := by rw [← List.mem_append, List.take_append_drop]
  rw [insertAt, List.mem_append, List.mem_append, hmem]
  tauto

namespace Capabilities

variable {P : Tree → Prop} {s : Setting} {form : String} {c : Capabilities}

def names (c : Capabilities) : List String :=
  c.values.toList ++ c.setFieldValue.toList ++ c.setFieldTouched.toList ++ c.isSubmitting.toList

/-- A setter of values calls what the form updates with, by a variable for it or directly. -/
theorem forall_mem_helpers (hvalues : ∀ x ∈ c.names, P (valuesHelper form x))
    (hsetter : ∀ x ∈ c.names, P (setter s x (Make.member (Make.ident form) "update")) ∧ P (setter s x (Make.ident "update")))
    (hupdate : P (Make.constNamed "update" (Make.member (Make.ident form) "update")))
    (hfieldset : P (fieldsetHelper form)) (htouched : ∀ x ∈ c.names, P (touchedHelper s x))
    (hsubmitting : ∀ x ∈ c.names, P (submittingHelper x)) : ∀ t ∈ c.helpers s form, P t := by
  intro t ht
  simp only [names, List.mem_append] at hvalues hsetter htouched hsubmitting
  simp only [helpers, List.mem_append, List.mem_map, List.mem_flatMap] at ht
  rcases ht with (((⟨x, hx, rfl⟩ | ⟨x, hx, ht⟩) | ht) | ⟨x, hx, rfl⟩) | ⟨x, hx, rfl⟩
  · exact hvalues x (.inl (.inl (.inl hx)))
  · obtain ⟨hdirect, hbound⟩ := hsetter x (.inl (.inl (.inr hx)))
    unfold setterHelpers at ht
    split at ht
    · obtain rfl := List.mem_singleton.mp ht
      exact hdirect
    · rcases List.mem_pair.mp ht with rfl | rfl
      · exact hupdate
      · exact hbound
  · split at ht
    · obtain rfl := List.mem_singleton.mp ht
      exact hfieldset
    · cases ht
  · exact htouched x (.inl (.inr hx))
  · exact hsubmitting x (.inr hx)

/-- What holds of a declaration of the whole form state holds of the helper for it. -/
theorem forall_mem_wholeHelper {whole : Option String}
    (h : ∀ x, whole = some x → P (Make.constNamed x (Make.ident formName))) (uses : List Use) :
    ∀ t ∈ wholeHelper uses whole, P t := by
  intro t ht
  unfold wholeHelper at ht
  split at ht
  next x =>
    split at ht
    · obtain rfl := List.mem_singleton.mp ht
      exact h x rfl
    · cases ht
  next => cases ht

end Capabilities

end FormCodemod
