import FormCodemod.Proofs.Names.Watch
import FormCodemod.Proofs.Scope.Runs

/-!
# Walks that put in no names

A walk keeps a module clear if what is done with each body does. The passes that collect symbols keep
it clear only as long as they do not collect a certain one, so the statements here are about runs
at whose end the symbols are such and such (`P`).
-/

namespace FormCodemod

open Observed (Gives)

namespace Symbols

theorem mem_toList {s : Symbols} {x : String} :
    x ∈ s.toList ↔ s.formProvider = true ∧ x = "FormProvider" ∨ s.getInputProps = true ∧ x = "getInputProps" ∨
      s.useFormMetadata = true ∧ x = "useFormMetadata" := by
  obtain ⟨p, i, u⟩ := s
  cases p <;> cases i <;> cases u <;> simp [toList]

theorem mem_toList_append {a b : Symbols} {x : String} : x ∈ (a ++ b).toList ↔ x ∈ a.toList ∨ x ∈ b.toList := by
  show x ∈ (union a b).toList ↔ _
  simp only [mem_toList, union, Bool.or_eq_true]
  tauto

end Symbols

namespace Tree

variable {w : Watch}

theorem face_of_isFunction {t : Tree} (h : t.isFunction = true) : t.face = {} := by
  unfold isFunction at h
  split at h
  · rw [face_node]
    rfl
  · rw [face_node]
    rfl
  · cases h

theorem isFunction_withChildren {t : Tree} (h : t.isFunction = true) (ts : List Tree) :
    (t.withChildren ts).isFunction = true := by
  unfold isFunction at h
  split at h <;> first | rfl | cases h

/-- The children of a function are clear exactly if it is free itself. -/
theorem clear_of_isFunction {t : Tree} (h : t.isFunction = true) {ts : List Tree} :
    (t.withChildren ts).Free w ↔ ∀ c ∈ ts, c.Clear w := by
  have hclear : (t.withChildren ts).Clear w ↔ ∀ c ∈ ts, c.Clear w := by
    unfold isFunction at h
    split at h
    · exact clear_plain rfl
    · exact clear_plain rfl
    · cases h
  rw [← hclear]
  refine ⟨fun hfree => ⟨hfree, ?_⟩, fun hclear => hclear.free⟩
  rw [face_of_isFunction (isFunction_withChildren h ts)]
  simp

section Walks

variable {m : Type → Type} [Monad m] [Observed m] {f : ScopeKind → Tree → m Tree} {P : Symbols → Prop}

/-- If the symbols are right in the end, they were right before, and the tree is kept. -/
def KeepsIf (w : Watch) (P : Symbols → Prop) (t : Tree) (s : Symbols) (t' : Tree) (s' : Symbols) : Prop :=
  P s' → P s ∧ (t.Free w → Keeps w t t')

/-- Along a run of trees the condition on the symbols is handed back from the end to the start. -/
theorem along_keepsIf {ts ts' : List Tree} {s s' : Symbols} (h : Along (KeepsIf w P) ts s ts' s')
    (hs' : P s') : P s ∧ ((∀ t ∈ ts, t.Free w) → List.Forall₂ (Keeps w) ts ts') := by
  induction h with
  | nil => exact ⟨hs', fun _ => .nil⟩
  | cons hr _ ih =>
      obtain ⟨hs₁, hts⟩ := ih hs'
      obtain ⟨hs, ht⟩ := hr hs₁
      refine ⟨hs, fun hfree => .cons (ht (hfree _ (List.mem_cons_self ..))) (hts fun t h => ?_)⟩
      exact hfree t (List.mem_cons_of_mem _ h)

/-- Treating the body of a function keeps the function. -/
theorem onBody_keepsIf
    (hf : ∀ k body s body' s', Gives (f k body) s body' s' → P s' → P s ∧ (body.Clear w → body'.Clear w))
    {t t₁ : Tree} {s s₁ : Symbols} (hfun : t.isFunction = true) (h : Gives (onBody f t) s t₁ s₁) :
    KeepsIf w P t s t₁ s₁ := by
  intro hs₁
  rcases onBody_inv h with ⟨rfl, rfl, -⟩ | ⟨k, body, body', hscope, hgives, rfl⟩
  · exact ⟨hs₁, .refl⟩
  · obtain ⟨hs, hclear⟩ := hf k body s body' s₁ hgives hs₁
    refine ⟨hs, fun hfree => ?_⟩
    have hchildren : ∀ c ∈ t.children, c.Clear w := by
      rw [← clear_of_isFunction hfun, withChildren_children]
      exact hfree
    have hmem := List.mem_of_getElem? (children_of_scopeBody? hscope)
    refine ⟨(clear_of_isFunction hfun).mpr ?_, ?_⟩
    · intro c hc
      rcases List.mem_or_eq_of_mem_set hc with hc | rfl
      · exact hchildren c hc
      · exact hclear (hchildren body hmem)
    · rw [face_of_isFunction (isFunction_withChildren hfun _), face_of_isFunction hfun]

/-- A walk keeps trees free, as far as the symbols at its end allow, if each body is treated
so. -/
theorem walkable_keepsIf
    (hf : ∀ k body s body' s', Gives (f k body) s body' s' → P s' → P s ∧ (body.Clear w → body'.Clear w)) :
    Walkable f (KeepsIf w P) where
  refl t s hs := ⟨hs, .refl⟩
  parent {t ts' s s'} _ h hs' := by
    obtain ⟨hs, hts⟩ := along_keepsIf h hs'
    exact ⟨hs, fun hfree => .parent hfree (hts fun c hc => hfree.child hc)⟩
  function {t t₁ ts' s s₁ s'} hfun ht h hs' := by
    obtain ⟨hs₁, hts⟩ := along_keepsIf h hs'
    have hfirst : P s ∧ (t.Free w → Keeps w t t₁) := by
      rcases ht with ⟨rfl, rfl⟩ | ht
      · exact ⟨hs₁, .refl⟩
      · exact onBody_keepsIf hf hfun ht hs₁
    refine ⟨hfirst.1, fun hfree => ?_⟩
    have hkeeps := hfirst.2 hfree
    exact hkeeps.trans (.parent hkeeps.free (hts fun c hc => hkeeps.free.child hc))

end Walks

end Tree

namespace Module

variable {w : Watch}

def Clear (w : Watch) (mod : Module) : Prop := ∀ t ∈ mod.items, t.Clear w

/-- A walk keeps a module clear if what is done with the bodies does. -/
theorem clear_forEachScope {m : Type → Type} [Monad m] [LawfulMonad m] [Observed m]
    {f : ScopeKind → Tree → m Tree} {P : Symbols → Prop}
    (hf : ∀ k body s body' s', Gives (f k body) s body' s' → P s' → P s ∧ (body.Clear w → body'.Clear w))
    {mod mod' : Module} {s s' : Symbols} (h : Gives (mod.forEachScope f) s mod' s') (hs' : P s') :
    P s ∧ (mod.Clear w → mod'.Clear w) := by
  obtain ⟨items', rfl, hitems⟩ := forEachScope_inv h
  have halong := hitems.imp fun t _ s t' s' h => itemScopes_gives (Tree.walkable_keepsIf hf) h
  obtain ⟨hs, hkeeps⟩ := Tree.along_keepsIf halong hs'
  refine ⟨hs, fun hclear t' ht' => ?_⟩
  obtain ⟨t, ht, htt'⟩ := forall₂_exists_left (hkeeps fun t ht => (hclear t ht).free) ht'
  exact htt'.clear (hclear t ht)

/-- The same for a walk without effects. -/
theorem clear_run_forEachScope {f : ScopeKind → Tree → Tree} (hf : ∀ k body, body.Clear w → (f k body).Clear w)
    {mod : Module} (h : mod.Clear w) : (Id.run (mod.forEachScope fun k body => pure (f k body))).Clear w := by
  have hrun : Gives (mod.forEachScope fun k body => (pure (f k body) : Id Tree)) {}
      (Id.run (mod.forEachScope fun k body => pure (f k body))) {} := ⟨rfl, rfl⟩
  refine (clear_forEachScope (P := fun _ => True) ?_ hrun trivial).2 h
  rintro k body s body' s' ⟨rfl, rfl⟩ -
  exact ⟨trivial, hf k body⟩

end Module

end FormCodemod
