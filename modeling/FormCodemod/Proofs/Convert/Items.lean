import Mathlib.Logic.Relation
import FormCodemod.Conversion
import FormCodemod.Proofs.Fieldset.Normal
import FormCodemod.Proofs.Scope.Runs
import FormCodemod.Proofs.Tree.Alike

/-!
# The passes, item by item

Every pass treats the items of a module one after the other and keeps their number and order. What it
makes of an item does not depend on the others: it is what the pass makes of a module with that
item alone (`Tree.Converts`). Outside of functions, calls and reads of members it changes
nothing (`Tree.Alike`).
-/

namespace FormCodemod

open Observed (Gives)

namespace Tree

/-- Changes to alike trees, all over a tree, make a tree that is alike. -/
theorem alike_congruence : Congruence Alike where
  refl := .refl
  trans := .trans
  parent := .parent

/-- A walk changes functions only. -/
theorem walkable_alike {m : Type → Type} [Monad m] [Observed m] (f : ScopeKind → Tree → m Tree) :
    Walkable f fun t _ t' _ => Alike t t' := by
  refine alike_congruence.walkable fun {t k body s body' s'} hscope _ => ?_
  have hcode : ∀ ts, (t.withChildren ts).isCode = true := by
    intro ts
    have hf := isFunction_of_scopeBody? hscope
    unfold isFunction at hf
    split at hf <;> first | rfl | cases hf
  exact .code (by simpa using hcode t.children) (hcode _)

/-- Applying a rule everywhere gives an alike tree if the rule itself does. -/
theorem alike_mapUp {f : Tree → Tree} (hf : ∀ t, Alike t (f t)) (stop : Tree → Bool) (t : Tree) :
    Alike t (t.mapUp stop f) :=
  alike_congruence.mapUp hf stop t

end Tree

/-! ## Rules for fields -/

namespace Fieldset

/-- To spell out a field is to put code in the place of code. -/
theorem alike_spellOut (t : Tree) : t.Alike (spellOut t) := by
  unfold spellOut
  split
  · split
    · exact .code rfl rfl
    · exact .refl _
  · exact .refl _

/-- To convert a getter is to put code in the place of code. -/
theorem alike_convertGetter (t : Tree) : t.Alike (convertGetter t) := by
  unfold convertGetter
  split
  · split
    · exact .code rfl rfl
    · exact .refl _
  · exact .refl _

/-- Normalization puts code in the place of code, and does nothing else. -/
theorem alike_normalized (t : Tree) : t.Alike (normalized t) :=
  (Tree.alike_mapUp alike_convertGetter _ t).trans (Tree.alike_mapUp alike_spellOut _ _)

end Fieldset

/-! ## One item alone -/

namespace Module

def only (t : Tree) : Module := { origin := .made, items := [t] }

/-- In a module of one item a walk hands out the scopes of that item. -/
theorem forEachScope_only {m : Type → Type} [Monad m] [LawfulMonad m] (f : ScopeKind → Tree → m Tree) (t : Tree) :
    (only t).forEachScope f = only <$> itemScopes f t := by
  simp [forEachScope_eq, only]
  rfl

section Walks

variable {m : Type → Type} [Monad m] [LawfulMonad m] [Observed m] {f : ScopeKind → Tree → m Tree}

/-- A walk treats every item as it would treat it alone, and changes nothing but code. -/
theorem items_forEachScope {mod mod' : Module} {s s' : Symbols} (h : Gives (mod.forEachScope f) s mod' s') :
    ∃ items', mod' = { mod with items := items' } ∧
      List.Forall₂ (fun t t' => (∃ s s', Gives (itemScopes f t) s t' s') ∧ t.Alike t') mod.items items' := by
  obtain ⟨items', rfl, hitems⟩ := forEachScope_inv h
  refine ⟨items', rfl, hitems.forall₂ ?_⟩
  intro t _ s t' s' h
  exact ⟨⟨s, s', h⟩, itemScopes_gives (Tree.walkable_alike f) h⟩

end Walks

/-- The same for a walk without effects. -/
theorem items_run_forEachScope (f : ScopeKind → Tree → Id Tree) (m : Module) :
    ∃ items', Id.run (m.forEachScope f) = { m with items := items' } ∧
      List.Forall₂ (fun t t' => Id.run ((only t).forEachScope f) = only t' ∧ t.Alike t') m.items items' := by
  have hrun : Gives (m.forEachScope f) {} (Id.run (m.forEachScope f)) {} := ⟨rfl, rfl⟩
  obtain ⟨items', heq, hitems⟩ := items_forEachScope hrun
  refine ⟨items', heq, hitems.imp ?_⟩
  rintro t t' ⟨⟨s, s', h, -⟩, halike⟩
  refine ⟨?_, halike⟩
  rw [forEachScope_only, ← h]
  rfl

end Module

namespace Tree

/-- What the passes behind the imports make of an item alone. The symbols that were collected
before do not matter. -/
def ConvertsBody (s : Setting) (t t' : Tree) : Prop :=
  ∃ t₂ t₃ t₄ σ₂ σ₃ σ₃' σ₄, FieldHook.convert s (.only t) = .only t₂ ∧
    (FormWrapper.convert s (.only t₂)).run σ₂ = .ok (.only t₃, σ₃) ∧
    (FieldMarkup.convert s (.only t₃)).run σ₃' = (.only t₄, σ₄) ∧ Fieldset.normalize (.only t₄) = .only t'

/-- What all the passes make of an item alone. -/
def Converts (s : Setting) (t t' : Tree) : Prop :=
  ∃ t₁, Context.convert s (.only t) = .only t₁ ∧ t₁.ConvertsBody s t'

end Tree

namespace Module

/-! ## The passes together -/

variable {o : Options} {s : Setting} {m m' : Module} {σ σ' : Symbols}

/-- A run of the markup steps, taken apart: first the wrappers, then the fields. -/
theorem convertMarkup_inv (h : (convertMarkup s m).run σ = .ok (m', σ')) :
    ∃ m₁ σ₁, (FormWrapper.convert s m).run σ = .ok (m₁, σ₁) ∧ (FieldMarkup.convert s m₁).run σ₁ = (m', σ') := by
  have h : Gives (convertMarkup s m) σ m' σ' := h
  obtain ⟨m₁, σ₁, hwrap, h⟩ := Observed.bind_inv h
  exact ⟨m₁, σ₁, hwrap, by cases h; rfl⟩

/-- A successful conversion, pass by pass. -/
theorem convert_inv (h : m.convert o = .ok m') :
    ∃ m₄ σ,
      (convertMarkup (m.setting o) <| FieldHook.convert (m.setting o) <|
        ((Context.convert (m.setting o) m).removeImports o.sourceModule).insertImports o
          (.ofFeatures (.ofModule (m.setting o).names m)) (m.setting o).names.aliases
          ((Context.convert (m.setting o) m).importPlace? o.sourceModule)).run {} = .ok (m₄, σ) ∧
      m' = (Fieldset.normalize m₄).ensureImports o.targetModule σ.toList []
        ((Context.convert (m.setting o) m).importPlace? o.sourceModule) := by
  unfold convert at h
  simp only [bind, Except.bind] at h
  split at h
  · cases h
  · next r hr =>
      cases h
      exact ⟨r.1, r.2, hr, rfl⟩

/-- The passes behind the imports keep the number and order of items. -/
theorem items_convertBody (h : (convertMarkup s (FieldHook.convert s m)).run σ = .ok (m', σ')) :
    List.Forall₂ (fun t t' => t.ConvertsBody s t' ∧ t.Alike t') m.items (Fieldset.normalize m').items := by
  obtain ⟨m₃, σ₃, hwrap, hmark⟩ := convertMarkup_inv h
  obtain ⟨items₂, hhook, h₂⟩ := items_run_forEachScope (fun _ body => pure (FieldHook.convertScope s body)) m
  obtain ⟨items₃, rfl, h₃⟩ := items_forEachScope (show Gives (FormWrapper.convert s _) σ m₃ σ₃ from hwrap)
  obtain ⟨items₄, rfl, h₄⟩ := items_forEachScope (show Gives (FieldMarkup.convert s _) σ₃ m' σ' from hmark)
  have hitems : (FieldHook.convert s m).items = items₂ := congrArg Module.items hhook
  rw [hitems] at h₃
  rw [Fieldset.items_normalize]
  show List.Forall₂ _ m.items (items₄.map Fieldset.normalized)
  rw [List.forall₂_map_right_iff]
  -- what the passes make of the items is chained item by item, and each link is run on one item alone
  have h₂₃ := forall₂_comp_of_mem (T := Relation.Comp _ _) h₂ h₃ fun _ _ t₂ _ h h' => ⟨t₂, h, h'⟩
  refine forall₂_comp_of_mem h₂₃ h₄ ?_
  rintro t _ t₃ t₄ ⟨t₂, ⟨hhook, halike₂⟩, ⟨σ₂, σ₂', hwrap⟩, halike₃⟩ ⟨⟨σ₃, σ₃', hmark⟩, halike₄⟩
  refine ⟨⟨t₂, t₃, t₄, σ₂, σ₂', σ₃, σ₃', hhook, ?_, ?_, ?_⟩,
    ((halike₂.trans halike₃).trans halike₄).trans (Fieldset.alike_normalized t₄)⟩
  · rw [FormWrapper.convert, forEachScope_only, StateT.run_map, show StateT.run _ σ₂ = _ from hwrap]
    rfl
  · rw [FieldMarkup.convert, forEachScope_only, StateT.run_map, show StateT.run _ σ₃ = _ from hmark]
    rfl
  · rw [Fieldset.items_normalize]
    rfl

end Module

end FormCodemod
