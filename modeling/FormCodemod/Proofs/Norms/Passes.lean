import FormCodemod.Conversion
import FormCodemod.Proofs.Convert.Items
import FormCodemod.Proofs.Norms.Scopes

/-!
# Norms and passes

Every pass keeps a module to the norms that it keeps to. For a pass that walks the scopes this is known
of each body, and a function does not look at its body, so the walk carries it to the module
(`Module.meets_forEachScope`).

In particular the elements of a module stay well formed (`Module.passes_isWellFormed`).
-/

namespace FormCodemod

open Observed (Gives)

variable {n : Norm} {s : Setting}

/-! ## Walks -/

namespace Tree

/-- A function keeps to a norm if its parts do, whatever they look like. -/
theorem upholds_function {t : Tree} {ts' : List Tree} (hf : t.isFunction = true)
    (h : (∀ c ∈ t.children, c.Meets n) → ∀ c ∈ ts', c.Meets n) : Upholds n t (t.withChildren ts') := by
  unfold isFunction at hf
  split at hf
  · refine .of_meets (look_node ..) (look_node ..) fun ht => ?_
    simp at ht
    exact (meets_node rfl).mpr ⟨nofun, h ht⟩
  · refine .of_meets (look_node ..) (look_node ..) fun ht => ?_
    simp at ht
    exact (meets_node rfl).mpr ⟨nofun, h ht⟩
  · cases hf

/-- A walk upholds a norm if what is done with each body keeps to it. -/
theorem walkable_upholds {m : Type → Type} [Monad m] [Observed m] {f : ScopeKind → Tree → m Tree}
    (hf : ∀ {k body s body' s'}, body.Meets n → Gives (f k body) s body' s' → body'.Meets n) :
    Walkable f fun t _ t' _ => Upholds n t t' := by
  refine (upholds_congruence n).walkable fun {t k body s body' s'} hscope hgives => ?_
  refine upholds_function (isFunction_of_scopeBody? hscope) fun hchildren c hc => ?_
  have hbody : body.Meets n := hchildren body (List.mem_of_getElem? (children_of_scopeBody? hscope))
  rcases List.mem_or_eq_of_mem_set hc with hc | rfl
  · exact hchildren c hc
  · exact hf hbody hgives

end Tree

namespace Module

def Meets (n : Norm) (m : Module) : Prop := ∀ t ∈ m.items, t.Meets n

/-- A module still meets a norm if what is done with each body keeps to it. -/
theorem meets_forEachScope {m : Type → Type} [Monad m] [LawfulMonad m] [Observed m] {f : ScopeKind → Tree → m Tree}
    (hf : ∀ {k body s body' s'}, body.Meets n → Gives (f k body) s body' s' → body'.Meets n) {mod mod' : Module}
    {σ σ' : Symbols} (hm : mod.Meets n) (h : Gives (mod.forEachScope f) σ mod' σ') : mod'.Meets n := by
  obtain ⟨items', rfl, hitems⟩ := forEachScope_inv h
  have hupholds := hitems.forall₂ fun t _ _ _ _ h => itemScopes_gives (Tree.walkable_upholds hf) h
  intro t' ht'
  obtain ⟨t, ht, hR⟩ := forall₂_exists_left hupholds ht'
  exact (hR (hm t ht)).1

/-- The same for a walk that neither fails nor collects anything. -/
theorem meets_run_forEachScope {f : Tree → Tree} (hf : ∀ {body}, body.Meets n → (f body).Meets n) {mod : Module}
    (hm : mod.Meets n) : (Id.run (mod.forEachScope fun _ body => pure (f body))).Meets n := by
  have hrun : Gives (mod.forEachScope fun _ body => (pure (f body) : Id Tree)) {}
      (Id.run (mod.forEachScope fun _ body => pure (f body))) {} := ⟨rfl, rfl⟩
  refine meets_forEachScope ?_ hm hrun
  rintro k body σ body' σ' hbody ⟨rfl, rfl⟩
  exact hf hbody

end Module

/-! ## The passes -/

variable {m m' : Module} {σ σ' : Symbols}

theorem Context.meets_convert (hs : n.Allows s) (hm : m.Meets n) : (Context.convert s m).Meets n :=
  Module.meets_run_forEachScope (Context.meets_convertScope hs) hm

theorem FieldHook.meets_convert (hs : n.Allows s) (hm : m.Meets n) : (FieldHook.convert s m).Meets n :=
  Module.meets_run_forEachScope (FieldHook.meets_convertScope hs) hm

theorem FormWrapper.meets_convert (hs : n.Allows s) (hm : m.Meets n)
    (h : (FormWrapper.convert s m).run σ = .ok (m', σ')) : m'.Meets n := by
  refine Module.meets_forEachScope ?_ hm (show Gives (FormWrapper.convert s m) σ m' σ' from h)
  intro k body σ body' σ' hbody hgives
  cases hscope : convertScope s body with
  | error e =>
      rw [hscope] at hgives
      cases hgives
  | ok r =>
      rw [hscope] at hgives
      cases hgives
      exact FormWrapper.meets_convertScope hs hbody hscope

theorem FieldMarkup.meets_convert (hm : m.Meets n) (h : (FieldMarkup.convert s m).run σ = (m', σ')) : m'.Meets n := by
  refine Module.meets_forEachScope ?_ hm (show Gives (FieldMarkup.convert s m) σ m' σ' from h)
  intro k body σ body' σ' hbody hgives
  cases hgives
  exact FieldMarkup.meets_convertScope hbody

namespace Fieldset

theorem upholds_spellOut (t : Tree) : Tree.Upholds n t (spellOut t) := by
  unfold spellOut
  split
  · split
    · exact .of_meets Tree.look_expr Tree.look_expr fun h => by simp_all
    · exact (Tree.upholds_congruence n).refl _
  · exact (Tree.upholds_congruence n).refl _

theorem upholds_convertGetter (t : Tree) : Tree.Upholds n t (convertGetter t) := by
  unfold convertGetter
  split
  · split
    · exact .of_meets Tree.look_expr Tree.look_expr fun h => by simp_all
    · exact (Tree.upholds_congruence n).refl _
  · exact (Tree.upholds_congruence n).refl _

/-- Normalization keeps to every norm. -/
theorem meets_normalize (hm : m.Meets n) : (normalize m).Meets n := by
  have hcongr := Tree.upholds_congruence n
  have hitem : ∀ t : Tree, Tree.Upholds n t (normalized t) := by
    intro t
    have hgetters := hcongr.mapUp upholds_convertGetter Tree.nowhere t
    exact hcongr.trans hgetters (hcongr.mapUp upholds_spellOut Tree.nowhere _)
  rw [items_normalize]
  exact List.forall_mem_map.mpr fun t ht => (hitem t (hm t ht)).1

end Fieldset

/-! ## Well-formed elements -/

namespace Module

/-- A module keeps to a norm if no node is found that does not. -/
theorem meets_iff_any : m.Meets n ↔ m.any (fun t => !n.admits t) = false := by
  rw [any_eq_false_iff]
  refine forall₂_congr fun t _ => forall₂_congr fun p u => imp_congr_right fun _ => ?_
  cases u with
  | node o k ts => simp [Tree.isNode]
  | list ts => simp [Tree.isNode, Norm.admits, Tree.isTypeSyntax, Tree.element?]
  | absent => simp [Tree.isNode, Norm.admits, Tree.isTypeSyntax, Tree.element?]

/-- Well-formed elements are a norm. -/
theorem isWellFormed_iff_meets : m.isWellFormed = true ↔ m.Meets { types := true, ends := true } := by
  have hadmits : (fun t : Tree => !({ types := true, ends := true } : Norm).admits t) =
      fun t => t.element?.any fun e => !e.isWellFormed := by
    funext t
    cases he : t.element? <;> simp [Norm.admits, he]
  rw [meets_iff_any, hadmits, isWellFormed, Bool.not_eq_true']
  rfl

/-- The elements of a module stay well formed through every pass. -/
theorem passes_isWellFormed (s : Setting) (m : Module) (hm : m.isWellFormed = true) :
    (Context.convert s m).isWellFormed = true ∧
    (FieldHook.convert s m).isWellFormed = true ∧
    (∀ σ m' σ', (FormWrapper.convert s m).run σ = .ok (m', σ') → m'.isWellFormed = true) ∧
    (∀ σ, ((FieldMarkup.convert s m).run σ).1.isWellFormed = true) ∧
    (Fieldset.normalize m).isWellFormed = true := by
  simp only [isWellFormed_iff_meets] at hm ⊢
  have hs : Norm.Allows { types := true, ends := true } s := fun _ => rfl
  exact ⟨Context.meets_convert hs hm, FieldHook.meets_convert hs hm, fun _ _ _ => FormWrapper.meets_convert hs hm,
    fun _ => FieldMarkup.meets_convert hm rfl, Fieldset.meets_normalize hm⟩

/-- `const F = () => <Formik><Form><Field name="a">b</Field></Form></Formik>` -/
def nested : Module where
  origin := .made
  items := [Make.constNamed "F" (Make.arrow [] (Make.element "Formik" [] [Make.element "Form" []
    [Make.element "Field" [Make.stringAttr "name" "a"] [.markup .made (.text "b" "b") []]]]))]

/-- The elements that are there end rightly, and so do those that the passes make of them. -/
theorem nested_isWellFormed :
    nested.isWellFormed = true ∧
      (∃ m' σ', (FormWrapper.convert ⟨{}, true⟩ nested).run {} = .ok (m', σ') ∧ m'.isWellFormed = true) ∧
      ((FieldMarkup.convert ⟨{}, true⟩ nested).run {}).1.isWellFormed = true := by
  have hm : nested.isWellFormed = true := by decide
  obtain ⟨-, -, hwrapper, hmarkup, -⟩ := passes_isWellFormed ⟨{}, true⟩ nested hm
  obtain ⟨m', σ', hrun⟩ : ∃ m' σ', (FormWrapper.convert ⟨{}, true⟩ nested).run {} = .ok (m', σ') := ⟨_, _, rfl⟩
  exact ⟨hm, ⟨m', σ', hrun, hwrapper {} m' σ' hrun⟩, hmarkup {}⟩

end Module

end FormCodemod
