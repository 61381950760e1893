import FormCodemod.Conversion
import FormCodemod.Proofs.Convert.Items
import FormCodemod.Proofs.Scope.Boundary

/-!
# Passes over two modules in one

Every pass treats a module that is put together from two, `a ++ b`, as it treats the two of them:
the items are those of both results, the symbols are those that either of them collects, and
the first error counts (`Module.passes_append`).

Two facts carry this. A walk begins every item with nothing announced
(`Module.forEachScope_append`). And what a pass does with a scope does not depend on the symbols that were
collected before (`Collects`), which passes from the scopes to the walk.
-/

namespace FormCodemod

/-! ## What the computations of a walk have in common -/

section Sequential

variable {m : Type → Type} [Monad m] {P : (α : Type) → m α → Prop}

/-- Properties that a sequence of computations has if each of them has it. -/
structure Sequential (P : (α : Type) → m α → Prop) : Prop where
  pure {α : Type} (a : α) : P α (pure a)
  bind {α β : Type} {x : m α} {k : α → m β} : P α x → (∀ a, P β (k a)) → P β (x >>= k)

/-- The property, whatever is announced. -/
def Announcing (P : (α : Type) → m α → Prop) (α : Type) (x : ScopeM m α) : Prop := ∀ up, P (α × Bool) (x.run up)

namespace Sequential

/-- With the announcement as a state around them, computations still have the property in
sequence. -/
theorem announcing (hP : Sequential P) : Sequential (Announcing P) where
  pure a up := hP.pure (a, up)
  bind hx hk up := hP.bind (hx up) fun r => hk r.1 r.2

theorem set (hP : Sequential P) (b : Bool) : Announcing P PUnit (set b) := fun _ => hP.pure (PUnit.unit, b)

theorem get (hP : Sequential P) : Announcing P Bool get := fun up => hP.pure (up, up)

/-- What a callback does has the property inside a walk as well. -/
theorem lift (hP : Sequential P) {α : Type} {x : m α} (hx : P α x) : Announcing P α (liftM x) :=
  fun up => hP.bind hx fun a => hP.pure (a, up)

/-- A sequence over a run of trees has the property if each step has it. -/
theorem mapM [LawfulMonad m] (hP : Sequential P) {g : Tree → m Tree} {ts : List Tree} (h : ∀ t ∈ ts, P Tree (g t)) :
    P (List Tree) (ts.mapM g) := by
  induction ts with
  | nil =>
      rw [List.mapM_nil]
      exact hP.pure []
  | cons t ts ih =>
      rw [List.mapM_cons]
      refine hP.bind (h t (List.mem_cons_self ..)) fun t' => ?_
      exact hP.bind (ih fun u hu => h u (List.mem_cons_of_mem _ hu)) fun ts' => hP.pure _

variable {f : ScopeKind → Tree → m Tree}

/-- Treating a function has the property if treating its body has it. -/
theorem onBody (hP : Sequential P) (hf : ∀ k body, P Tree (f k body)) (t : Tree) : P Tree (Tree.onBody f t) := by
  unfold Tree.onBody
  split
  · split
    · exact hP.pure _
    · exact hP.bind (hf _ _) fun body' => hP.pure _
  · exact hP.bind (hf _ _) fun body' => hP.pure _
  · exact hP.pure _

variable [LawfulMonad m]

/-- A walk down to the functions has the property if what is done with functions has it. -/
theorem walkTo (hP : Sequential P) {enter : Bool → Tree → ScopeM m Tree}
    (henter : ∀ inside t, Announcing P Tree (enter inside t)) (inside : Bool) (t : Tree) :
    Announcing P Tree (Tree.walkTo enter inside t) := by
  have hQ := hP.announcing
  have hsetIf : ∀ {c b : Bool} {α : Type} {k : PUnit → ScopeM m α}, Announcing P α (k ⟨⟩) →
      Announcing P α (if c = true then (MonadState.set b : ScopeM m PUnit) >>= k else k ⟨⟩) := by
    intro c b α k hk
    split
    · exact hQ.bind (hP.set b) fun _ => hk
    · exact hk
  induction t using Tree.ind generalizing inside with
  | node o k ts ih =>
      rw [Tree.walkTo]
      split
      · exact henter inside _
      · refine hsetIf (hQ.bind ?_ fun ts' => hsetIf (hQ.pure _))
        rw [Tree.walkAllTo_eq_mapM]
        exact hQ.mapM fun t ht => ih t ht _
  | list ts ih =>
      rw [Tree.walkTo, Tree.walkAllTo_eq_mapM]
      exact hQ.bind (hQ.mapM fun t ht => ih t ht inside) fun ts' => hQ.pure _
  | absent =>
      rw [Tree.walkTo]
      exact hQ.pure _

/-- A walk has the property whatever the number of levels it may go down. -/
theorem walk (hP : Sequential P) (hf : ∀ k body, P Tree (f k body)) (n : Nat) (inside : Bool) (t : Tree) :
    Announcing P Tree (Tree.walk f n inside t) := by
  have hQ := hP.announcing
  induction n generalizing inside t with
  | zero => exact hQ.pure t
  | succ n ih =>
      rw [Tree.walk]
      refine hP.walkTo (fun inside t => ?_) inside t
      have hchildren : ∀ t : Tree, Announcing P Tree (do
          return t.withChildren (← t.children.mapM (Tree.walk f n true))) :=
        fun t => hQ.bind (hQ.mapM fun t _ => ih true t) fun ts' => hQ.pure _
      rw [Tree.enter]
      refine hQ.bind hP.get fun announced => hQ.bind (hP.set false) fun _ => ?_
      split
      · exact hQ.bind (hP.lift (hP.onBody hf t)) hchildren
      · exact hQ.bind (hQ.pure t) hchildren

/-- A walk has a property if what is done with the scopes has it. -/
theorem forEachScope (hP : Sequential P) (hf : ∀ k body, P Tree (f k body)) (mod : Module) :
    P Module (mod.forEachScope f) := by
  rw [Module.forEachScope]
  exact hP.bind (hP.announcing.mapM (fun t _ => hP.walk hf _ _ t) false) fun r => hP.pure _

end Sequential

end Sequential

/-! ## Collected symbols -/

section Collects

variable {n : Type → Type} [Monad n] [LawfulMonad n]

/-- The computation adds to the symbols that were collected before, and does not depend on them. -/
def Collects (α : Type) (x : StateT Symbols n α) : Prop :=
  ∀ σ, x.run σ = (fun r => (r.1, σ ++ r.2)) <$> x.run {}

/-- Computations in a row add their symbols in a row. -/
theorem collects_sequential : Sequential (Collects (n := n)) where
  pure a σ := by simp
  bind {α β x k} hx hk σ := by
    rw [StateT.run_bind, StateT.run_bind, hx σ]
    simp only [bind_map_left, map_bind]
    refine bind_congr fun r => ?_
    rw [hk r.1 (σ ++ r.2), hk r.1 r.2]
    simp only [Functor.map_map, Symbols.append_assoc]

/-- Symbols are added behind the ones that are there. -/
theorem collects_add {α : Type} (symbols : Symbols) (a : α) :
    Collects α (do modify (· ++ symbols); return a : StateT Symbols n α) := by
  intro σ
  simp

/-- A walk over two modules in one collects what it collects in either of them. -/
theorem run_forEachScope_append {f : ScopeKind → Tree → StateT Symbols n Tree}
    (hf : ∀ k body, Collects Tree (f k body)) (a b : Module) (σ : Symbols) :
    ((a ++ b).forEachScope f).run σ = (do
      let (a', x) ← (a.forEachScope f).run {}
      let (b', y) ← (b.forEachScope f).run {}
      return (a' ++ b', σ ++ (x ++ y))) := by
  have ha := collects_sequential.forEachScope hf a
  have hb := collects_sequential.forEachScope hf b
  rw [Module.forEachScope_append, StateT.run_bind, ha σ, bind_map_left]
  refine bind_congr fun r => ?_
  rw [StateT.run_bind, hb (σ ++ r.2), bind_map_left]
  refine bind_congr fun r' => ?_
  rw [StateT.run_pure, Symbols.append_assoc]

end Collects

/-! ## The passes -/

/-- The wrappers of two modules together are converted as those of each by itself. -/
theorem FormWrapper.run_convert_append (s : Setting) (a b : Module) (σ : Symbols) :
    (FormWrapper.convert s (a ++ b)).run σ = (do
      let (a', x) ← (FormWrapper.convert s a).run {}
      let (b', y) ← (FormWrapper.convert s b).run {}
      return (a' ++ b', σ ++ (x ++ y))) := by
  refine run_forEachScope_append (fun _ body => ?_) a b σ
  cases FormWrapper.convertScope s body with
  | error e => exact fun σ => rfl
  | ok r => exact collects_add r.2 r.1

/-- The markup of two modules together is converted as that of each by itself. -/
theorem FieldMarkup.run_convert_append (s : Setting) (a b : Module) (σ : Symbols) :
    (FieldMarkup.convert s (a ++ b)).run σ = (do
      let (a', x) ← (FieldMarkup.convert s a).run {}
      let (b', y) ← (FieldMarkup.convert s b).run {}
      return (a' ++ b', σ ++ (x ++ y))) :=
  run_forEachScope_append (fun _ body => collects_add (convertScope s.names body).2 _) a b σ

namespace Fieldset

/-- Two modules together are normalized as each by itself. -/
theorem normalize_append (a b : Module) : normalize (a ++ b) = normalize a ++ normalize b := by
  have hitems : (a ++ b).items.map normalized = a.items.map normalized ++ b.items.map normalized := List.map_append
  rw [items_normalize, items_normalize, items_normalize, hitems]
  rfl

end Fieldset

namespace Module

/-- What a pass makes of two modules in one is what it makes of the first one, followed by what it makes of
the second one. It collects the symbols of both; and it fails where it fails on one of them, with the error
of the first one if that fails. -/
theorem passes_append (s : Setting) (a b : Module) :
    Context.convert s (a ++ b) = Context.convert s a ++ Context.convert s b ∧
    FieldHook.convert s (a ++ b) = FieldHook.convert s a ++ FieldHook.convert s b ∧
    (∀ σ, (FormWrapper.convert s (a ++ b)).run σ =
      match (FormWrapper.convert s a).run {}, (FormWrapper.convert s b).run {} with
      | .error e, _ => .error e
      | .ok _, .error e => .error e
      | .ok (a', x), .ok (b', y) => .ok (a' ++ b', σ ++ (x ++ y))) ∧
    (∀ σ, (FieldMarkup.convert s (a ++ b)).run σ =
      match (FieldMarkup.convert s a).run {}, (FieldMarkup.convert s b).run {} with
      | (a', x), (b', y) => (a' ++ b', σ ++ (x ++ y))) ∧
    Fieldset.normalize (a ++ b) = Fieldset.normalize a ++ Fieldset.normalize b := by
  refine ⟨forEachScope_append (m := Id) _ a b, forEachScope_append (m := Id) _ a b, fun σ => ?_, fun σ => ?_,
    Fieldset.normalize_append a b⟩
  · rw [FormWrapper.run_convert_append]
    cases (FormWrapper.convert s a).run {} with
    | error e => rfl
    | ok r =>
        cases (FormWrapper.convert s b).run {} with
        | error e => rfl
        | ok r' => rfl
  · exact FieldMarkup.run_convert_append s a b σ

end Module

end FormCodemod
