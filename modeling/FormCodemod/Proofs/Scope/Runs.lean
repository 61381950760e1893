import Mathlib.Data.List.Forall2
import FormCodemod.Convert.Symbols
import FormCodemod.Proofs.Scope.Boundary
import FormCodemod.Proofs.Tree.Congruence

/-!
# Runs of a walk

The scopes of a module are walked in three monads: one pass may fail, one collects symbols, two do
neither. `Observed` is what they have in common, a relation between the symbols before a
computation and its result, which can be taken apart along `pure` and `>>=`.

`Tree.walk_gives` is the induction over a walk: a relation between trees holds between a tree and what
the walk makes of it, whatever is done with the scopes, if it passes from children to their
parent and over the treatment of a body.
-/

namespace FormCodemod

/-- A monad whose results can be told from the symbols that were collected before. -/
class Observed (m : Type → Type) [Monad m] where
  /-- From the symbols `s` on, the computation may give `a` and leave the symbols `s'`. -/
  Gives {α : Type} : m α → Symbols → α → Symbols → Prop
  pure_inv {α : Type} {a b : α} {s s' : Symbols} : Gives (pure a) s b s' → b = a ∧ s' = s
  bind_inv {α β : Type} {x : m α} {f : α → m β} {b : β} {s s' : Symbols} :
    Gives (x >>= f) s b s' → ∃ a s₁, Gives x s a s₁ ∧ Gives (f a) s₁ b s'

open Observed (Gives)

instance : Observed Id where
  Gives x s a s' := x.run = a ∧ s' = s
  pure_inv h := ⟨h.1.symm, h.2⟩
  bind_inv h := ⟨_, _, ⟨rfl, rfl⟩, h⟩

instance : Observed (StateM Symbols) where
  Gives x s a s' := x.run s = (a, s')
  pure_inv h := by
    cases h
    exact ⟨rfl, rfl⟩
  bind_inv h := ⟨_, _, rfl, h⟩

instance {ε : Type} : Observed (StateT Symbols (Except ε)) where
  Gives x s a s' := x.run s = .ok (a, s')
  pure_inv h := by
    cases h
    exact ⟨rfl, rfl⟩
  bind_inv {α β x f b s s'} h := by
    rw [StateT.run_bind] at h
    cases hx : x.run s with
    | error e =>
        rw [hx] at h
        cases h
    | ok r =>
        rw [hx] at h
        exact ⟨r.1, r.2, rfl, h⟩

variable {m : Type → Type} [Monad m] [Observed m]

/-- Announcements are left out of sight. -/
instance : Observed (ScopeM m) where
  Gives x s a s' := ∃ up up', Gives (x.run up) s (a, up') s'
  pure_inv := by
    rintro α a b s s' ⟨up, up', h⟩
    obtain ⟨hb, hs⟩ := Observed.pure_inv h
    exact ⟨(Prod.mk.inj hb).1, hs⟩
  bind_inv := by
    rintro α β x f b s s' ⟨up, up', h⟩
    rw [StateT.run_bind] at h
    obtain ⟨⟨a, up₁⟩, s₁, hx, hf⟩ := Observed.bind_inv h
    exact ⟨a, s₁, ⟨up, up₁, hx⟩, up₁, up', hf⟩

namespace Observed

theorem set_inv {b : Bool} {u : PUnit} {s s' : Symbols} (h : Gives (set b : ScopeM m PUnit) s u s') : s' = s := by
  obtain ⟨up, up', h⟩ := h
  exact (pure_inv h).2

/-- A change of the announcement in front of a computation does not show. -/
theorem setIf_inv {α : Type} {c : Prop} [Decidable c] {b : Bool} {k : PUnit → ScopeM m α} {a : α}
    {s s' : Symbols} (h : Gives (if c then (set b : ScopeM m PUnit) >>= k else k ⟨⟩) s a s') :
    Gives (k ⟨⟩) s a s' := by
  split at h
  · obtain ⟨_, s₁, hset, hk⟩ := bind_inv h
    obtain rfl := set_inv hset
    exact hk
  · exact h

theorem get_inv {b : Bool} {s s' : Symbols} (h : Gives (get : ScopeM m Bool) s b s') : s' = s := by
  obtain ⟨up, up', h⟩ := h
  exact (pure_inv h).2

/-- What a callback does inside a walk is what it does by itself. -/
theorem lift_inv {α : Type} {x : m α} {a : α} {s s' : Symbols} (h : Gives (liftM x : ScopeM m α) s a s') :
    Gives x s a s' := by
  obtain ⟨up, up', h⟩ := h
  obtain ⟨b, s₁, hx, hp⟩ := bind_inv h
  obtain ⟨hb, rfl⟩ := pure_inv hp
  cases hb
  exact hx

end Observed

/-- A relation that holds along a run of trees, each starting with the symbols the one before left. -/
inductive Along (R : Tree → Symbols → Tree → Symbols → Prop) :
    List Tree → Symbols → List Tree → Symbols → Prop
  | nil {s : Symbols} : Along R [] s [] s
  | cons {t t' : Tree} {ts ts' : List Tree} {s s₁ s' : Symbols} :
      R t s t' s₁ → Along R ts s₁ ts' s' → Along R (t :: ts) s (t' :: ts') s'

namespace Along

variable {R R' : Tree → Symbols → Tree → Symbols → Prop} {ts ts' : List Tree} {s s' : Symbols}

/-- The relation may be weakened along the run. -/
theorem imp (h : Along R ts s ts' s') (himp : ∀ t ∈ ts, ∀ s t' s', R t s t' s' → R' t s t' s') :
    Along R' ts s ts' s' := by
  induction h with
  | nil => exact .nil
  | cons hr _ ih =>
      exact .cons (himp _ (List.mem_cons_self ..) _ _ _ hr)
        (ih fun t ht => himp t (List.mem_cons_of_mem _ ht))

/-- What holds of every step, whatever the symbols are, holds of the trees one by one. -/
theorem forall₂ {Q : Tree → Tree → Prop} (h : Along R ts s ts' s')
    (himp : ∀ t ∈ ts, ∀ s t' s', R t s t' s' → Q t t') : List.Forall₂ Q ts ts' := by
  induction h with
  | nil => exact .nil
  | cons hr _ ih =>
      exact .cons (himp _ (List.mem_cons_self ..) _ _ _ hr)
        (ih fun t ht => himp t (List.mem_cons_of_mem _ ht))

end Along

/-- Steps in a row relate the trees one by one, each from the symbols that the step before
left. -/
theorem Observed.mapM_inv [LawfulMonad m] {f : Tree → m Tree} {ts ts' : List Tree} {s s' : Symbols}
    (h : Gives (ts.mapM f) s ts' s') : Along (fun t s t' s' => Gives (f t) s t' s') ts s ts' s' := by
  induction ts generalizing s ts' with
  | nil =>
      rw [List.mapM_nil] at h
      obtain ⟨rfl, rfl⟩ := pure_inv h
      exact .nil
  | cons t ts ih =>
      rw [List.mapM_cons] at h
      obtain ⟨t', s₁, ht, h⟩ := bind_inv h
      obtain ⟨us, s₂, hts, h⟩ := bind_inv h
      obtain ⟨rfl, rfl⟩ := pure_inv h
      exact .cons ht (ih hts)

namespace Tree

open Observed (pure_inv bind_inv)

variable {f : ScopeKind → Tree → m Tree}

/-- A walk through a run of trees relates them one by one. -/
theorem walkAllTo_inv [LawfulMonad m] {enter : Bool → Tree → ScopeM m Tree} {inside : Bool} {ts ts' : List Tree}
    {s s' : Symbols} (h : Gives (walkAllTo enter inside ts) s ts' s') :
    Along (fun t s t' s' => Gives (walkTo enter inside t) s t' s') ts s ts' s' := by
  rw [walkAllTo_eq_mapM] at h
  exact Observed.mapM_inv h

/-- Treating a function leaves it as it is, if it has no body, or puts another body in place of its body. -/
theorem onBody_inv {t t₁ : Tree} {s s₁ : Symbols} (h : Gives (onBody f t) s t₁ s₁) :
    t₁ = t ∧ s₁ = s ∧ t.scopeBody? = none ∨
      ∃ k body body', t.scopeBody? = some (k, body) ∧ Gives (f k body) s body' s₁ ∧
        t₁ = t.withChildren (t.children.set 1 body') := by
  unfold onBody at h
  split at h
  · split at h
    · next hb => exact .inl ⟨(pure_inv h).1, (pure_inv h).2, if_pos hb⟩
    · next hb =>
        obtain ⟨body', s₂, hbody, h⟩ := bind_inv h
        obtain ⟨rfl, rfl⟩ := pure_inv h
        exact .inr ⟨.function, _, body', if_neg hb, hbody, rfl⟩
  · obtain ⟨body', s₂, hbody, h⟩ := bind_inv h
    obtain ⟨rfl, rfl⟩ := pure_inv h
    exact .inr ⟨.arrow, _, body', rfl, hbody, rfl⟩
  · next hfunction harrow =>
      refine .inl ⟨(pure_inv h).1, (pure_inv h).2, ?_⟩
      unfold scopeBody?
      split
      · exact (hfunction _ _ _ _ _ _ _ rfl).elim
      · exact (harrow _ _ _ _ _ _ rfl).elim
      · rfl

/-- A callback that leaves the body as it is leaves the function as it is. -/
theorem onBody_eq_self {t t₁ : Tree} {s s₁ : Symbols} (h : Gives (onBody f t) s t₁ s₁)
    (hf : ∀ k body s body' s', t.children[1]? = some body → Gives (f k body) s body' s' → body' = body) : t₁ = t := by
  rcases onBody_inv h with ⟨rfl, -⟩ | ⟨k, body, body', hscope, hgives, rfl⟩
  · rfl
  · have hbody := children_of_scopeBody? hscope
    obtain ⟨hlt, rfl⟩ := List.getElem?_eq_some_iff.mp hbody
    rw [hf k _ s body' s₁ hbody hgives, List.set_getElem_self, withChildren_children]

/-- The relations that a walk with the callback `f` stays within. -/
structure Walkable (f : ScopeKind → Tree → m Tree) (R : Tree → Symbols → Tree → Symbols → Prop) : Prop where
  refl (t : Tree) (s : Symbols) : R t s t s
  /-- They pass from the children to a parent that is no function. -/
  parent {t : Tree} {ts' : List Tree} {s s' : Symbols} :
    t.isFunction = false → Along R t.children s ts' s' → R t s (t.withChildren ts') s'
  /-- They pass from the children of a function whose body may have been treated before. -/
  function {t t₁ : Tree} {ts' : List Tree} {s s₁ s' : Symbols} :
    t.isFunction = true → (t₁ = t ∧ s₁ = s ∨ Gives (onBody f t) s t₁ s₁) → Along R t₁.children s₁ ts' s' →
      R t s (t₁.withChildren ts') s'

/-- One level of a walk, given what is done at its functions. -/
theorem walkTo_gives [LawfulMonad m] {R : Tree → Symbols → Tree → Symbols → Prop} (hR : Walkable f R)
    {enter : Bool → Tree → ScopeM m Tree}
    (henter : ∀ inside t s t' s', t.isFunction = true → Gives (enter inside t) s t' s' → R t s t' s')
    {inside : Bool} {t t' : Tree} {s s' : Symbols} (h : Gives (walkTo enter inside t) s t' s') :
    R t s t' s' := by
  induction t using ind generalizing inside s t' s' with
  | node o k ts ih =>
      rw [walkTo] at h
      by_cases hf : (node o k ts).isFunction = true
      · rw [if_pos hf] at h
        exact henter _ _ _ _ _ hf h
      · rw [if_neg hf] at h
        -- the announcement is set twice at most, in front of the children and behind them
        obtain ⟨ts', s₁, hts, h⟩ := bind_inv (Observed.setIf_inv h)
        have hret : Gives (pure (node o k ts') : ScopeM m Tree) s₁ t' s' := Observed.setIf_inv h
        obtain ⟨rfl, rfl⟩ := pure_inv hret
        exact hR.parent (by simpa using hf) ((walkAllTo_inv hts).imp fun t ht s t' s' => ih t ht)
  | list ts ih =>
      rw [walkTo] at h
      obtain ⟨ts', s₁, hts, h⟩ := bind_inv h
      obtain ⟨rfl, rfl⟩ := pure_inv h
      exact hR.parent (t := list ts) rfl ((walkAllTo_inv hts).imp fun t ht s t' s' => ih t ht)
  | absent =>
      rw [walkTo] at h
      obtain ⟨rfl, rfl⟩ := pure_inv h
      exact hR.refl ..

/-- What a walk makes of a tree is related to it. -/
theorem walk_gives [LawfulMonad m] {R : Tree → Symbols → Tree → Symbols → Prop} (hR : Walkable f R) {n : Nat}
    {inside : Bool} {t t' : Tree} {s s' : Symbols} (h : Gives (walk f n inside t) s t' s') : R t s t' s' := by
  induction n generalizing inside t t' s s' with
  | zero =>
      obtain ⟨rfl, rfl⟩ := pure_inv h
      exact hR.refl ..
  | succ n ih =>
      rw [walk] at h
      refine walkTo_gives hR ?_ h
      intro inside t s t' s' hf h
      rw [enter] at h
      obtain ⟨announced, s₁, hget, hsetRest⟩ := bind_inv h
      obtain ⟨_, s₂, hset, hrest⟩ := bind_inv hsetRest
      obtain rfl := Observed.get_inv hget
      obtain rfl := Observed.set_inv hset
      -- the children are walked after the body was treated, so they are those of `t₁`
      have hchildren : ∀ (t₁ : Tree) (s₁ : Symbols),
          Gives (do return t₁.withChildren (← t₁.children.mapM (walk f n true)) : ScopeM m Tree) s₁ t' s' →
            ∃ ts', t' = t₁.withChildren ts' ∧ Along R t₁.children s₁ ts' s' := by
        intro t₁ s₁ h
        obtain ⟨ts', s₂, hts, h⟩ := bind_inv h
        obtain ⟨rfl, rfl⟩ := pure_inv h
        exact ⟨ts', rfl, (Observed.mapM_inv hts).imp fun t _ s t' s' => ih⟩
      by_cases hscope : (announced || !inside) = true
      · rw [if_pos hscope] at hrest
        obtain ⟨t₁, s₁, hbody, hrest⟩ := bind_inv hrest
        obtain ⟨ts', rfl, hts⟩ := hchildren t₁ s₁ hrest
        exact hR.function hf (.inr (Observed.lift_inv hbody)) hts
      · rw [if_neg hscope] at hrest
        obtain ⟨t₁, s₁, hbody, hrest⟩ := bind_inv hrest
        obtain ⟨ts', rfl, hts⟩ := hchildren t₁ s₁ hrest
        exact hR.function hf (.inl (pure_inv hbody)) hts

/-- A walk stays within a congruence if it holds between a function and the same function with the body that
is put in place. -/
theorem Congruence.walkable {R : Tree → Tree → Prop} (hR : Congruence R)
    (hbody : ∀ {t k body s body' s'}, t.scopeBody? = some (k, body) → Gives (f k body) s body' s' →
      R t (t.withChildren (t.children.set 1 body'))) : Walkable f fun t _ t' _ => R t t' where
  refl t _ := hR.refl t
  parent _ h := hR.parent (h.forall₂ fun _ _ _ _ _ h => h)
  function {t t₁ ts' s s₁ s'} _ ht h := by
    have hfirst : R t t₁ := by
      rcases ht with ⟨rfl, -⟩ | ht
      · exact hR.refl _
      · rcases onBody_inv ht with ⟨rfl, -⟩ | ⟨k, body, body', hscope, hgives, rfl⟩
        · exact hR.refl _
        · exact hbody hscope hgives
    exact hR.trans hfirst (hR.parent (h.forall₂ fun _ _ _ _ _ h => h))

/-- A walk changes nothing if nothing is done with bodies that have a property everywhere. -/
theorem walkable_eq {Q : Tree → Prop}
    (hf : ∀ k body s body' s', Gives (f k body) s body' s' → body.Everywhere Q → body' = body) :
    Walkable f fun t _ t' _ => t.Everywhere Q → t' = t := by
  have hsame : ∀ {t : Tree} {ts' : List Tree} {s s' : Symbols},
      Along (fun t _ t' _ => t.Everywhere Q → t' = t) t.children s ts' s' → t.Everywhere Q →
        t.withChildren ts' = t := by
    intro t ts' s s' h hQ
    have heq := h.forall₂ (Q := (· = ·)) fun c hc _ _ _ h => (h (hQ.child hc)).symm
    rw [List.forall₂_eq_eq_eq] at heq
    rw [← heq, withChildren_children]
  refine ⟨fun t _ _ => rfl, fun _ h hQ => hsame h hQ, ?_⟩
  intro t t₁ ts' s s₁ s' _ ht h hQ
  have hfirst : t₁ = t := by
    rcases ht with ⟨rfl, -⟩ | ht
    · rfl
    · refine onBody_eq_self ht fun k body s body' s' hbody hgives => ?_
      exact hf k body s body' s' hgives (hQ.child (List.mem_of_getElem? hbody))
  subst hfirst
  exact hsame h hQ

end Tree

namespace Module

open Observed (pure_inv bind_inv)

variable [LawfulMonad m] {f : ScopeKind → Tree → m Tree}

/-- Handing out the scopes of a module treats its items one after the other. -/
theorem forEachScope_inv {mod mod' : Module} {s s' : Symbols} (h : Gives (mod.forEachScope f) s mod' s') :
    ∃ items', mod' = { mod with items := items' } ∧
      Along (fun t s t' s' => Gives (itemScopes f t) s t' s') mod.items s items' s' := by
  rw [forEachScope_eq] at h
  obtain ⟨items', s₁, hitems, h⟩ := bind_inv h
  obtain ⟨rfl, rfl⟩ := pure_inv h
  exact ⟨items', rfl, Observed.mapM_inv hitems⟩

/-- Whatever relation a walk keeps, it keeps from one item of a module to what comes of it. -/
theorem itemScopes_gives {R : Tree → Symbols → Tree → Symbols → Prop} (hR : Tree.Walkable f R)
    {t t' : Tree} {s s' : Symbols} (h : Gives (itemScopes f t) s t' s') : R t s t' s' := by
  obtain ⟨⟨u, up⟩, s₁, hwalk, h⟩ := bind_inv h
  obtain ⟨rfl, rfl⟩ := pure_inv h
  exact Tree.walk_gives hR ⟨false, up, hwalk⟩

end Module

end FormCodemod
