import Mathlib.Data.List.Forall2
import FormCodemod.Proofs.Tree.Places

/-!
# Rules that are applied all over a tree

A traversal changes a tree by a rule for single nodes. A relation that holds between a node and what the
rule makes of it holds between a tree and what the traversal makes of it, if it is a congruence: it
is reflexive, transitive and passes from the children of a node to the node.
-/

namespace FormCodemod.Tree

/-- Relations that pass from the children of a node to the node. -/
structure Congruence (R : Tree → Tree → Prop) : Prop where
  refl (t : Tree) : R t t
  trans {t t' t'' : Tree} : R t t' → R t' t'' → R t t''
  parent {t : Tree} {ts' : List Tree} : List.Forall₂ R t.children ts' → R t (t.withChildren ts')

namespace Congruence

variable {R : Tree → Tree → Prop}

/-- The children of a node may be changed one by one. -/
theorem parent_map (hR : Congruence R) {g : Tree → Tree} {t : Tree} (h : ∀ c ∈ t.children, R c (g c)) :
    R t (t.withChildren (t.children.map g)) :=
  hR.parent (List.forall₂_map_right_iff.mpr (List.forall₂_same.mpr h))

/-- A change that keeps every node related to what it was keeps whole trees related,
children first. -/
theorem mapUp (hR : Congruence R) {f : Tree → Tree} (hf : ∀ t, R t (f t)) (stop : Tree → Bool) (t : Tree) :
    R t (t.mapUp stop f) := by
  induction t using ind with
  | node o k ts ih =>
      rw [mapUp_node]
      split
      · exact hR.refl _
      · -- the rule is applied to the node around its new children
        exact hR.trans (hR.parent_map (t := node o k ts) ih) (hf _)
  | list ts ih =>
      rw [mapUp_list]
      exact hR.parent_map (t := list ts) ih
  | absent => exact hR.refl _

/-- Replacements that are related to what they replace leave a tree that is related to the
old one. -/
theorem mapDown (hR : Congruence R) {f : Tree → Option Tree} (hf : ∀ t t', f t = some t' → R t t') (stop : Tree → Bool)
    (t : Tree) : R t (t.mapDown stop f) := by
  induction t using ind with
  | node o k ts ih =>
      rw [mapDown_node]
      split
      · exact hR.refl _
      · cases h : f (node o k ts) with
        | some t' => exact hf _ t' h
        | none => exact hR.parent_map (t := node o k ts) ih
  | list ts ih =>
      rw [mapDown_list]
      exact hR.parent_map (t := list ts) ih
  | absent => exact hR.refl _

/-- The state that a rule runs with does not matter if the relation holds in every state. -/
theorem mapUpM (hR : Congruence R) {S : Type} {f : Tree → StateM S Tree} (hf : ∀ t n, R t ((f t).run n).1)
    (stop : Tree → Bool) (t : Tree) (n : S) : R t ((t.mapUpM stop f).run n).1 := by
  induction t using runInd (r := fun ts => ∀ n, List.Forall₂ R ts ((mapUpAllM stop f ts).run n).1) generalizing n with
  | node o k ts ih =>
      rw [Tree.mapUpM]
      split
      · exact hR.refl _
      · have hparent : R (node o k ts) (node o k ((mapUpAllM stop f ts).run n).1) := hR.parent (t := node o k ts) (ih n)
        exact hR.trans hparent (hf _ _)
  | list ts ih =>
      rw [Tree.mapUpM]
      exact hR.parent (t := list ts) (ih n)
  | absent => exact hR.refl _
  | nil => exact .nil
  | cons t ts iht ihts n =>
      rw [mapUpAllM]
      exact .cons (iht n) (ihts _)

end Congruence

/-- A state that no result depends on may be left out. -/
theorem fst_run_mapUpM {S : Type} {f : Tree → StateM S Tree} {g : Tree → Tree} (hf : ∀ t n, ((f t).run n).1 = g t)
    (stop : Tree → Bool) (t : Tree) (n : S) : ((t.mapUpM stop f).run n).1 = t.mapUp stop g := by
  induction t using runInd (r := fun ts => ∀ n, ((mapUpAllM stop f ts).run n).1 = mapUpAll stop g ts)
    generalizing n with
  | node o k ts ih =>
      rw [mapUpM, mapUp]
      split
      · rfl
      · rw [← ih n]
        exact hf _ _
  | list ts ih =>
      rw [mapUpM, mapUp, ← ih n]
      rfl
  | absent => rfl
  | nil => rfl
  | cons t ts iht ihts n =>
      rw [mapUpAllM, mapUpAll, ← iht n, ← ihts ((t.mapUpM stop f).run n).2]
      rfl

/-- What every step preserves of the state, the whole traversal preserves. A step is done at a node around its new children. -/
theorem snd_run_mapUpM {S : Type} {f : Tree → StateM S Tree} {g : Tree → Tree} (hf : ∀ t n, ((f t).run n).1 = g t)
    {stop : Tree → Bool} {P : Tree → Prop} {I : S → Prop}
    (hnode : ∀ o k ts, stop (node o k ts) = false → P (node o k ts) →
      (∀ t ∈ ts, P t) ∧ ∀ n, I n → I ((f (node o k (ts.map (mapUp stop g)))).run n).2)
    (hlist : ∀ ts, P (list ts) → ∀ t ∈ ts, P t) {t : Tree} (h : P t) {n : S} (hn : I n) :
    I ((t.mapUpM stop f).run n).2 := by
  induction t using runInd (r := fun ts => (∀ t ∈ ts, P t) → ∀ n, I n → I ((mapUpAllM stop f ts).run n).2)
    generalizing n with
  | node o k ts ih =>
      rw [mapUpM]
      split
      · exact hn
      next hs =>
        obtain ⟨hts, hstep⟩ := hnode o k ts ((Bool.not_eq_true _).mp hs) h
        -- the step sees new children, which do not depend on the state
        have hmapped : ((mapUpAllM stop f ts).run n).1 = ts.map (mapUp stop g) := by
          have hrun := fst_run_mapUpM hf stop (list ts) n
          rw [mapUpM, mapUp_list] at hrun
          exact Tree.list.inj hrun
        rw [← hmapped] at hstep
        exact hstep _ (ih hts n hn)
  | list ts ih =>
      rw [mapUpM]
      exact ih (hlist ts h) n hn
  | absent => exact hn
  | nil _ n hn => exact hn
  | cons t ts iht ihts hts n hn =>
      obtain ⟨ht, hts⟩ := List.forall_mem_cons.mp hts
      rw [mapUpAllM]
      exact ihts hts _ (iht ht hn)

end FormCodemod.Tree
