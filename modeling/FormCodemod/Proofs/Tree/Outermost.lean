import Mathlib.Data.List.Nodup
import FormCodemod.Proofs.Tree.Places

/-!
# The outermost nodes of a kind

`Tree.outermost` lists what a rule finds on its way down. It finds something at a place if the traversal comes to the
place, the rule has an answer there, and it had none on the way (`Tree.FindsFirst`).

The list does not tell the places. `Tree.outermostAt` lists them along with the answers: it holds every such place once
(`mem_outermostAt_iff`, `nodup_outermostAt`), and its answers are those of `Tree.outermost`. So there is at most one
answer exactly when there is at most one place (`length_outermost_le_one_iff`).
-/

namespace FormCodemod.Tree

variable {α : Type} {stop : Tree → Bool} {f : Tree → Option α} {t : Tree} {p : Place} {a : α}

/-- The rule finds `a` at the place, and nothing on the way to it. -/
structure FindsFirst (stop : Tree → Bool) (f : Tree → Option α) (t : Tree) (p : Place) (a : α) : Prop where
  reached : t.reaches stop p = true
  found : ∃ u, t.at? p = some u ∧ f u = some a
  first : ∀ q, q <+: p → q ≠ p → ∀ u, t.at? q = some u → f u = none

mutual

/-- What the rule finds at the outermost nodes for which it has an answer, with their places. -/
def outermostAt (stop : Tree → Bool) (f : Tree → Option α) : Tree → List (Place × α)
  | t@(node _ _ ts) =>
      if stop t then [] else
        match f t with
        | some a => [([], a)]
        | none => outermostAtAll stop f 0 ts
  | list ts => outermostAtAll stop f 0 ts
  | absent => []

/-- `outermostAt` over a run of trees, the first of which has the number `n`. -/
def outermostAtAll (stop : Tree → Bool) (f : Tree → Option α) (n : Nat) : List Tree → List (Place × α)
  | [] => []
  | t :: ts => (outermostAt stop f t).map (fun e => (n :: e.1, e.2)) ++ outermostAtAll stop f (n + 1) ts

end

/-- Without its places, `outermostAt` lists what `outermost` does. -/
theorem map_snd_outermostAt (t : Tree) : (t.outermostAt stop f).map (·.2) = t.outermost stop f := by
  induction t using runInd (r := fun ts => ∀ n, (outermostAtAll stop f n ts).map (·.2) = outermostAll stop f ts) with
  | node o k ts ih =>
      rw [outermostAt, outermost]
      split
      · rfl
      · cases f (node o k ts) with
        | some a => rfl
        | none => exact ih 0
  | list ts ih => exact ih 0
  | absent => rfl
  | nil => rfl
  | cons t ts iht ihts n =>
      rw [outermostAtAll, outermostAll, List.map_append, List.map_map, ihts, ← iht]
      rfl

/-! ## The places are those where the rule finds something first -/

/-- What a run of trees lists is what one of them lists, with that tree's number in front of
the place. -/
theorem mem_outermostAtAll_iff {ts : List Tree} {n : Nat} :
    (p, a) ∈ outermostAtAll stop f n ts ↔
      ∃ i q u, p = (n + i) :: q ∧ ts[i]? = some u ∧ (q, a) ∈ u.outermostAt stop f := by
  induction ts generalizing n with
  | nil => simp [outermostAtAll]
  | cons t ts ih =>
      rw [outermostAtAll, List.mem_append, ih, List.mem_map]
      constructor
      · rintro (⟨⟨q, b⟩, hq, heq⟩ | ⟨i, q, u, rfl, hu, hq⟩)
        · cases heq
          exact ⟨0, q, t, rfl, rfl, hq⟩
        · exact ⟨i + 1, q, u, by rw [Nat.add_right_comm]; rfl, hu, hq⟩
      · rintro ⟨i, q, u, rfl, hu, hq⟩
        cases i with
        | zero =>
            cases hu
            exact .inl ⟨(q, a), hq, rfl⟩
        | succ i => exact .inr ⟨i, q, u, by rw [Nat.add_right_comm]; rfl, hu, hq⟩

/-- Where nothing is found at the root, something is found first in one of the children. -/
theorem findsFirst_iff_child (hs : stop t = false) (hf : f t = none) :
    t.FindsFirst stop f p a ↔ ∃ i q u, p = i :: q ∧ t.children[i]? = some u ∧ u.FindsFirst stop f q a := by
  constructor
  · rintro ⟨hr, ⟨u, hu, ha⟩, hfirst⟩
    cases p with
    | nil =>
        cases hu
        rw [hf] at ha
        cases ha
    | cons i q =>
        obtain ⟨-, c, hc, hr⟩ := reaches_cons.mp hr
        rw [at?_cons_of_some hc] at hu
        refine ⟨i, q, c, rfl, hc, hr, ⟨u, hu, ha⟩, ?_⟩
        intro q' hq' hne v hv
        apply hfirst (i :: q') (List.cons_prefix_cons.mpr ⟨rfl, hq'⟩) (fun h => hne (List.cons.inj h).2) v
        rw [at?_cons_of_some hc]
        exact hv
  · rintro ⟨i, q, c, rfl, hc, hr, ⟨u, hu, ha⟩, hfirst⟩
    refine ⟨reaches_cons.mpr ⟨hs, c, hc, hr⟩, ⟨u, at?_cons_of_some hc q ▸ hu, ha⟩, ?_⟩
    intro q' hq' hne v hv
    cases q' with
    | nil =>
        cases hv
        exact hf
    | cons j q' =>
        obtain ⟨rfl, hbelow⟩ := List.cons_prefix_cons.mp hq'
        rw [at?_cons_of_some hc] at hv
        exact hfirst q' hbelow (fun h => hne (congrArg _ h)) v hv

/-- Where something is found at the root, that is all. -/
theorem findsFirst_iff_root {b : α} (hs : stop t = false) (hf : f t = some b) :
    t.FindsFirst stop f p a ↔ p = [] ∧ a = b := by
  constructor
  · rintro ⟨-, ⟨u, hu, ha⟩, hfirst⟩
    cases p with
    | nil =>
        cases hu
        rw [hf] at ha
        exact ⟨rfl, (Option.some.inj ha).symm⟩
    | cons i q =>
        have hnone := hfirst [] List.nil_prefix (List.cons_ne_nil i q).symm t rfl
        rw [hf] at hnone
        cases hnone
  · rintro ⟨rfl, rfl⟩
    refine ⟨reaches_nil.mpr hs, ⟨t, rfl, hf⟩, ?_⟩
    intro q hq hne
    exact absurd (List.prefix_nil.mp hq) hne

/-- Where nothing is found at the root, the search goes on in the children. -/
theorem outermostAt_of_none (hs : stop t = false) (hf : f t = none) :
    t.outermostAt stop f = outermostAtAll stop f 0 t.children := by
  cases t with
  | node o k ts => rw [outermostAt, hs, hf, if_neg Bool.false_ne_true, children_node]
  | list ts => rfl
  | absent => rfl

/-- A place is listed exactly if the rule finds something there, and nowhere on the way. -/
theorem mem_outermostAt_iff (hnode : ∀ u, u.isNode = false → stop u = false ∧ f u = none) (t : Tree) :
    ∀ {p : Place} {a : α}, (p, a) ∈ t.outermostAt stop f ↔ t.FindsFirst stop f p a := by
  induction t using childInd with
  | h t ih =>
      intro p a
      by_cases hbelow : stop t = false ∧ f t = none
      · obtain ⟨hs, hf⟩ := hbelow
        rw [outermostAt_of_none hs hf, mem_outermostAtAll_iff, findsFirst_iff_child hs hf]
        refine exists_congr fun i => exists_congr fun q => exists_congr fun u => ?_
        rw [Nat.zero_add]
        exact and_congr_right fun _ => and_congr_right fun hu => ih u (List.mem_of_getElem? hu)
      · cases t with
        | list ts => exact absurd (hnode _ rfl) hbelow
        | absent => exact absurd (hnode _ rfl) hbelow
        | node o k ts =>
            rw [outermostAt]
            split
            next hs =>
              -- a traversal that is stopped at once comes to no place at all
              refine ⟨fun h => absurd h List.not_mem_nil, fun h => ?_⟩
              have hroot := reaches_above List.nil_prefix h.reached
              rw [reaches_nil, hs] at hroot
              cases hroot
            next hs =>
              rw [Bool.not_eq_true] at hs
              cases hf : f (node o k ts) with
              | none => exact absurd ⟨hs, hf⟩ hbelow
              | some b =>
                  rw [findsFirst_iff_root hs hf]
                  simp

/-! ## Each place is listed once -/

/-- No place is listed twice. -/
theorem nodup_outermostAt (t : Tree) : ((t.outermostAt stop f).map (·.1)).Nodup := by
  induction t using runInd (r := fun ts => ∀ n, ((outermostAtAll stop f n ts).map (·.1)).Nodup) with
  | node o k ts ih =>
      rw [outermostAt]
      split
      · exact .nil
      · cases f (node o k ts) with
        | some a => exact List.nodup_singleton _
        | none => exact ih 0
  | list ts ih => exact ih 0
  | absent => exact .nil
  | nil => exact .nil
  | cons t ts iht ihts n =>
      rw [outermostAtAll, List.map_append, List.map_map]
      refine List.Nodup.append ?_ (ihts (n + 1)) ?_
      · have hcons : ((t.outermostAt stop f).map (·.1)).map (n :: ·) =
            (t.outermostAt stop f).map ((·.1) ∘ fun e => (n :: e.1, e.2)) := by
          rw [List.map_map]
          rfl
        rw [← hcons]
        exact iht.map List.cons_injective
      · -- the places in one child begin with its number, those in later ones with a larger one
        intro p hp hp'
        obtain ⟨e, -, rfl⟩ := List.mem_map.mp hp
        obtain ⟨⟨q, a⟩, hq, heq⟩ := List.mem_map.mp hp'
        obtain ⟨i, q', u, rfl, -, -⟩ := mem_outermostAtAll_iff.mp hq
        have hhead : n + 1 + i = n := (List.cons.inj heq).1
        omega

/-! ## What `outermost` lists -/

section Outermost

variable (hnode : ∀ u, u.isNode = false → stop u = false ∧ f u = none)
include hnode

/-- What `outermost` lists is what the rule finds first at some place. -/
theorem mem_outermost_iff : a ∈ t.outermost stop f ↔ ∃ p, t.FindsFirst stop f p a := by
  rw [← map_snd_outermostAt, List.mem_map]
  constructor
  · rintro ⟨⟨p, b⟩, hmem, rfl⟩
    exact ⟨p, (mem_outermostAt_iff hnode t).mp hmem⟩
  · rintro ⟨p, h⟩
    exact ⟨(p, a), (mem_outermostAt_iff hnode t).mpr h, rfl⟩

/-- At most one thing is listed exactly if the rule finds something first at one place only. -/
theorem length_outermost_le_one_iff :
    (t.outermost stop f).length ≤ 1 ↔
      ∀ p a q b, t.FindsFirst stop f p a → t.FindsFirst stop f q b → p = q := by
  have hplaces : ∀ p, p ∈ (t.outermostAt stop f).map (·.1) ↔ ∃ a, t.FindsFirst stop f p a := by
    intro p
    simp [← mem_outermostAt_iff hnode t]
  have hlength : (t.outermost stop f).length = ((t.outermostAt stop f).map (·.1)).length := by
    rw [← map_snd_outermostAt, List.length_map, List.length_map]
  have hnodup : ((t.outermostAt stop f).map (·.1)).Nodup := nodup_outermostAt t
  rw [hlength]
  generalize (t.outermostAt stop f).map (·.1) = ps at hplaces hnodup
  constructor
  · intro h p a q b hp hq
    have hp' := (hplaces p).mpr ⟨a, hp⟩
    have hq' := (hplaces q).mpr ⟨b, hq⟩
    match ps, h with
    | [r], _ => rw [List.mem_singleton.mp hp', List.mem_singleton.mp hq']
  · intro h
    match ps with
    | [] => exact Nat.zero_le 1
    | [r] => exact Nat.le_refl 1
    | r :: r' :: ps =>
        obtain ⟨a, ha⟩ := (hplaces r).mp (by simp)
        obtain ⟨b, hb⟩ := (hplaces r').mp (by simp)
        obtain rfl := h r a r' b ha hb
        simp at hnodup

end Outermost

end FormCodemod.Tree
