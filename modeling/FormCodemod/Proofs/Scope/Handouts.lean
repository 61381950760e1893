import Mathlib.Tactic.Tauto
import FormCodemod.Scope.Walk
import FormCodemod.Proofs.Tree.Places

/-!
# What a walk hands out

`Module.forEachScope` walks along with an announcement that some nodes put up and the next function
uses up. This module says what it does without that state:

* `Tree.handouts` lists the bodies that are handed out, with the places of their functions. A walk
  whose callback changes nothing does nothing but call it with these, in order (`Tree.walk_eq`,
  `Module.forEachScope_unchanged`).
* `Tree.handsOutRightly` tells which functions these are: one is announced by a node around it
  (`Tree.Announced`), or there is nothing around it that counts (`Tree.atTop`).
* `Tree.handouts_pairwise`: a body comes before those inside it, and none comes twice.
-/

namespace FormCodemod

/-- A body that the walk hands out: where its function stands, how that is written, and the body. -/
structure Handout where
  place : Place
  kind : ScopeKind
  body : Tree

namespace Handout

/-- The same, seen from the parent of whose children the tree is number `i`. -/
def under (i : Nat) (h : Handout) : Handout := { h with place := i :: h.place }

/-- The place of the body: it is the second child of its function. -/
def bodyPlace (h : Handout) : Place := h.place ++ [1]

/-- The second function is neither the first one nor around it. -/
def Before (h h' : Handout) : Prop := ¬ h'.place <+: h.place

end Handout

namespace Tree

def scopeBody? : Tree → Option (ScopeKind × Tree)
  | .part _ (.function _ _) [_, body, _, _] => if body.isAbsent then none else some (.function, body)
  | .expr _ (.arrow _) [_, body, _, _] => some (.arrow, body)
  | _ => none

/-- Whether a walk through the tree uses up an announcement or takes it back. -/
def clears (t : Tree) : Bool := t.any nowhere fun u => u.isFunction || u.retracts

mutual

/-- The bodies that a walk through the tree hands out, in order. `up` tells whether the next
function is announced. -/
def handouts (inside up : Bool) : Tree → List Handout
  | t@(.node _ _ ts) =>
      if t.isFunction then
        (if up || !inside then t.scopeBody?.toList.map fun b => ⟨[], b.1, b.2⟩ else []) ++
          handoutsAll true false 0 ts
      else handoutsAll (inside || t.isClass) (up || t.announces) 0 ts
  | .list ts => handoutsAll inside up 0 ts
  | .absent => []

/-- `handouts` of a run of trees, the first of which is child number `i`. -/
def handoutsAll (inside up : Bool) (i : Nat) : List Tree → List Handout
  | [] => []
  | t :: ts => (handouts inside up t).map (.under i) ++ handoutsAll inside (up && !t.clears) (i + 1) ts

end

/-! ## The walk and its trace -/

section Run

variable {m : Type → Type} [Monad m]

/-- Does something for every body, in order. -/
def performs (act : ScopeKind → Tree → m Unit) (hs : List Handout) : m Unit :=
  hs.forM fun h => act h.kind h.body

/-- A callback that does something with a body and hands it back as it is. -/
def unchanged (act : ScopeKind → Tree → m Unit) (k : ScopeKind) (body : Tree) : m Tree := do
  act k body
  return body

variable (act : ScopeKind → Tree → m Unit)

@[simp] theorem performs_nil : performs act [] = pure () := rfl

variable [LawfulMonad m]

@[simp] theorem performs_append (hs hs' : List Handout) :
    performs act (hs ++ hs') = (do performs act hs; performs act hs') := by
  simp [performs]

@[simp] theorem performs_under (i : Nat) (hs : List Handout) :
    performs act (hs.map (.under i)) = performs act hs := by
  induction hs with
  | nil => rfl
  | cons h hs ih => simp_all [performs, Handout.under]

/-- The tree `t`, handed back by a walk that has done `act` with every body below it. -/
def traced (act : ScopeKind → Tree → m Unit) (inside up : Bool) (t : Tree) : m (Tree × Bool) := do
  performs act (t.handouts inside up)
  return (t, up && !t.clears)

theorem clears_node (o : Origin) (k : Kind) (ts : List Tree) :
    (node o k ts).clears =
      ((node o k ts).isFunction || (node o k ts).retracts || ts.any clears) := by
  simp only [clears, any_node, nowhere, Bool.not_false, Bool.true_and]
  rfl

theorem clears_list (ts : List Tree) : (list ts).clears = ts.any clears := any_list

@[simp] theorem clears_absent : absent.clears = false := rfl

/-- A node that makes an announcement holds the function that uses it up, or takes it back. -/
theorem clears_of_announces {t : Tree} (h : t.announces = true) : t.clears = true := by
  simp only [announces, opensScope, Bool.or_eq_true] at h
  rcases h with ((h | h) | h) | h
  · unfold isComponentFunction at h
    split at h
    · simp [clears_node, isFunction]
    · cases h
  · unfold declaresComponent at h
    split at h
    · simp [clears_node, retracts]
    · cases h
  · unfold isDefaultFunction at h
    split at h
    · simp [clears_node, isFunction]
    · cases h
  · unfold isDefaultFunctionLike at h
    split at h
    · simp [clears_node, retracts]
    · cases h

/-- A walk through a run of trees is traced if the walk through each of them is. -/
theorem mapM_eq_traced {walk : Tree → ScopeM m Tree} {inside : Bool} {ts : List Tree}
    (h : ∀ t ∈ ts, ∀ up, (walk t).run up = traced act inside up t) (up : Bool) (i : Nat) :
    (ts.mapM walk).run up = (do
      performs act (handoutsAll inside up i ts)
      return (ts, up && !ts.any clears)) := by
  induction ts generalizing up i with
  | nil => simp [handoutsAll]
  | cons t ts ih =>
      have ih' := fun up => ih (fun u hu => h u (List.mem_cons_of_mem _ hu)) up (i + 1)
      simp [handoutsAll, h t (List.mem_cons_self ..), ih', traced, Bool.and_assoc]

/-- A walk through a run of trees walks through each of them, from first to last. -/
theorem walkAllTo_eq_mapM (enter : Bool → Tree → ScopeM m Tree) (inside : Bool) (ts : List Tree) :
    walkAllTo enter inside ts = ts.mapM (walkTo enter inside) := by
  induction ts with
  | nil => simp [walkAllTo]
  | cons t ts ih => simp [walkAllTo, ih]

/-- Handing out a body and getting it back. -/
theorem onBody_eq (t : Tree) :
    onBody (unchanged act) t = (do
      performs act (t.scopeBody?.toList.map fun b => ⟨[], b.1, b.2⟩)
      return t) := by
  unfold onBody
  split
  · next o a g ps body tps r =>
      by_cases hb : body.isAbsent = true
      · simp [scopeBody?, hb]
      · simp [scopeBody?, hb, performs, unchanged]
  · simp [scopeBody?, performs, unchanged]
  · next h₁ h₂ =>
      have hb : t.scopeBody? = none := by
        unfold scopeBody?
        split
        · exact (h₁ _ _ _ _ _ _ _ rfl).elim
        · exact (h₂ _ _ _ _ _ _ rfl).elim
        · rfl
      simp [hb]

theorem size_le_of_mem {t : Tree} {ts : List Tree} (h : t ∈ ts) : t.size ≤ sizeAll ts := by
  induction ts with
  | nil => cases h
  | cons u ts ih =>
      simp only [sizeAll]
      rcases List.mem_cons.mp h with rfl | h
      · omega
      · have := ih h
        omega

theorem size_eq (t : Tree) : t.size = sizeAll t.children + 1 := by
  cases t <;> rfl

theorem size_lt_of_child {c t : Tree} (h : c ∈ t.children) : c.size < t.size := by
  have hle := size_le_of_mem h
  rw [size_eq t]
  omega

/-- One level of the walk, given the level below it. -/
theorem walkTo_eq {n : Nat}
    (ih : ∀ t : Tree, t.size ≤ n → ∀ up,
      (walk (unchanged act) n true t).run up = traced act true up t)
    (t : Tree) (hn : t.size ≤ n + 1) (inside up : Bool) :
    (walk (unchanged act) (n + 1) inside t).run up = traced act inside up t := by
  rw [walk]
  induction t using ind generalizing inside up with
  | node o k ts iht =>
      have hsize : ∀ t ∈ ts, t.size ≤ n := by
        intro t ht
        have := size_le_of_mem ht
        simp only [size] at hn
        omega
      rw [walkTo, traced, handouts]
      by_cases hf : (node o k ts).isFunction = true
      · -- the walk goes on in the level below, and nothing is announced there
        have hts := mapM_eq_traced act (fun t ht => ih t (hsize t ht)) false 0
        cases up <;> cases inside <;> simp [hf, enter, onBody_eq, hts, clears_node, withChildren]
      · have hts := fun inside up => mapM_eq_traced act
          (fun t ht up => iht t ht (by have := hsize t ht; omega) inside up) up 0
        by_cases ha : (node o k ts).announces = true
        · -- its own announcement does not outlive the node
          have hc := clears_of_announces ha
          rw [clears_node] at hc
          by_cases hr : (node o k ts).retracts = true
          · simp [hf, ha, hr, walkAllTo_eq_mapM, hts, clears_node]
          · have hc : ts.any clears = true := by simpa [hf, hr] using hc
            simp [hf, ha, hr, hc, walkAllTo_eq_mapM, hts, clears_node]
        · by_cases hr : (node o k ts).retracts = true
          · simp [hf, ha, hr, walkAllTo_eq_mapM, hts, clears_node]
          · simp [hf, ha, hr, walkAllTo_eq_mapM, hts, clears_node]
  | list ts iht =>
      have hts := fun inside up => mapM_eq_traced act
        (fun t ht up => iht t ht (by have := size_le_of_mem ht; simp only [size] at hn; omega) inside up) up 0
      simp [walkTo, traced, handouts, walkAllTo_eq_mapM, hts, clears_list]
  | absent => simp [walkTo, traced, handouts]

/-- With a callback that leaves the tree unchanged, the walk does nothing but call it with the
bodies that are handed out, one after the other. -/
theorem walk_eq (t : Tree) (n : Nat) (hn : t.size ≤ n) (inside up : Bool) :
    (walk (unchanged act) n inside t).run up = traced act inside up t := by
  induction n generalizing t inside up with
  | zero => cases t <;> simp [size] at hn
  | succ n ih => exact walkTo_eq act (fun t hn => ih t hn true) t hn inside up

end Run

/-! ## Which bodies are handed out -/

/-- Whether an announcement that is up in front of a tree is still up at a place in it: no function
is on the way down, and nothing to the left of the way clears it. -/
def keepsUp : Tree → Place → Bool
  | _, [] => true
  | t, i :: p =>
      !t.isFunction && !(t.children.take i).any clears &&
        match t.children[i]? with
        | some u => u.keepsUp p
        | none => false

def atTop : Tree → Place → Bool
  | _, [] => true
  | t, i :: p =>
      !t.isFunction && !t.isClass &&
        match t.children[i]? with
        | some u => u.atTop p
        | none => false

/-- A node around the place announces a component, and the announcement is still up there: of all
functions in that node, the one at the place comes first. -/
def Announced (t : Tree) (p : Place) : Prop :=
  ∃ a q u, p = a ++ q ∧ q ≠ [] ∧ t.at? a = some u ∧ u.announces = true ∧ u.keepsUp q = true

/-- An announcement goes on to a place below a node that is no function, if no child in front takes
it and it goes on to the place in the child. -/
theorem keepsUp_cons {t : Tree} {i : Nat} {p : Place} :
    t.keepsUp (i :: p) = true ↔
      t.isFunction = false ∧ (t.children.take i).any clears = false ∧
        ∃ u, t.children[i]? = some u ∧ u.keepsUp p = true := by
  cases h : t.children[i]? with
  | none => simp [keepsUp, h]
  | some u => simp [keepsUp, h, and_assoc]

/-- Nothing is around a place if neither the node nor the way from the child holds scopes. -/
theorem atTop_cons {t : Tree} {i : Nat} {p : Place} :
    t.atTop (i :: p) = true ↔
      t.isFunction = false ∧ t.isClass = false ∧ ∃ u, t.children[i]? = some u ∧ u.atTop p = true := by
  cases h : t.children[i]? with
  | none => simp [atTop, h]
  | some u => simp [atTop, h, and_assoc]

/-- A place below a node is announced by that node or by one further down. -/
theorem announced_cons {t : Tree} {i : Nat} {p : Place} :
    t.Announced (i :: p) ↔
      (t.announces = true ∧ t.keepsUp (i :: p) = true) ∨
        ∃ u, t.children[i]? = some u ∧ u.Announced p := by
  constructor
  · rintro ⟨a, q, u, hp, hq, hu, ha, hk⟩
    cases a with
    | nil =>
        cases hu
        rw [List.nil_append] at hp
        exact .inl ⟨ha, hp ▸ hk⟩
    | cons j a =>
        obtain ⟨rfl, rfl⟩ := List.cons.inj hp
        obtain ⟨w, hw, hu⟩ := at?_cons_eq_some.mp hu
        exact .inr ⟨w, hw, a, q, u, rfl, hq, hu, ha, hk⟩
  · rintro (⟨ha, hk⟩ | ⟨w, hw, a, q, u, rfl, hq, hu, ha, hk⟩)
    · exact ⟨[], i :: p, t, rfl, by simp, rfl, ha, hk⟩
    · exact ⟨i :: a, q, u, rfl, hq, at?_cons_eq_some.mpr ⟨w, hw, hu⟩, ha, hk⟩

theorem not_announced_nil (t : Tree) : ¬ t.Announced [] := by
  rintro ⟨a, q, u, hp, hq, -⟩
  exact hq (List.append_eq_nil_iff.mp hp.symm).2

/-- No function announces another one by itself. -/
theorem announces_of_isFunction {t : Tree} (h : t.isFunction = true) : t.announces = false := by
  unfold isFunction at h
  split at h <;> first | rfl | cases h

/-- A body is the second child of its function. -/
theorem children_of_scopeBody? {t : Tree} {k : ScopeKind} {b : Tree} (h : t.scopeBody? = some (k, b)) :
    t.children[1]? = some b := by
  unfold scopeBody? at h
  split at h
  · split at h
    · cases h
    · cases h
      rfl
  · cases h
    rfl
  · cases h

theorem isFunction_of_scopeBody? {t : Tree} {b : ScopeKind × Tree} (h : t.scopeBody? = some b) :
    t.isFunction = true := by
  unfold scopeBody? at h
  split at h
  · rfl
  · rfl
  · cases h

/-- What a run of trees hands out, its members do: each hears only announcements that those
in front of it have not used up. -/
theorem mem_handoutsAll {inside up : Bool} {i : Nat} {ts : List Tree} {h : Handout} :
    h ∈ handoutsAll inside up i ts ↔
      ∃ (j : Nat) (t : Tree) (h' : Handout), ts[j]? = some t ∧ h = h'.under (i + j) ∧
        h' ∈ t.handouts inside (up && !(ts.take j).any clears) := by
  induction ts generalizing up i with
  | nil => simp [handoutsAll]
  | cons t ts ih =>
      rw [handoutsAll, List.mem_append, ih, List.mem_map]
      constructor
      · rintro (⟨h', hmem, rfl⟩ | ⟨j, u, h', hj, rfl, hmem⟩)
        · exact ⟨0, t, h', rfl, rfl, by simpa using hmem⟩
        · refine ⟨j + 1, u, h', hj, ?_, ?_⟩
          · rw [Nat.add_right_comm, Nat.add_assoc]
          · simpa [Bool.and_assoc] using hmem
      · rintro ⟨j, u, h', hj, rfl, hmem⟩
        cases j with
        | zero =>
            cases hj
            exact .inl ⟨h', by simpa using hmem, rfl⟩
        | succ j =>
            refine .inr ⟨j, u, h', hj, ?_, ?_⟩
            · rw [Nat.add_right_comm, Nat.add_assoc]
            · simpa [Bool.and_assoc] using hmem

/-- Why a function at a place of a tree is handed out: it is announced, from outside the tree or
inside it, or there is no other function and no class around it. -/
def HandedOut (inside up : Bool) (t : Tree) (p : Place) : Prop :=
  (up = true ∧ t.keepsUp p = true) ∨ t.Announced p ∨ (inside = false ∧ t.atTop p = true)

/-- At the top a function is handed out if it was announced, or if there is nothing around it. -/
theorem handedOut_nil {inside up : Bool} {t : Tree} :
    HandedOut inside up t [] ↔ up = true ∨ inside = false := by
  simp [HandedOut, keepsUp, atTop, not_announced_nil]

/-- Below a function only those are handed out that are announced there. -/
theorem handedOut_cons_of_isFunction {inside up : Bool} {t u : Tree} {i : Nat} {p : Place}
    (hf : t.isFunction = true) (hu : t.children[i]? = some u) :
    HandedOut inside up t (i :: p) ↔ u.Announced p := by
  simp [HandedOut, announced_cons, keepsUp_cons, atTop_cons, hf, hu]

/-- Below any other node an announcement of the node counts as well, as far as the children
in front leave it alone. -/
theorem handedOut_cons {inside up : Bool} {t u : Tree} {i : Nat} {p : Place}
    (hf : t.isFunction = false) (hu : t.children[i]? = some u) :
    HandedOut inside up t (i :: p) ↔
      HandedOut (inside || t.isClass) ((up || t.announces) && !(t.children.take i).any clears) u p := by
  simp only [HandedOut, announced_cons, keepsUp_cons, atTop_cons, hf, hu, Option.some.injEq,
    exists_eq_left', true_and, Bool.and_eq_true, Bool.or_eq_true, Bool.or_eq_false_iff,
    Bool.not_eq_true']
  tauto

/-- The bodies that a run of trees hands out are those of its members. -/
theorem mem_handoutsAll_cons {inside up : Bool} {ts : List Tree} {i : Nat} {p : Place} {k : ScopeKind}
    {body : Tree} :
    ⟨i :: p, k, body⟩ ∈ handoutsAll inside up 0 ts ↔
      ∃ t, ts[i]? = some t ∧ ⟨p, k, body⟩ ∈ t.handouts inside (up && !(ts.take i).any clears) := by
  rw [mem_handoutsAll]
  constructor
  · rintro ⟨j, t, ⟨p', k', body'⟩, hj, heq, hmem⟩
    simp only [Handout.under, Nat.zero_add, Handout.mk.injEq, List.cons.injEq] at heq
    obtain ⟨⟨rfl, rfl⟩, rfl, rfl⟩ := heq
    exact ⟨t, hj, hmem⟩
  · rintro ⟨t, hi, hmem⟩
    exact ⟨i, t, ⟨p, k, body⟩, hi, by simp [Handout.under], hmem⟩

/-- No body is handed out from the place of the group itself. -/
theorem not_mem_handoutsAll_nil {inside up : Bool} {ts : List Tree} {k : ScopeKind} {body : Tree} :
    ⟨[], k, body⟩ ∉ handoutsAll inside up 0 ts := by
  rw [mem_handoutsAll]
  rintro ⟨j, t, h', -, heq, -⟩
  simp [Handout.under] at heq

/-- The characterization of handed out bodies, as a statement about one tree. -/
def HandsOutRightly (t : Tree) : Prop :=
  ∀ (inside up : Bool) (p : Place) (k : ScopeKind) (body : Tree),
    ⟨p, k, body⟩ ∈ t.handouts inside up ↔
      (∃ u, t.at? p = some u ∧ u.scopeBody? = some (k, body)) ∧ HandedOut inside up t p

/-- Where a tree is no function, the walk just goes on to its children. -/
theorem handsOutRightly_of_not_isFunction {t : Tree} (hf : t.isFunction = false)
    (ht : ∀ inside up,
      t.handouts inside up = handoutsAll (inside || t.isClass) (up || t.announces) 0 t.children)
    (ih : ∀ u ∈ t.children, u.HandsOutRightly) : t.HandsOutRightly := by
  intro inside up p k body
  rw [ht]
  cases p with
  | nil =>
      have hb : t.scopeBody? ≠ some (k, body) := fun hb => by
        rw [isFunction_of_scopeBody? hb] at hf
        cases hf
      simp [not_mem_handoutsAll_nil, hb]
  | cons i p =>
      rw [mem_handoutsAll_cons]
      constructor
      · rintro ⟨t, hi, hmem⟩
        obtain ⟨⟨u, hu, hb⟩, hr⟩ := (ih t (List.mem_of_getElem? hi) ..).mp hmem
        exact ⟨⟨u, at?_cons_eq_some.mpr ⟨t, hi, hu⟩, hb⟩, (handedOut_cons hf hi).mpr hr⟩
      · rintro ⟨⟨u, hu, hb⟩, hr⟩
        obtain ⟨t, hi, hu⟩ := at?_cons_eq_some.mp hu
        exact ⟨t, hi, (ih t (List.mem_of_getElem? hi) ..).mpr ⟨⟨u, hu, hb⟩, (handedOut_cons hf hi).mp hr⟩⟩

/-- A function is handed out itself if it may be, and inside it only an announcement counts. -/
theorem handsOutRightly_of_isFunction {o : Origin} {kind : Kind} {ts : List Tree}
    (hf : (node o kind ts).isFunction = true) (ih : ∀ u ∈ ts, u.HandsOutRightly) :
    (node o kind ts).HandsOutRightly := by
  intro inside up p k body
  rw [handouts, if_pos hf, List.mem_append]
  cases p with
  | nil =>
      rw [handedOut_nil]
      by_cases hs : up = true ∨ inside = false
      · simp [hs, not_mem_handoutsAll_nil]
      · simp [hs, not_mem_handoutsAll_nil]
  | cons i p =>
      have hown : ⟨i :: p, k, body⟩ ∉ (if up || !inside then
          (node o kind ts).scopeBody?.toList.map fun b => (⟨[], b.1, b.2⟩ : Handout) else []) := by
        split <;> simp
      rw [or_iff_right hown, mem_handoutsAll_cons]
      constructor
      · rintro ⟨t, hi, hmem⟩
        obtain ⟨⟨u, hu, hb⟩, hr⟩ := (ih t (List.mem_of_getElem? hi) ..).mp hmem
        rw [handedOut_cons_of_isFunction hf hi]
        refine ⟨⟨u, at?_cons_eq_some.mpr ⟨t, hi, hu⟩, hb⟩, ?_⟩
        simpa [HandedOut] using hr
      · rintro ⟨⟨u, hu, hb⟩, hr⟩
        obtain ⟨t, hi, hu⟩ := at?_cons_eq_some.mp hu
        rw [handedOut_cons_of_isFunction hf hi] at hr
        exact ⟨t, hi, (ih t (List.mem_of_getElem? hi) ..).mpr ⟨⟨u, hu, hb⟩, .inr (.inl hr)⟩⟩

/-- A body is handed out exactly when there is a reason for it. -/
theorem handsOutRightly (t : Tree) : t.HandsOutRightly := by
  induction t using ind with
  | node o kind ts ih =>
      by_cases hf : (node o kind ts).isFunction = true
      · exact handsOutRightly_of_isFunction hf ih
      · refine handsOutRightly_of_not_isFunction (by simpa using hf) (fun inside up => ?_) ih
        rw [handouts, if_neg hf]
        rfl
  | list ts ih =>
      refine handsOutRightly_of_not_isFunction rfl (fun inside up => ?_) ih
      show handoutsAll inside up 0 ts = handoutsAll (inside || false) (up || false) 0 ts
      rw [Bool.or_false, Bool.or_false]
  | absent => exact handsOutRightly_of_not_isFunction rfl (fun _ _ => rfl) (fun _ h => nomatch h)

/-! ## In which order they are handed out -/

/-- If each tree of a run hands out its bodies in order, so does the run. -/
theorem handoutsAll_pairwise {ts : List Tree}
    (ih : ∀ t ∈ ts, ∀ inside up, (t.handouts inside up).Pairwise Handout.Before) (inside up : Bool) (i : Nat) :
    (handoutsAll inside up i ts).Pairwise Handout.Before := by
  induction ts generalizing up i with
  | nil => exact .nil
  | cons t ts iht =>
      rw [handoutsAll, List.pairwise_append]
      refine ⟨?_, iht (fun u hu => ih u (List.mem_cons_of_mem _ hu)) _ _, ?_⟩
      · rw [List.pairwise_map]
        refine (ih t (List.mem_cons_self ..) inside up).imp fun {h h'} hb hp => hb ?_
        simpa [Handout.under] using hp
      · -- places in different children differ in their first number
        intro h hh h' hh' hp
        obtain ⟨g, -, rfl⟩ := List.mem_map.mp hh
        obtain ⟨j, u, g', -, rfl, -⟩ := mem_handoutsAll.mp hh'
        simp only [Handout.under, List.cons_prefix_cons] at hp
        omega

/-- A body is handed out before the bodies inside its function, and none is handed out twice. -/
theorem handouts_pairwise (t : Tree) (inside up : Bool) :
    (t.handouts inside up).Pairwise Handout.Before := by
  induction t using ind generalizing inside up with
  | node o k ts ih =>
      rw [handouts]
      split
      · rw [List.pairwise_append]
        refine ⟨?_, handoutsAll_pairwise ih true false 0, ?_⟩
        · split
          · cases (node o k ts).scopeBody? <;> simp
          · exact .nil
        · -- the function itself is at the root, and no prefix of the root is below it
          intro h hh h' hh' hp
          have hnil : h.place = [] := by
            split at hh
            · obtain ⟨b, -, rfl⟩ := List.mem_map.mp hh
              rfl
            · cases hh
          obtain ⟨j, u, g, -, rfl, -⟩ := mem_handoutsAll.mp hh'
          rw [hnil] at hp
          simp [Handout.under] at hp
      · exact handoutsAll_pairwise ih _ _ 0
  | list ts ih => exact handoutsAll_pairwise ih inside up 0
  | absent => exact .nil

end Tree

namespace Module

/-- The bodies that are handed out, in order; the first number of a place is that of the item. -/
def handouts (m : Module) : List Handout := (Tree.list m.items).handouts false false

section Run

variable {μ : Type → Type} [Monad μ] [LawfulMonad μ] (act : ScopeKind → Tree → μ Unit)

/-- Handing out the scopes to a callback that leaves the tree unchanged is calling it with the
bodies of `Module.handouts`, in that order and each once. -/
theorem forEachScope_unchanged (m : Module) :
    m.forEachScope (Tree.unchanged act) = (do Tree.performs act m.handouts; return m) := by
  have hwalk : ∀ t ∈ m.items, ∀ up, (Tree.walk (Tree.unchanged act) (t.size + 1) false t).run up =
      Tree.traced act false up t :=
    fun t _ up => Tree.walk_eq act t (t.size + 1) (Nat.le_succ _) false up
  have hitems := Tree.mapM_eq_traced act hwalk false 0
  simp [forEachScope, hitems, handouts, Tree.handouts]

end Run

/-- The callback that writes down what it is handed, the latest first. -/
def note (k : ScopeKind) (body : Tree) : StateM (List (ScopeKind × Tree)) Unit :=
  modify fun seen => (k, body) :: seen

/-- Writing down what is handed out leaves a list of it, the latest first. -/
theorem run_performs_note (hs : List Handout) (seen : List (ScopeKind × Tree)) :
    (Tree.performs note hs).run seen = ((), (hs.map fun h => (h.kind, h.body)).reverse ++ seen) := by
  induction hs generalizing seen with
  | nil => rfl
  | cons h hs ih =>
      have hcons : Tree.performs note (h :: hs) = (do note h.kind h.body; Tree.performs note hs) := by
        simp [Tree.performs]
      rw [hcons]
      show (Tree.performs note hs).run ((h.kind, h.body) :: seen) = _
      rw [ih]
      simp

/-- The scopes that are listed are the bodies that are handed out. -/
theorem scopes_eq_handouts (m : Module) : m.scopes = m.handouts.map fun h => (h.kind, h.body) := by
  show ((m.forEachScope (Tree.unchanged note)).run []).2.reverse = _
  rw [forEachScope_unchanged]
  show ((Tree.performs note m.handouts).run []).2.reverse = _
  rw [run_performs_note]
  simp

end Module

end FormCodemod
