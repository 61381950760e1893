import FormCodemod.Proofs.Scope.Handouts

/-!
# Announcements at the boundaries of items

A walk goes through the items of a module with one announcement that is put up, used up and taken
back on the way. `Tree.walkTo_leaves` says what is left of it behind a tree: nothing, if the tree
holds a function or something that takes an announcement back, and what was up before otherwise.
This holds for every callback, also for one that changes bodies.

So between two items nothing is announced, and the items of a module are walked as if each were alone
(`Module.forEachScope_eq`, `Module.forEachScope_append`).
-/

namespace FormCodemod

section Leaves

variable {m : Type → Type} [Monad m] {α β : Type}

/-- Started with `up`, the computation always ends with `up'`. -/
def Leaves (x : ScopeM m α) (up up' : Bool) : Prop := x.run up = (fun r => (r.1, up')) <$> x.run up

namespace Leaves

variable [LawfulMonad m] {x : ScopeM m α} {k : α → ScopeM m β} {up up₁ up' : Bool}

theorem pure (a : α) (up : Bool) : Leaves (pure a : ScopeM m α) up up := by
  simp [Leaves]

theorem set (b up : Bool) : Leaves (set b : ScopeM m PUnit) up b := by
  simp [Leaves]

/-- What is done outside of the walk leaves the announcement as it is. -/
theorem lift (x : m α) (up : Bool) : Leaves (liftM x : ScopeM m α) up up := by
  simp [Leaves]

theorem bind (hx : Leaves x up up₁) (hk : ∀ a, Leaves (k a) up₁ up') : Leaves (x >>= k) up up' := by
  rw [Leaves, StateT.run_bind, hx]
  simp only [bind_map_left, map_bind]
  exact bind_congr fun r => hk r.1

/-- An announcement that is known goes on into what reads it. -/
theorem get {k : Bool → ScopeM m β} (hk : Leaves (k up) up up') : Leaves (MonadState.get >>= k) up up' := by
  simpa [Leaves] using hk

/-- A change of the announcement in front of a computation. -/
theorem setIf {c b : Bool} {k : PUnit → ScopeM m β} (hk : Leaves (k ⟨⟩) (if c then b else up) up') :
    Leaves (if c = true then (MonadState.set b : ScopeM m PUnit) >>= k else k ⟨⟩) up up' := by
  cases c with
  | false => exact hk
  | true => exact (set b up).bind fun _ => hk

/-- What is left behind a run of trees, if it is known for each of them. -/
theorem mapM {g : Tree → ScopeM m Tree} {ts : List Tree}
    (h : ∀ t ∈ ts, ∀ up, Leaves (g t) up (up && !t.clears)) (up : Bool) :
    Leaves (ts.mapM g) up (up && !ts.any Tree.clears) := by
  induction ts generalizing up with
  | nil => simpa using pure [] up
  | cons t ts ih =>
      rw [List.mapM_cons, List.any_cons, Bool.not_or, ← Bool.and_assoc]
      refine (h t (List.mem_cons_self ..) up).bind fun t' => ?_
      exact (ih (fun u hu => h u (List.mem_cons_of_mem _ hu)) _).bind fun ts' => pure _ _

end Leaves

end Leaves

namespace Tree

variable {m : Type → Type} [Monad m] [LawfulMonad m] {f : ScopeKind → Tree → m Tree}

/-- A node that announces something and takes it back or uses it up leaves what was there before, if that
is not used up as well. -/
theorem left_eq (up : Bool) {announces retracts uses : Bool} (h : announces = true → (retracts || uses) = true) :
    (if retracts = true then false else (if announces = true then true else up) && !uses) =
      (up && !(retracts || uses)) := by
  revert up announces retracts uses
  decide

/-- One level of a walk leaves no announcement behind that was used up or taken back in the tree. -/
theorem walkTo_leaves {enter : Bool → Tree → ScopeM m Tree}
    (henter : ∀ inside t up, t.isFunction = true → Leaves (enter inside t) up false) (inside : Bool) (t : Tree)
    (up : Bool) : Leaves (walkTo enter inside t) up (up && !t.clears) := by
  induction t using ind generalizing inside up with
  | node o k ts ih =>
      have hts : ∀ inside up, Leaves (walkAllTo enter inside ts) up (up && !ts.any clears) := by
        intro inside up
        rw [walkAllTo_eq_mapM]
        exact .mapM (fun t ht up => ih t ht inside up) up
      rw [walkTo]
      by_cases hf : (node o k ts).isFunction = true
      · rw [if_pos hf, clears_node, hf, Bool.true_or, Bool.true_or, Bool.not_true, Bool.and_false]
        exact henter inside _ up hf
      · rw [if_neg hf]
        refine .setIf ((hts _ _).bind fun ts' => .setIf ?_)
        -- what the node announces itself is gone at its end, so only `up` is left to look at
        have hgone : (node o k ts).announces = true → ((node o k ts).retracts || ts.any clears) = true := by
          intro ha
          simpa [clears_node, hf] using clears_of_announces ha
        rw [clears_node, (Bool.not_eq_true _).mp hf, Bool.false_or, ← left_eq up hgone]
        exact .pure _ _
  | list ts ih =>
      rw [walkTo, clears_list, walkAllTo_eq_mapM]
      exact (Leaves.mapM (fun t ht up => ih t ht inside up) up).bind fun ts' => .pure _ _
  | absent =>
      rw [walkTo, clears_absent, Bool.not_false, Bool.and_true]
      exact .pure _ _

/-- A function uses up what is announced, and nothing that is announced inside gets out of it. -/
theorem enter_leaves {deeper : Tree → ScopeM m Tree} (hdeeper : ∀ t, Leaves (deeper t) false false) (inside : Bool)
    (t : Tree) (up : Bool) : Leaves (enter f deeper inside t) up false := by
  have hts : ∀ ts : List Tree, Leaves (ts.mapM deeper) false false := by
    intro ts
    induction ts with
    | nil => exact .pure _ _
    | cons t ts ih =>
        rw [List.mapM_cons]
        exact (hdeeper t).bind fun t' => ih.bind fun ts' => .pure _ _
  rw [enter]
  refine .get ((Leaves.set false up).bind fun _ => ?_)
  split
  · exact (Leaves.lift _ _).bind fun t' => (hts _).bind fun ts' => .pure _ _
  · exact (Leaves.pure _ _).bind fun t' => (hts _).bind fun ts' => .pure _ _

/-- A walk that starts with nothing announced ends so, whatever is done with the bodies. -/
theorem walk_leaves (n : Nat) (inside : Bool) (t : Tree) : Leaves (walk f n inside t) false false := by
  induction n generalizing inside t with
  | zero => exact .pure _ _
  | succ n ih =>
      rw [walk]
      have hwalk := walkTo_leaves (fun inside t up _ => enter_leaves (f := f) (ih true) inside t up) inside t false
      rwa [Bool.false_and] at hwalk

/-- Inside of a function nothing is announced at first, and nothing is left. -/
theorem walk_leaves_inside (n : Nat) (t : Tree) (up : Bool) (hup : up = true → false = true) :
    Leaves (walk f n true t) up (up && !t.clears) := by
  cases up with
  | false => exact walk_leaves n true t
  | true => cases hup rfl

/-- One level of a walk, with the next ones inside its functions. -/
theorem walkTo_walk_leaves (n : Nat) (inside : Bool) (t : Tree) (up : Bool) :
    Leaves (walkTo (enter f (walk f n true)) inside t) up (up && !t.clears) :=
  walkTo_leaves (fun inside t up _ => enter_leaves (walk_leaves n true) inside t up) inside t up

end Tree

namespace Module

variable {m : Type → Type} [Monad m] (f : ScopeKind → Tree → m Tree)

/-- Hands the scopes of one item to `f`, with nothing announced in front of it. -/
def itemScopes (t : Tree) : m Tree := do
  let r ← (Tree.walk f (t.size + 1) false t).run false
  return r.1

variable [LawfulMonad m]

/-- A walk through items with nothing announced in front of them treats each of them alone. -/
theorem run_mapM_walk (ts : List Tree) :
    (ts.mapM fun t => Tree.walk f (t.size + 1) false t).run false = (·, false) <$> ts.mapM (itemScopes f) := by
  induction ts with
  | nil => simp
  | cons t ts ih =>
      have ht : (Tree.walk f (t.size + 1) false t).run false = (·, false) <$> itemScopes f t := by
        rw [Tree.walk_leaves (f := f) (t.size + 1) false t]
        simp [itemScopes]
      simp [List.mapM_cons, ht, ih]

/-- The scopes of a module are handed out item by item. -/
theorem forEachScope_eq (mod : Module) :
    mod.forEachScope f = (do return { mod with items := ← mod.items.mapM (itemScopes f) }) := by
  simp [forEachScope, run_mapM_walk]

/-- The first module, followed by the items of the second one. -/
instance : Append Module := ⟨fun a b => { a with items := a.items ++ b.items }⟩

/-- Two modules in one are walked one after the other. -/
theorem forEachScope_append (a b : Module) :
    (a ++ b).forEachScope f = (do
      let a' ← a.forEachScope f
      let b' ← b.forEachScope f
      return a' ++ b') := by
  have hitems : (a ++ b).items = a.items ++ b.items := rfl
  simp [forEachScope_eq, hitems]
  rfl

end Module

end FormCodemod
