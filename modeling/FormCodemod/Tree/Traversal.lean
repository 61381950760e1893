import FormCodemod.Tree.Basic

/-!
# Traversals

The recursions every pass is an instance of:

* `Tree.mapUp` changes children before their parent;
* `Tree.mapDown` asks a rule at each node, and descends where the rule has no answer;
* `Tree.outermost` lists what a rule finds on the way `mapDown` goes;
* `Tree.any` looks for a node.

Each takes `stop`, which names the nodes that are left alone together with everything
below them.
-/

namespace FormCodemod

/-- Replaces the first item for which `f` has an answer. Also returns its place and what
else `f` said. -/
def mapFirst? {α β : Type} (f : α → Option (α × β)) : List α → Option (List α × Nat × β)
  | [] => none
  | a :: as =>
      match f a with
      | some (a', b) => some (a' :: as, 0, b)
      | none => (mapFirst? f as).map fun r => (a :: r.1, r.2.1 + 1, r.2.2)

/-- Puts `new` in front of the item at place `n`, or at the end if there is none. -/
def insertAt {α : Type} (n : Nat) (new xs : List α) : List α := xs.take n ++ new ++ xs.drop n

namespace Tree

variable {α : Type} {m : Type → Type} [Monad m]

/-! ### Changing, children first -/

mutual

/-- Changes every node that is not below a `stop` node, children before parents. -/
def mapUp (stop : Tree → Bool) (f : Tree → Tree) : Tree → Tree
  | t@(node o k ts) => if stop t then t else f (node o k (mapUpAll stop f ts))
  | list ts => list (mapUpAll stop f ts)
  | absent => absent

def mapUpAll (stop : Tree → Bool) (f : Tree → Tree) : List Tree → List Tree
  | [] => []
  | t :: ts => mapUp stop f t :: mapUpAll stop f ts

end

mutual

/-- `mapUp` with an effect, children from first to last and before their parent. -/
def mapUpM (stop : Tree → Bool) (f : Tree → m Tree) : Tree → m Tree
  | t@(node o k ts) => if stop t then pure t else do
      let ts ← mapUpAllM stop f ts
      f (node o k ts)
  | list ts => do return list (← mapUpAllM stop f ts)
  | absent => pure absent

def mapUpAllM (stop : Tree → Bool) (f : Tree → m Tree) : List Tree → m (List Tree)
  | [] => pure []
  | t :: ts => do
      let t ← mapUpM stop f t
      let ts ← mapUpAllM stop f ts
      return t :: ts

end

/-! ### Changing, parents first -/

mutual

/-- Replaces every node for which `f` has an answer, and descends into the others. What
`f` puts in place is not visited again. -/
def mapDown (stop : Tree → Bool) (f : Tree → Option Tree) : Tree → Tree
  | t@(node o k ts) =>
      if stop t then t else
        match f t with
        | some t' => t'
        | none => node o k (mapDownAll stop f ts)
  | list ts => list (mapDownAll stop f ts)
  | absent => absent

def mapDownAll (stop : Tree → Bool) (f : Tree → Option Tree) : List Tree → List Tree
  | [] => []
  | t :: ts => mapDown stop f t :: mapDownAll stop f ts

end

/-! ### Looking -/

mutual

/-- What `f` finds at the outermost nodes for which it has an answer, in order. -/
def outermost (stop : Tree → Bool) (f : Tree → Option α) : Tree → List α
  | t@(node _ _ ts) =>
      if stop t then [] else
        match f t with
        | some a => [a]
        | none => outermostAll stop f ts
  | list ts => outermostAll stop f ts
  | absent => []

def outermostAll (stop : Tree → Bool) (f : Tree → Option α) : List Tree → List α
  | [] => []
  | t :: ts => outermost stop f t ++ outermostAll stop f ts

end

mutual

/-- What `f` yields at every node not below a `stop` node, parents before children. -/
def collect (stop : Tree → Bool) (f : Tree → List α) : Tree → List α
  | t@(node _ _ ts) => if stop t then [] else f t ++ collectAll stop f ts
  | list ts => collectAll stop f ts
  | absent => []

def collectAll (stop : Tree → Bool) (f : Tree → List α) : List Tree → List α
  | [] => []
  | t :: ts => collect stop f t ++ collectAll stop f ts

end

mutual

/-- Whether `p` holds of some node that is not below a `stop` node. -/
def any (stop : Tree → Bool) (p : Tree → Bool) : Tree → Bool
  | t@(node _ _ ts) => !stop t && (p t || anyAll stop p ts)
  | list ts => anyAll stop p ts
  | absent => false

def anyAll (stop : Tree → Bool) (p : Tree → Bool) : List Tree → Bool
  | [] => false
  | t :: ts => any stop p t || anyAll stop p ts

end

def nowhere (_ : Tree) : Bool := false

/-! ### Runs are maps -/

variable (stop : Tree → Bool)

theorem mapUpAll_eq_map (f : Tree → Tree) (ts : List Tree) :
    mapUpAll stop f ts = ts.map (mapUp stop f) := by
  induction ts with
  | nil => rfl
  | cons t ts ih => simp [mapUpAll, ih]

theorem mapDownAll_eq_map (f : Tree → Option Tree) (ts : List Tree) :
    mapDownAll stop f ts = ts.map (mapDown stop f) := by
  induction ts with
  | nil => rfl
  | cons t ts ih => simp [mapDownAll, ih]

theorem outermostAll_eq_flatMap (f : Tree → Option α) (ts : List Tree) :
    outermostAll stop f ts = ts.flatMap (outermost stop f) := by
  induction ts with
  | nil => rfl
  | cons t ts ih => simp [outermostAll, ih]

theorem collectAll_eq_flatMap (f : Tree → List α) (ts : List Tree) :
    collectAll stop f ts = ts.flatMap (collect stop f) := by
  induction ts with
  | nil => rfl
  | cons t ts ih => simp [collectAll, ih]

theorem anyAll_eq_any (p : Tree → Bool) (ts : List Tree) :
    anyAll stop p ts = ts.any (any stop p) := by
  induction ts with
  | nil => rfl
  | cons t ts ih => simp [anyAll, ih]

/-! ### One level down

What a traversal does with a node and with a group, by what it does with their children. -/

variable {stop} {f : Tree → Tree} {d : Tree → Option Tree} {find : Tree → Option α} {yield : Tree → List α}
  {p : Tree → Bool} {o : Origin} {k : Kind} {ts : List Tree}

theorem mapUp_node :
    (node o k ts).mapUp stop f = if stop (node o k ts) then node o k ts else f (node o k (ts.map (mapUp stop f))) := by
  rw [mapUp, mapUpAll_eq_map]

theorem mapUp_list : (list ts).mapUp stop f = list (ts.map (mapUp stop f)) := by
  rw [mapUp, mapUpAll_eq_map]

theorem mapUp_nowhere_node : (node o k ts).mapUp nowhere f = f (node o k (ts.map (mapUp nowhere f))) :=
  mapUp_node.trans (if_neg Bool.false_ne_true)

theorem mapDown_node :
    (node o k ts).mapDown stop d =
      if stop (node o k ts) then node o k ts else (d (node o k ts)).getD (node o k (ts.map (mapDown stop d))) := by
  rw [mapDown, mapDownAll_eq_map]
  cases d (node o k ts) <;> rfl

theorem mapDown_list : (list ts).mapDown stop d = list (ts.map (mapDown stop d)) := by
  rw [mapDown, mapDownAll_eq_map]

theorem outermost_node :
    (node o k ts).outermost stop find =
      if stop (node o k ts) then [] else (find (node o k ts)).elim (ts.flatMap (outermost stop find)) ([·]) := by
  rw [outermost, outermostAll_eq_flatMap]
  cases find (node o k ts) <;> rfl

theorem outermost_list : (list ts).outermost stop find = ts.flatMap (outermost stop find) := by
  rw [outermost, outermostAll_eq_flatMap]

theorem collect_node :
    (node o k ts).collect stop yield =
      if stop (node o k ts) then [] else yield (node o k ts) ++ ts.flatMap (collect stop yield) := by
  rw [collect, collectAll_eq_flatMap]

theorem collect_list : (list ts).collect stop yield = ts.flatMap (collect stop yield) := by
  rw [collect, collectAll_eq_flatMap]

theorem any_node :
    (node o k ts).any stop p = (!stop (node o k ts) && (p (node o k ts) || ts.any (any stop p))) := by
  rw [any, anyAll_eq_any]

theorem any_list : (list ts).any stop p = ts.any (any stop p) := by
  rw [any, anyAll_eq_any]

theorem any_node_eq_false :
    (node o k ts).any stop p = false ↔
      stop (node o k ts) = true ∨ p (node o k ts) = false ∧ ∀ t ∈ ts, t.any stop p = false := by
  rw [any_node]
  cases stop (node o k ts) <;> simp

theorem any_list_eq_false : (list ts).any stop p = false ↔ ∀ t ∈ ts, t.any stop p = false := by
  simp [any_list]

end Tree

end FormCodemod
