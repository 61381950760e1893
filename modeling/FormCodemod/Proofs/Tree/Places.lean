import FormCodemod.Tree.Traversal

/-!
# Places in a tree

A `Place` names one node of a tree by the way down to it. Trees carry no identities of their own,
so "the same node" always means "the node at the same place".

* `Tree.at?` is the node at a place, `Tree.reaches` tells whether a traversal with `stop` comes to
  the place: nothing stops it on the way or at the place itself.
* `mem_collect_iff` says that these are exactly the places where `Tree.collect`, and with it every
  other traversal that takes the same `stop`, looks at a node.
-/

namespace FormCodemod

/-- A place in a tree: the way down from the root, as the numbers of the children taken. -/
abbrev Place := List Nat

namespace Tree

/-! ## Induction over trees -/

/-- A property of trees holds of every tree if it passes from the children to their parent. -/
@[elab_as_elim]
theorem ind {motive : Tree → Prop}
    (node : ∀ o k ts, (∀ t ∈ ts, motive t) → motive (.node o k ts))
    (list : ∀ ts, (∀ t ∈ ts, motive t) → motive (.list ts))
    (absent : motive .absent) : ∀ t, motive t
  | .node o k ts => node o k ts fun t _ => ind node list absent t
  | .list ts => list ts fun t _ => ind node list absent t
  | .absent => absent

/-- The same for a property that passes from the children to their parent in one way, whatever the parent is. -/
@[elab_as_elim]
theorem childInd {motive : Tree → Prop} (h : ∀ t, (∀ c ∈ t.children, motive c) → motive t) (t : Tree) : motive t :=
  ind (fun o k ts ih => h (node o k ts) ih) (fun ts ih => h (list ts) ih) (h absent nofun) t

/-- A property of trees and one of runs of trees, for functions that go through a run with a number or a state. -/
@[elab_as_elim]
theorem runInd {motive : Tree → Prop} {r : List Tree → Prop} (node : ∀ o k ts, r ts → motive (.node o k ts))
    (list : ∀ ts, r ts → motive (.list ts)) (absent : motive .absent) (nil : r [])
    (cons : ∀ t ts, motive t → r ts → r (t :: ts)) (t : Tree) : motive t := by
  have hrun : ∀ ts : List Tree, (∀ t ∈ ts, motive t) → r ts := by
    intro ts ih
    induction ts with
    | nil => exact nil
    | cons t ts ihts =>
        obtain ⟨ht, hts⟩ := List.forall_mem_cons.mp ih
        exact cons t ts ht (ihts hts)
  induction t using ind with
  | node o k ts ih => exact node o k ts (hrun ts ih)
  | list ts ih => exact list ts (hrun ts ih)
  | absent => exact absent

/-! ## The node at a place -/

def at? : Tree → Place → Option Tree
  | t, [] => some t
  | t, i :: p =>
      match t.children[i]? with
      | some u => u.at? p
      | none => none

@[simp] theorem at?_nil (t : Tree) : t.at? [] = some t := rfl

theorem at?_cons_of_some {t u : Tree} {i : Nat} (h : t.children[i]? = some u) (p : Place) :
    t.at? (i :: p) = u.at? p := by
  simp [at?, h]

/-- A place one step down is a place of the child that the step leads to. -/
theorem at?_cons_eq_some {t v : Tree} {i : Nat} {p : Place} :
    t.at? (i :: p) = some v ↔ ∃ u, t.children[i]? = some u ∧ u.at? p = some v := by
  cases h : t.children[i]? with
  | none => simp [at?, h]
  | some u => simp [at?, h]

/-- A property holds at every place of a tree. -/
def Everywhere (Q : Tree → Prop) (t : Tree) : Prop := ∀ p u, t.at? p = some u → Q u

/-- What holds everywhere holds here and everywhere in the children. -/
theorem everywhere_iff {Q : Tree → Prop} {t : Tree} :
    t.Everywhere Q ↔ Q t ∧ ∀ c ∈ t.children, c.Everywhere Q := by
  constructor
  · intro h
    refine ⟨h [] t rfl, ?_⟩
    intro c hc p u hu
    obtain ⟨i, hi⟩ := List.mem_iff_getElem?.mp hc
    exact h (i :: p) u (at?_cons_eq_some.mpr ⟨c, hi, hu⟩)
  · rintro ⟨ht, hts⟩ p u hu
    cases p with
    | nil =>
        cases hu
        exact ht
    | cons i p =>
        obtain ⟨c, hi, hu⟩ := at?_cons_eq_some.mp hu
        exact hts c (List.mem_of_getElem? hi) p u hu

theorem Everywhere.here {Q : Tree → Prop} {t : Tree} (h : t.Everywhere Q) : Q t := (everywhere_iff.mp h).1

theorem Everywhere.child {Q : Tree → Prop} {t c : Tree} (h : t.Everywhere Q) (hc : c ∈ t.children) :
    c.Everywhere Q :=
  (everywhere_iff.mp h).2 c hc

/-- What stands somewhere in a child stands somewhere in its parent. -/
theorem exists_at?_of_child {Q : Tree → Prop} {t c : Tree} (hc : c ∈ t.children)
    (h : ∃ p u, c.at? p = some u ∧ Q u) : ∃ p u, t.at? p = some u ∧ Q u := by
  obtain ⟨p, u, hu, hQ⟩ := h
  obtain ⟨i, hi⟩ := List.mem_iff_getElem?.mp hc
  exact ⟨i :: p, u, at?_cons_eq_some.mpr ⟨c, hi, hu⟩, hQ⟩

/-- A longer place is reached by way of a shorter one. -/
theorem at?_append {t : Tree} {p q : Place} {v : Tree} :
    t.at? (p ++ q) = some v ↔ ∃ u, t.at? p = some u ∧ u.at? q = some v := by
  induction p generalizing t with
  | nil => simp
  | cons i p ih =>
      rw [List.cons_append, at?_cons_eq_some]
      constructor
      · rintro ⟨w, hw, hv⟩
        obtain ⟨u, hu, huv⟩ := ih.mp hv
        exact ⟨u, at?_cons_eq_some.mpr ⟨w, hw, hu⟩, huv⟩
      · rintro ⟨u, hu, huv⟩
        obtain ⟨w, hw, hwu⟩ := at?_cons_eq_some.mp hu
        exact ⟨w, hw, ih.mpr ⟨u, hwu, huv⟩⟩

/-! ## Places that a traversal comes to -/

section Reaches

variable {stop : Tree → Bool}

/-- Whether a traversal that leaves `stop` nodes alone comes to the place. -/
def reaches (stop : Tree → Bool) : Tree → Place → Bool
  | t, [] => !stop t
  | t, i :: p =>
      !stop t &&
        match t.children[i]? with
        | some u => u.reaches stop p
        | none => false

theorem reaches_nil {t : Tree} : t.reaches stop [] = true ↔ stop t = false := by
  simp [reaches]

/-- A traversal comes to a place below a node if it does not stop there and comes to it in
the child. -/
theorem reaches_cons {t : Tree} {i : Nat} {p : Place} :
    t.reaches stop (i :: p) = true ↔
      stop t = false ∧ ∃ u, t.children[i]? = some u ∧ u.reaches stop p = true := by
  cases h : t.children[i]? with
  | none => simp [reaches, h]
  | some u => simp [reaches, h]

/-- What is reached is there, and it does not stop the traversal. -/
theorem exists_at?_of_reaches {t : Tree} {p : Place} (h : t.reaches stop p = true) :
    ∃ u, t.at? p = some u ∧ stop u = false := by
  induction p generalizing t with
  | nil => exact ⟨t, rfl, reaches_nil.mp h⟩
  | cons i p ih =>
      obtain ⟨-, w, hw, hp⟩ := reaches_cons.mp h
      obtain ⟨u, hu, hs⟩ := ih hp
      exact ⟨u, at?_cons_eq_some.mpr ⟨w, hw, hu⟩, hs⟩

/-- A traversal comes to a place by way of each place in front of it. -/
theorem reaches_append {t : Tree} {p q : Place} :
    t.reaches stop (p ++ q) = true ↔
      t.reaches stop p = true ∧ ∃ u, t.at? p = some u ∧ u.reaches stop q = true := by
  induction p generalizing t with
  | nil =>
      rw [List.nil_append, reaches_nil]
      constructor
      · intro h
        refine ⟨?_, t, rfl, h⟩
        cases q with
        | nil => exact reaches_nil.mp h
        | cons i q => exact (reaches_cons.mp h).1
      · rintro ⟨-, u, hu, h⟩
        cases hu
        exact h
  | cons i p ih =>
      rw [List.cons_append, reaches_cons, reaches_cons]
      constructor
      · rintro ⟨hs, w, hw, h⟩
        obtain ⟨hp, u, hu, hq⟩ := ih.mp h
        exact ⟨⟨hs, w, hw, hp⟩, u, at?_cons_eq_some.mpr ⟨w, hw, hu⟩, hq⟩
      · rintro ⟨⟨hs, w, hw, hp⟩, u, hu, hq⟩
        obtain ⟨w', hw', hu'⟩ := at?_cons_eq_some.mp hu
        rw [hw] at hw'
        cases hw'
        exact ⟨hs, w, hw, ih.mpr ⟨hp, u, hu', hq⟩⟩

/-- A traversal that comes to a place comes to every place on the way. -/
theorem reaches_above {t : Tree} {p q : Place} (hp : p <+: q) (h : t.reaches stop q = true) :
    t.reaches stop p = true := by
  obtain ⟨r, rfl⟩ := hp
  exact (reaches_append.mp h).1

/-- Whether a tree is a node, and not a group of nodes or a child that is not there. -/
def isNode : Tree → Bool
  | .node _ _ _ => true
  | _ => false

/-- A traversal that stops nowhere looks at every node. -/
theorem any_eq_false_iff {P : Tree → Bool} (t : Tree) :
    t.any nowhere P = false ↔ t.Everywhere fun u => u.isNode = true → P u = false := by
  induction t using ind with
  | node o k ts ih =>
      rw [everywhere_iff, children_node, ← forall₂_congr ih, any_node_eq_false]
      simp [nowhere, isNode]
  | list ts ih =>
      rw [everywhere_iff, children_list, ← forall₂_congr ih, any_list_eq_false]
      simp [isNode]
  | absent =>
      rw [everywhere_iff]
      simp [any, isNode]

/-- A rule that has nothing to do anywhere changes nothing. -/
theorem mapUp_of_everywhere {Q : Tree → Prop} {f : Tree → Tree} (hf : ∀ u, Q u → f u = u) {t : Tree} (h : t.Everywhere Q) :
    t.mapUp stop f = t := by
  induction t using ind with
  | node o k ts ih =>
      rw [mapUp_node, List.map_congr_left fun c hc => ih c hc (h.child hc), List.map_id', hf _ h.here, ite_self]
  | list ts ih => rw [mapUp_list, List.map_congr_left fun c hc => ih c hc (h.child hc), List.map_id']
  | absent => rfl

/-- What is found at the outermost nodes is found somewhere. -/
theorem exists_of_mem_outermost {α : Type} {f : Tree → Option α} {a : α} {t : Tree}
    (h : a ∈ t.outermost stop f) : ∃ p u, t.at? p = some u ∧ f u = some a := by
  induction t using ind with
  | node o k ts ih =>
      rw [outermost_node] at h
      split at h
      · cases h
      · cases hf : f (node o k ts) with
        | some b =>
            rw [hf] at h
            obtain rfl := List.mem_singleton.mp h
            exact ⟨[], _, rfl, hf⟩
        | none =>
            rw [hf] at h
            obtain ⟨c, hc, h⟩ := List.mem_flatMap.mp h
            exact exists_at?_of_child hc (ih c hc h)
  | list ts ih =>
      rw [outermost_list] at h
      obtain ⟨c, hc, h⟩ := List.mem_flatMap.mp h
      exact exists_at?_of_child hc (ih c hc h)
  | absent => cases h

/-- A traversal comes to a node where `f` finds `a`. -/
def Finds {α : Type} (stop : Tree → Bool) (f : Tree → List α) (a : α) (t : Tree) : Prop :=
  ∃ p u, t.reaches stop p = true ∧ t.at? p = some u ∧ u.isNode = true ∧ a ∈ f u

/-- What a traversal finds, it finds at the node itself or in one of its children. -/
theorem finds_iff {α : Type} {f : Tree → List α} {a : α} {t : Tree} :
    t.Finds stop f a ↔
      stop t = false ∧ ((t.isNode = true ∧ a ∈ f t) ∨ ∃ c ∈ t.children, c.Finds stop f a) := by
  constructor
  · rintro ⟨p, u, hr, hu, hn, ha⟩
    cases p with
    | nil =>
        cases hu
        exact ⟨reaches_nil.mp hr, .inl ⟨hn, ha⟩⟩
    | cons i p =>
        obtain ⟨hs, c, hi, hr⟩ := reaches_cons.mp hr
        rw [at?_cons_of_some hi] at hu
        exact ⟨hs, .inr ⟨c, List.mem_of_getElem? hi, p, u, hr, hu, hn, ha⟩⟩
  · rintro ⟨hs, ⟨hn, ha⟩ | ⟨c, hc, p, u, hr, hu, hn, ha⟩⟩
    · exact ⟨[], t, reaches_nil.mpr hs, rfl, hn, ha⟩
    · obtain ⟨i, hi⟩ := List.mem_iff_getElem?.mp hc
      exact ⟨i :: p, u, reaches_cons.mpr ⟨hs, c, hi, hr⟩, at?_cons_eq_some.mpr ⟨c, hi, hu⟩, hn, ha⟩

/-- What a traversal collects is what it finds at the nodes it comes to. -/
theorem mem_collect_iff {α : Type} {f : Tree → List α} {a : α} (hlist : ∀ ts, stop (.list ts) = false)
    (t : Tree) : a ∈ t.collect stop f ↔ t.Finds stop f a := by
  induction t using ind with
  | node o k ts ih =>
      rw [finds_iff, children_node, ← exists_congr fun c => and_congr_right (ih c), collect_node]
      split
      next hs => simp [hs]
      next hs => simp [hs, isNode]
  | list ts ih =>
      rw [finds_iff, children_list, ← exists_congr fun c => and_congr_right (ih c), collect_list]
      simp [hlist, isNode]
  | absent =>
      rw [finds_iff]
      simp [collect, isNode]

end Reaches

end Tree

/-- The node of the module at a place; the first number is that of the item. -/
def Module.at? (m : Module) (p : Place) : Option Tree := (Tree.list m.items).at? p

end FormCodemod
