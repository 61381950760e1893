import FormCodemod.Proofs.Scope.Handouts

/-!
# What belongs to which scope

A pass works on one handed out body and leaves the components declared in it alone, so the nodes
it can change are those its traversal comes to (`Handout.Owns`). This module compares what
the walk hands out with what a traversal leaves alone, which are two different tests:

* `Module.owns_overlap_iff`: bodies are handed out once and from the outside in, and two of
  them share a node exactly where a default export inside the outer one announced the inner one.
  A traversal does not stop there.
* `Module.skipped_owned_iff`: what a declaration that is left alone holds belongs to some other body
  exactly where the function around it is the one the walk takes for the component's.
-/

namespace FormCodemod

/-! ## Owned places -/

namespace Handout

/-- A traversal of the body that leaves nested components alone comes to the place. -/
def Owns (h : Handout) (q : Place) : Prop :=
  ∃ r, q = h.bodyPlace ++ r ∧ h.body.reaches Tree.opensScope r = true

/-- A traversal of the body comes to the declaration `d` at the place and leaves it alone. -/
def Skips (h : Handout) (q : Place) (d : Tree) : Prop :=
  ∃ r, q = h.bodyPlace ++ r ∧ h.body.at? r = some d ∧ d.opensScope = true ∧
    ∀ p, p <+: r → p ≠ r → h.body.reaches Tree.opensScope p = true

variable {h h' : Handout} {p q : Place}

theorem place_le_bodyPlace (h : Handout) : h.place <+: h.bodyPlace := ⟨[1], rfl⟩

/-- What is owned is in the body. -/
theorem Owns.bodyPlace_le (hq : h.Owns q) : h.bodyPlace <+: q := by
  obtain ⟨r, rfl, -⟩ := hq
  exact ⟨r, rfl⟩

/-- On the way to an owned place everything inside the body is owned. -/
theorem Owns.above (hq : h.Owns q) (hb : h.bodyPlace <+: p) (hp : p <+: q) : h.Owns p := by
  obtain ⟨r, rfl, hr⟩ := hq
  obtain ⟨s, rfl⟩ := hb
  exact ⟨s, rfl, Tree.reaches_above ((List.prefix_append_right_inj _).mp hp) hr⟩

/-- Of two bodies that own the same place, the one that is handed out first holds the other. -/
theorem Owns.bodyPlace_le_place (hq : h.Owns q) (hq' : h'.Owns q) (hb : h.Before h') :
    h.bodyPlace <+: h'.place := by
  rcases List.prefix_or_prefix_of_prefix hq.bodyPlace_le hq'.bodyPlace_le with hp | hp
  · rcases List.prefix_concat_iff.mp hp with heq | hp
    · exact absurd (List.append_inj_left' heq rfl ▸ List.prefix_rfl) hb
    · exact hp
  · rcases List.prefix_concat_iff.mp hp with heq | hp
    · exact absurd (List.append_inj_left' heq rfl ▸ List.prefix_rfl) hb
    · exact absurd (h'.place_le_bodyPlace.trans hp) hb

end Handout

namespace Tree

/-! ## Announcements along a place -/

/-- Default exports that announce a function. -/
def exportsFunction (t : Tree) : Bool := t.isDefaultFunction || t.isDefaultFunctionLike

/-- What announces a function but does not open a scope is a default export. -/
theorem exportsFunction_of_announces {t : Tree} (h : t.announces = true) (hs : t.opensScope = false) :
    t.exportsFunction = true := by
  simpa [announces, exportsFunction, hs] using h

/-- A declaration of a component is no function itself. -/
theorem isFunction_of_opensScope {t : Tree} (h : t.opensScope = true) : t.isFunction = false := by
  rw [← Bool.not_eq_true]
  intro hf
  have ha := announces_of_isFunction hf
  simp [announces, h] at ha

/-- An announcement that is still up at a place is up everywhere on the way. -/
theorem keepsUp_append {t : Tree} {p q : Place} (h : t.keepsUp (p ++ q) = true) :
    ∃ u, t.at? p = some u ∧ u.keepsUp q = true := by
  induction p generalizing t with
  | nil => exact ⟨t, rfl, h⟩
  | cons i p ih =>
      obtain ⟨-, -, w, hw, hk⟩ := keepsUp_cons.mp h
      obtain ⟨u, hu, hk⟩ := ih hk
      exact ⟨u, at?_cons_eq_some.mpr ⟨w, hw, hu⟩, hk⟩

/-- What is at the top has nothing but top places around it. -/
theorem atTop_append {t : Tree} {p q : Place} (h : t.atTop (p ++ q) = true) :
    ∃ u, t.at? p = some u ∧ u.atTop q = true := by
  induction p generalizing t with
  | nil => exact ⟨t, rfl, h⟩
  | cons i p ih =>
      obtain ⟨-, -, w, hw, hk⟩ := atTop_cons.mp h
      obtain ⟨u, hu, hk⟩ := ih hk
      exact ⟨u, at?_cons_eq_some.mpr ⟨w, hw, hu⟩, hk⟩

/-- An announcement inside a tree does not depend on what is around the tree. -/
theorem Announced.below {t u : Tree} {p q : Place} (hu : t.at? p = some u) (h : u.Announced q) :
    t.Announced (p ++ q) := by
  obtain ⟨a, s, v, rfl, hs, hv, ha, hk⟩ := h
  exact ⟨p ++ a, s, v, (List.append_assoc ..).symm, hs, at?_append.mpr ⟨u, hu, hv⟩, ha, hk⟩

/-- A function below an announcing node is announced inside that node, if at all. -/
theorem Announced.within {t u : Tree} {p q : Place} (h : t.Announced (p ++ q)) (hu : t.at? p = some u)
    (ha : u.announces = true) (hq : q ≠ []) : u.Announced q := by
  obtain ⟨a, s, v, hp, hs, hv, hav, hk⟩ := h
  rcases List.append_eq_append_iff.mp hp with ⟨c, rfl, rfl⟩ | ⟨c, rfl, rfl⟩
  · -- the announcing node is below `u`
    obtain ⟨u', hu', hv⟩ := at?_append.mp hv
    rw [hu] at hu'
    cases hu'
    exact ⟨c, s, v, rfl, hs, hv, hav, hk⟩
  · -- it is above `u`, which then announces the function too
    obtain ⟨u', hu', hk⟩ := keepsUp_append hk
    have hvu : t.at? (a ++ c) = some u' := at?_append.mpr ⟨v, hv, hu'⟩
    rw [hu] at hvu
    cases hvu
    exact ⟨[], q, u, rfl, hq, rfl, ha, hk⟩

end Tree

namespace Module

/-! ## Handed out bodies in their module -/

variable {m : Module} {h h' : Handout} {p q : Place}

/-- What is handed out is the body of a function, for one of two reasons. -/
theorem mem_handouts {p : Place} {k : ScopeKind} {body : Tree} :
    ⟨p, k, body⟩ ∈ m.handouts ↔
      (∃ u, m.at? p = some u ∧ u.scopeBody? = some (k, body)) ∧
        ((Tree.list m.items).Announced p ∨ (Tree.list m.items).atTop p = true) := by
  rw [handouts, Tree.handsOutRightly]
  simp [at?, Tree.HandedOut]

/-- A handed out body is that of the function at its place in the module. -/
theorem exists_function_of_mem (hm : h ∈ m.handouts) :
    ∃ f, m.at? h.place = some f ∧ f.scopeBody? = some (h.kind, h.body) :=
  (mem_handouts.mp hm).1

/-- The body that is handed out stands at its place. -/
theorem at?_bodyPlace (hm : h ∈ m.handouts) : m.at? h.bodyPlace = some h.body := by
  obtain ⟨f, hf, hb⟩ := exists_function_of_mem hm
  have hf1 : f.at? [1] = some h.body :=
    Tree.at?_cons_eq_some.mpr ⟨h.body, Tree.children_of_scopeBody? hb, rfl⟩
  exact Tree.at?_append.mpr ⟨f, hf, hf1⟩

/-- Nothing in a body is at the top of the module. -/
theorem not_atTop_of_bodyPlace_le (hm : h ∈ m.handouts) (hp : h.bodyPlace <+: p) :
    (Tree.list m.items).atTop p = false := by
  obtain ⟨s, rfl⟩ := hp
  rw [Handout.bodyPlace, List.append_assoc, ← Bool.not_eq_true]
  intro ht
  obtain ⟨f, hf, hb⟩ := exists_function_of_mem hm
  obtain ⟨f', hf', ht⟩ := Tree.atTop_append ht
  cases hf.symm.trans hf'
  rw [List.singleton_append, Tree.atTop_cons, Tree.isFunction_of_scopeBody? hb] at ht
  exact Bool.noConfusion ht.1

/-- An announcement does not get past a function: if it is up inside a body, the node that makes it
is inside the body as well. -/
theorem bodyPlace_le_of_keepsUp {a s : Place} {u : Tree} (hm : h ∈ m.handouts) (hp : h.bodyPlace <+: a ++ s)
    (hu : m.at? a = some u) (hk : u.keepsUp s = true) : h.bodyPlace <+: a := by
  rcases List.prefix_or_prefix_of_prefix hp (List.prefix_append a s) with hp' | hp'
  · exact hp'
  rcases List.prefix_concat_iff.mp hp' with rfl | ⟨c, hc⟩
  · exact List.prefix_rfl
  -- otherwise the function of `h` is on the way from the announcing node
  obtain ⟨f, hf, hb⟩ := exists_function_of_mem hm
  obtain ⟨r, hr⟩ := hp
  rw [Handout.bodyPlace, ← hc, List.append_assoc, List.append_assoc, List.append_cancel_left_eq] at hr
  rw [← hr] at hk
  obtain ⟨f', hf', hk⟩ := Tree.keepsUp_append hk
  have hf'' : m.at? h.place = some f' := hc ▸ Tree.at?_append.mpr ⟨u, hu, hf'⟩
  cases hf.symm.trans hf''
  rw [List.singleton_append, Tree.keepsUp_cons, Tree.isFunction_of_scopeBody? hb] at hk
  exact Bool.noConfusion hk.1

/-- The body of a function in an owned region was announced by a default export in that region. -/
theorem exists_exportsFunction_of_owns (hm : h ∈ m.handouts) (hm' : h' ∈ m.handouts)
    (ho : h.Owns h'.place) :
    ∃ a u, h.Owns a ∧ m.at? a = some u ∧ u.exportsFunction = true ∧ a <+: h'.place := by
  have htop := not_atTop_of_bodyPlace_le hm ho.bodyPlace_le
  obtain ⟨-, hann | ht⟩ := mem_handouts.mp hm'
  · obtain ⟨a, s, u, hp, -, hu, ha, hk⟩ := hann
    have hle : h.bodyPlace <+: a := bodyPlace_le_of_keepsUp hm (hp ▸ ho.bodyPlace_le) hu hk
    have hoa : h.Owns a := ho.above hle ⟨s, hp.symm⟩
    refine ⟨a, u, hoa, hu, Tree.exportsFunction_of_announces ha ?_, ⟨s, hp.symm⟩⟩
    obtain ⟨r, rfl, hr⟩ := hoa
    obtain ⟨u', hu', hstop⟩ := Tree.exists_at?_of_reaches hr
    have : m.at? (h.bodyPlace ++ r) = some u' := Tree.at?_append.mpr ⟨_, at?_bodyPlace hm, hu'⟩
    cases hu.symm.trans this
    exact hstop
  · rw [htop] at ht
    cases ht

/-- An owned place is a node of the module that opens no scope. -/
theorem exists_at?_of_owns (hm : h ∈ m.handouts) (hq : h.Owns q) :
    ∃ u, m.at? q = some u ∧ u.opensScope = false := by
  obtain ⟨r, rfl, hr⟩ := hq
  obtain ⟨u, hu, hs⟩ := Tree.exists_at?_of_reaches hr
  exact ⟨u, Tree.at?_append.mpr ⟨_, at?_bodyPlace hm, hu⟩, hs⟩

/-- Where two bodies share a node, the one that is handed out later was announced by a default export
that belongs to the other. -/
theorem overlap_iff (hm : h ∈ m.handouts) (hm' : h' ∈ m.handouts) (hb : h.Before h') :
    (∃ q, h.Owns q ∧ h'.Owns q) ↔
      h.Owns h'.bodyPlace ∧
        ∃ a u, h.Owns a ∧ m.at? a = some u ∧ u.exportsFunction = true ∧ a <+: h'.place := by
  constructor
  · rintro ⟨q, hq, hq'⟩
    have hle : h.bodyPlace <+: h'.place := hq.bodyPlace_le_place hq' hb
    have ho : h.Owns h'.bodyPlace := hq.above (hle.trans h'.place_le_bodyPlace) hq'.bodyPlace_le
    exact ⟨ho, exists_exportsFunction_of_owns hm hm' (ho.above hle h'.place_le_bodyPlace)⟩
  · rintro ⟨ho, -⟩
    obtain ⟨b, hb', hs⟩ := exists_at?_of_owns hm ho
    cases (at?_bodyPlace hm').symm.trans hb'
    exact ⟨h'.bodyPlace, ho, [], (List.append_nil _).symm, Tree.reaches_nil.mpr hs⟩

/-- A traversal of a body looks at the nodes it owns, and at no others. -/
theorem mem_collect_body_iff (hm : h ∈ m.handouts) {α : Type} (f : Tree → List α) (a : α) :
    a ∈ h.body.collect Tree.opensScope f ↔
      ∃ q u, h.Owns q ∧ m.at? q = some u ∧ u.isNode = true ∧ a ∈ f u := by
  rw [Tree.mem_collect_iff (fun _ => rfl)]
  constructor
  · rintro ⟨r, u, hr, hu, hn, ha⟩
    exact ⟨h.bodyPlace ++ r, u, ⟨r, rfl, hr⟩, Tree.at?_append.mpr ⟨_, at?_bodyPlace hm, hu⟩, hn, ha⟩
  · rintro ⟨q, u, ⟨r, rfl, hr⟩, hu, hn, ha⟩
    obtain ⟨b, hb, hu⟩ := Tree.at?_append.mp hu
    cases (at?_bodyPlace hm).symm.trans hb
    exact ⟨r, u, hr, hu, hn, ha⟩

/-- The bodies of a module are handed out in order, outer ones before those inside of them. -/
theorem handouts_pairwise (m : Module) : m.handouts.Pairwise Handout.Before :=
  Tree.handouts_pairwise _ false false

/-- No body is handed out twice. -/
theorem places_nodup (m : Module) : (m.handouts.map Handout.place).Nodup := by
  rw [List.Nodup, List.pairwise_map]
  refine m.handouts_pairwise.imp ?_
  intro h h' hb heq
  exact hb (heq ▸ List.prefix_rfl)

/-- Handing out the scopes of a module to a callback that leaves the tree unchanged hands out each
body once, an outer one before those inside it. A body owns the nodes that a traversal which leaves
nested components alone looks at. Two bodies own a node in common exactly when the traversal of the
outer one comes to the inner one, and this takes a default export that the outer body owns. -/
theorem owns_overlap_iff (m : Module) :
    (∀ {μ : Type → Type} [Monad μ] [LawfulMonad μ] (act : ScopeKind → Tree → μ Unit),
      m.forEachScope (Tree.unchanged act) = (do Tree.performs act m.handouts; return m)) ∧
    (∀ h ∈ m.handouts, m.at? h.bodyPlace = some h.body ∧
      ∀ {α : Type} (f : Tree → List α) (a : α), a ∈ h.body.collect Tree.opensScope f ↔
        ∃ q u, h.Owns q ∧ m.at? q = some u ∧ u.isNode = true ∧ a ∈ f u) ∧
    (m.handouts.map Handout.place).Nodup ∧
    m.handouts.Pairwise (fun h h' => ¬ h'.place <+: h.place) ∧
    m.handouts.Pairwise fun h h' =>
      (∃ q, h.Owns q ∧ h'.Owns q) ↔
        h.Owns h'.bodyPlace ∧
          ∃ a u, h.Owns a ∧ m.at? a = some u ∧ u.exportsFunction = true ∧ a <+: h'.place := by
  refine ⟨fun act => forEachScope_unchanged act m, fun h hm => ⟨at?_bodyPlace hm, ?_⟩,
    places_nodup m, handouts_pairwise m, ?_⟩
  · intro α f a
    exact mem_collect_body_iff hm f a
  · exact m.handouts_pairwise.imp_of_mem fun hm hm' hb => overlap_iff hm hm' hb

/-- `function Outer() { namespace N { export default () => x; } }` -/
def exportInside : Module where
  origin := .made
  items := [.stmt .made (.func false) [Make.name "Outer", .part .made (.function false false) [.list [],
    Make.block [.stmt .made (.space false "namespace") [.list [Make.name "N"],
      .part .made .items [.item .made .exportDefaultExpr [Make.arrow [] (Make.ident "x")]]]],
    .absent, .absent]]]

/-- The variable `x` there is handed out twice, in the body of `Outer` and in that of the arrow. -/
theorem exportInside_overlaps :
    ∃ h h', exportInside.handouts = [h, h'] ∧
      exportInside.at? h'.bodyPlace = some (Make.ident "x") ∧ ∃ q, h.Owns q ∧ h'.Owns q := by
  refine ⟨_, _, rfl, rfl, ?_⟩
  have hdisjoint := exportInside.owns_overlap_iff.2.2.2.2
  refine ((List.pairwise_cons.mp hdisjoint).1 _ (List.mem_singleton.mpr rfl)).mpr ⟨?_, ?_⟩
  · exact ⟨[0, 1, 0, 0, 1], rfl, by decide⟩
  · exact ⟨[0, 1, 1, 0, 1, 0], _, ⟨[0, 1, 0], rfl, by decide⟩, rfl, rfl, ⟨[0], rfl⟩⟩

/-! ## Declarations that are left alone -/

/-- The declaration that is left alone stands at its place in the module. -/
theorem at?_of_skips {d : Tree} (hm : h ∈ m.handouts) (hs : h.Skips q d) : m.at? q = some d := by
  obtain ⟨r, rfl, hd, -⟩ := hs
  exact Tree.at?_append.mpr ⟨_, at?_bodyPlace hm, hd⟩

/-- Nothing inside a declaration that opens a scope is owned from outside it. -/
theorem place_le_of_owns {d : Tree} {s : Place} (hm : h ∈ m.handouts) (hd : m.at? p = some d)
    (ho : d.opensScope = true) (hq : h.Owns (p ++ s)) : p <+: h.place := by
  rcases List.prefix_or_prefix_of_prefix hq.bodyPlace_le (List.prefix_append p s) with hle | hle
  · obtain ⟨u, hu, hs⟩ := exists_at?_of_owns hm (hq.above hle (List.prefix_append p s))
    cases hd.symm.trans hu
    rw [ho] at hs
    cases hs
  · rcases List.prefix_concat_iff.mp hle with rfl | hle
    · obtain ⟨u, hu, hs⟩ := exists_at?_of_owns hm (hq.above List.prefix_rfl (List.prefix_append _ s))
      cases hd.symm.trans hu
      rw [ho] at hs
      cases hs
    · exact hle

/-- A node inside a declaration that the traversal of one body leaves alone belongs to another body
exactly when, in the declaration, the function around it is announced: it comes first of all
functions in the node that announces it, and no further component is declared between the
function and the node. -/
theorem skipped_owned_iff (m : Module) (h : Handout) (hm : h ∈ m.handouts) (p : Place) (d : Tree)
    (hs : h.Skips p d) (q : Place) :
    (∃ h' ∈ m.handouts, h' ≠ h ∧ h'.Owns (p ++ q)) ↔
      ∃ g f k body r, q = g ++ 1 :: r ∧ d.Announced g ∧ d.at? g = some f ∧
        f.scopeBody? = some (k, body) ∧ body.reaches Tree.opensScope r = true := by
  have hd : m.at? p = some d := at?_of_skips hm hs
  have hbody : h.bodyPlace <+: p := by
    obtain ⟨r, rfl, -⟩ := hs
    exact List.prefix_append ..
  have hopens : d.opensScope = true := by
    obtain ⟨r, -, -, ho, -⟩ := hs
    exact ho
  constructor
  · rintro ⟨h', hm', -, ho⟩
    obtain ⟨g, hg⟩ := place_le_of_owns hm' hd hopens ho
    obtain ⟨⟨f, hf, hb⟩, hann⟩ := mem_handouts.mp hm'
    have htop := not_atTop_of_bodyPlace_le hm (hbody.trans ⟨g, hg⟩)
    rw [htop, or_iff_left Bool.false_ne_true] at hann
    rw [← hg] at hann hf
    obtain ⟨d', hd', hf⟩ := Tree.at?_append.mp hf
    cases hd.symm.trans hd'
    -- the declaration itself is no function
    have hg0 : g ≠ [] := by
      rintro rfl
      cases hf
      cases (Tree.isFunction_of_scopeBody? hb).symm.trans (Tree.isFunction_of_opensScope hopens)
    obtain ⟨r, hq, hr⟩ := ho
    rw [Handout.bodyPlace, ← hg, List.append_assoc, List.append_assoc, List.append_cancel_left_eq] at hq
    exact ⟨g, f, h'.kind, h'.body, r, hq, hann.within hd (by simp [Tree.announces, hopens]) hg0, hf, hb, hr⟩
  · rintro ⟨g, f, k, body, r, rfl, hann, hf, hb, hr⟩
    have hmem : ⟨p ++ g, k, body⟩ ∈ m.handouts :=
      mem_handouts.mpr ⟨⟨f, Tree.at?_append.mpr ⟨d, hd, hf⟩, hb⟩, .inl (hann.below hd)⟩
    refine ⟨_, hmem, ?_, r, ?_, hr⟩
    · -- its body is further down than the one that is left
      rintro rfl
      have hlen := hbody.length_le
      simp only [Handout.bodyPlace, List.length_append, List.length_singleton] at hlen
      omega
    · simp [Handout.bodyPlace]

/-- `{ const Inner = connect(() => s)(() => <Field/>); }` -/
def curriedBody : Tree :=
  Make.block [Make.constNamed "Inner" (Make.call (Make.callNamed "connect" [Make.arrow [] (Make.ident "s")])
    [Make.arrow [] (Make.element "Field" [] [])])]

def curried : Module where
  origin := .made
  items := [.stmt .made (.func false) [Make.name "Outer",
    .part .made (.function false false) [.list [], curriedBody, .absent, .absent]]]

/-- The arrow that is handed out there is the one that `connect` is given, so the element in the other
one belongs to no body: the function around it is not announced. -/
theorem curried_element_not_owned :
    ∃ h ∈ curried.handouts, ∃ p d q, h.Skips p d ∧ d.at? q = some (Make.element "Field" [] []) ∧
      (¬ ∃ h' ∈ curried.handouts, h' ≠ h ∧ h'.Owns (p ++ q)) ∧
      ¬ ∃ g f k body r, q = g ++ 1 :: r ∧ d.Announced g ∧ d.at? g = some f ∧
        f.scopeBody? = some (k, body) ∧ body.reaches Tree.opensScope r = true := by
  let outer : Handout := ⟨[0, 1], .function, curriedBody⟩
  let inner : Handout := ⟨[0, 1, 1, 0, 0, 1, 0, 1, 0], .arrow, Make.ident "s"⟩
  have hall : curried.handouts = [outer, inner] := rfl
  have hmem : outer ∈ curried.handouts := hall ▸ List.mem_cons_self ..
  obtain ⟨d, hd⟩ : ∃ d, curriedBody.at? [0, 0] = some d := ⟨_, rfl⟩
  have hskips : outer.Skips [0, 1, 1, 0, 0] d := by
    refine ⟨[0, 0], rfl, hd, by cases hd; decide, ?_⟩
    rintro (_ | ⟨i, _ | ⟨j, p⟩⟩) hp hne
    · decide
    · obtain rfl : i = 0 := by simpa [List.cons_prefix_cons] using hp
      decide
    · simp_all [List.cons_prefix_cons]
  have hnone : ¬ ∃ h' ∈ curried.handouts, h' ≠ outer ∧ h'.Owns ([0, 1, 1, 0, 0] ++ [1, 1, 0, 1]) := by
    rw [hall]
    rintro ⟨h', hm', hne, ho⟩
    obtain rfl : h' = inner := by simpa [hne] using hm'
    have hle := ho.bodyPlace_le
    revert hle
    decide
  refine ⟨outer, hmem, [0, 1, 1, 0, 0], d, [1, 1, 0, 1], hskips, by cases hd; rfl, hnone, ?_⟩
  exact mt (skipped_owned_iff curried outer hmem [0, 1, 1, 0, 0] d hskips [1, 1, 0, 1]).mpr hnone

end Module

end FormCodemod
