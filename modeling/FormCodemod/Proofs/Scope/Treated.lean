import FormCodemod.Proofs.Scope.Runs
import FormCodemod.Proofs.Tree.Outline

/-!
# Scopes of a walked module

A walk hands out scopes on its way, and the callback puts other bodies in their places, with other scopes inside of
them. `Module.functions_forEachScope` says of the functions whose bodies the walked module hands out that they were
treated: what the callback makes true of a function, and the rest of the walk does not break, holds of all of them.
`Module.handouts_forEachScope` is the case of what a callback makes true of bodies.

A walk stops after a number of levels that it takes from the size of the tree at the start. That is enough if there is a
depth that the callback makes smaller whenever it goes into a function (`Tree.TreatsFunctions`), such as how deep
functions nest (`Tree.nesting`). Elements count there as well, since a function may be moved out of an element and into
a new function.
-/

namespace FormCodemod

open Observed (Gives pure_inv bind_inv)

/-- A computation that is known to leave `up'` ends with it in every run. -/
theorem Leaves.gives {m : Type → Type} [Monad m] [LawfulMonad m] [Observed m] {α : Type} {x : ScopeM m α}
    {up up' up₁ : Bool} {a : α} {s s' : Symbols} (hx : Leaves x up up') (h : Gives (x.run up) s (a, up₁) s') :
    up₁ = up' := by
  rw [hx, map_eq_pure_bind] at h
  obtain ⟨r, s₁, -, h⟩ := bind_inv h
  exact (Prod.mk.inj (pure_inv h).1).2

/-! ## Nesting -/

def Kind.isLevel : Kind → Bool
  | .part (.function _ _) => true
  | .expr (.arrow _) => true
  | .markup (.element _ _) => true
  | _ => false

namespace Tree

variable {t t' c : Tree} {ts ts' : List Tree}

def isLevel : Tree → Bool
  | .node _ k _ => k.isLevel
  | _ => false

mutual

def nesting : Tree → Nat
  | t@(.node _ _ ts) => nestingAll ts + if t.isLevel then 1 else 0
  | .list ts => nestingAll ts
  | .absent => 0

def nestingAll : List Tree → Nat
  | [] => 0
  | t :: ts => max t.nesting (nestingAll ts)

end

/-- Trees nest at most `n` deep together if each of them does. -/
theorem nestingAll_le_iff {n : Nat} : nestingAll ts ≤ n ↔ ∀ t ∈ ts, t.nesting ≤ n := by
  induction ts with
  | nil => simp [nestingAll]
  | cons t ts ih => rw [nestingAll, Nat.max_le, ih, List.forall_mem_cons]

/-- A node nests as deep as its children, and one deeper if it is counted itself. -/
theorem nesting_le_iff {n : Nat} :
    t.nesting ≤ n ↔ (if t.isLevel then 1 else 0) ≤ n ∧ ∀ c ∈ t.children, c.nesting + (if t.isLevel then 1 else 0) ≤ n := by
  cases t with
  | node o k ts =>
      rw [nesting, children_node]
      constructor
      · intro h
        refine ⟨by omega, fun c hc => ?_⟩
        have := nestingAll_le_iff.mp (Nat.le_refl (nestingAll ts)) c hc
        omega
      · rintro ⟨hroot, hchildren⟩
        have : nestingAll ts ≤ n - if (node o k ts).isLevel then 1 else 0 :=
          nestingAll_le_iff.mpr fun c hc => by have := hchildren c hc; omega
        omega
  | list ts => simp [nesting, nestingAll_le_iff, isLevel]
  | absent => simp [nesting, isLevel]

theorem nesting_le_of_mem (h : c ∈ t.children) : c.nesting ≤ t.nesting :=
  Nat.le_trans (Nat.le_add_right ..) ((nesting_le_iff.mp (Nat.le_refl t.nesting)).2 c h)

theorem nesting_lt_of_mem (hlevel : t.isLevel = true) (h : c ∈ t.children) : c.nesting < t.nesting := by
  have := (nesting_le_iff.mp (Nat.le_refl t.nesting)).2 c h
  rw [if_pos hlevel] at this
  exact this

/-- A part of a tree nests at most as deep as the tree. -/
theorem nesting_le_of_at? {q : Place} {u : Tree} (h : t.at? q = some u) : u.nesting ≤ t.nesting := by
  induction q generalizing t with
  | nil =>
      cases h
      exact Nat.le_refl _
  | cons i q ih =>
      obtain ⟨c, hc, hu⟩ := at?_cons_eq_some.mp h
      exact Nat.le_trans (ih hu) (nesting_le_of_mem (List.mem_of_getElem? hc))

theorem nesting_le_size (t : Tree) : t.nesting ≤ t.size := by
  induction t using childInd with
  | h t ih =>
      rw [size_eq, nesting_le_iff]
      refine ⟨by split <;> omega, fun c hc => ?_⟩
      have := Nat.le_trans (ih c hc) (size_le_of_mem hc)
      split <;> omega

/-- Changes that do not make functions and elements nest deeper. -/
def NestsWithin (t t' : Tree) : Prop := t'.nesting ≤ t.nesting

/-- Changes below a node that do not add nesting add none to the node. -/
theorem nestsWithin_congruence : Congruence NestsWithin where
  refl _ := Nat.le_refl _
  trans h h' := Nat.le_trans h' h
  parent {t ts'} h := by
    have hlevel : (t.withChildren ts').isLevel = t.isLevel := by
      cases t with
      | node o k ts => rfl
      | list ts => rfl
      | absent => rfl
    refine nesting_le_iff.mpr ⟨?_, fun c' hc' => ?_⟩
    · rw [hlevel]
      exact (nesting_le_iff.mp (Nat.le_refl t.nesting)).1
    · rw [children_withChildren h.length_eq.symm] at hc'
      obtain ⟨c, hc, hle⟩ := forall₂_exists_left h hc'
      have := (nesting_le_iff.mp (Nat.le_refl t.nesting)).2 c hc
      rw [hlevel]
      exact Nat.le_trans (Nat.add_le_add_right hle _) this

/-! ## What a walk leaves as it is -/

/-- What a walk asks of a node itself does not depend on its children. -/
theorem walkKinds_withChildren (t : Tree) (ts' : List Tree) :
    (t.withChildren ts').isFunction = t.isFunction ∧ (t.withChildren ts').retracts = t.retracts ∧
      (t.withChildren ts').isClass = t.isClass := by
  cases t with
  | node o k ts =>
      cases k with
      | part k => cases k <;> exact ⟨rfl, rfl, rfl⟩
      | expr k => cases k <;> exact ⟨rfl, rfl, rfl⟩
      | item k => cases k <;> exact ⟨rfl, rfl, rfl⟩
      | _ => exact ⟨rfl, rfl, rfl⟩
  | list ts => exact ⟨rfl, rfl, rfl⟩
  | absent => exact ⟨rfl, rfl, rfl⟩

theorem isLevel_of_isFunction (h : t.isFunction = true) : t.isLevel = true := by
  unfold isFunction at h
  split at h
  · rfl
  · rfl
  · cases h

/-- The trees are the same to a walk, but for what is inside of functions. -/
structure SameToWalk (t t' : Tree) : Prop where
  outline : t'.outline = t.outline
  clears : t'.clears = t.clears
  isAbsent : t'.isAbsent = t.isAbsent

theorem any_clears_of_forall₂ (h : List.Forall₂ SameToWalk ts ts') : ts'.any clears = ts.any clears := by
  have := map_eq_of_forall₂ (h.imp fun _ _ h => h.clears)
  simpa [List.any_map, Function.comp_def] using congrArg (List.any · id) this

/-- A node is the same to a walk if its children are. -/
theorem sameToWalk_congruence : Congruence SameToWalk where
  refl _ := ⟨rfl, rfl, rfl⟩
  trans h h' := ⟨h'.outline.trans h.outline, h'.clears.trans h.clears, h'.isAbsent.trans h.isAbsent⟩
  parent {t ts'} h := by
    have hclears := any_clears_of_forall₂ h
    refine ⟨outline_withChildren (map_eq_of_forall₂ (h.imp fun _ _ h => h.outline)), ?_, ?_⟩
    · cases t with
      | node o k ts =>
          obtain ⟨hfunction, hretracts, -⟩ := walkKinds_withChildren (node o k ts) ts'
          rw [withChildren] at hfunction hretracts ⊢
          rw [clears_node, clears_node, hclears, hfunction, hretracts, children_node]
      | list ts =>
          rw [withChildren, clears_list, clears_list, hclears]
          rfl
      | absent => rfl
    · cases t <;> rfl

/-- A function looks the same from outside, whatever it holds. -/
theorem sameToWalk_of_isFunction (h : t.isFunction = true) (ts' : List Tree) : SameToWalk t (t.withChildren ts') := by
  unfold isFunction at h
  split at h
  next o isAsync isGenerator ts =>
    refine ⟨?_, ?_, rfl⟩
    · rw [withChildren, outline_node, outline_node]
      rfl
    · simp [withChildren, clears_node, isFunction]
  next o isAsync ts =>
    refine ⟨?_, ?_, rfl⟩
    · rw [withChildren, outline_node, outline_node]
      rfl
    · simp [withChildren, clears_node, isFunction]
  next => cases h

/-! ## Callbacks that treat scopes -/

section Treats

variable {m : Type → Type} [Monad m] [Observed m] {f : ScopeKind → Tree → m Tree} {Fit Good : Tree → Prop}

/-- A callback makes `Good` true of every body, and the rest of the walk does not break it. It is handed trees that are
`Fit`, and gives trees back that are. -/
structure Treats (f : ScopeKind → Tree → m Tree) (Fit Good : Tree → Prop) : Prop where
  child {t c : Tree} : Fit t → c ∈ t.children → Fit c
  body {k : ScopeKind} {body body' : Tree} {s s' : Symbols} : Fit body → Gives (f k body) s body' s' →
    Fit body' ∧ Good body' ∧ body'.nesting ≤ body.nesting
  walked {n : Nat} {t t' : Tree} {s s' : Symbols} : Fit t → Good t → Gives (walk f n true t) s t' s' → Good t'

/-- A walk below a function may make the second tree of the first one. -/
def Walked (f : ScopeKind → Tree → m Tree) (t t' : Tree) : Prop := ∃ n s s', Gives (walk f n true t) s t' s'

/-- A callback makes `Good` true of every function whose body it is handed, and the rest of the walk does not break it. It
is handed trees that are `Fit`, and gives trees back that are and that are less deep than the function. -/
structure TreatsFunctions (f : ScopeKind → Tree → m Tree) (depth : Tree → Nat) (Fit Good : Tree → Prop) : Prop where
  child {t c : Tree} : Fit t → c ∈ t.children → Fit c
  depth_le {t c : Tree} : c ∈ t.children → depth c ≤ depth t
  depth_lt {t c : Tree} : t.isFunction = true → c ∈ t.children → depth c < depth t
  body {t : Tree} {k : ScopeKind} {body body' : Tree} {s s' : Symbols} : Fit t → t.scopeBody? = some (k, body) →
    Gives (f k body) s body' s' → Fit body' ∧ depth body' < depth t ∧ Good (t.withChildren (t.children.set 1 body'))
  walked {t : Tree} {ts' : List Tree} : (∀ c ∈ t.children, Fit c) → Good t →
    List.Forall₂ (Walked f) t.children ts' → Good (t.withChildren ts')

variable {depth : Tree → Nat}

/-- What is below a function is fit and less deep, also where its body was treated. -/
theorem TreatsFunctions.below {t₁ c : Tree} {s s₁ : Symbols} (hf : TreatsFunctions f depth Fit Good)
    (hfunction : t.isFunction = true) (hfit : Fit t) (h : Gives (onBody f t) s t₁ s₁ ∨ t₁ = t) (hc : c ∈ t₁.children) :
    Fit c ∧ depth c < depth t := by
  have hown : ∀ {c : Tree}, c ∈ t.children → Fit c ∧ depth c < depth t :=
    fun hc => ⟨hf.child hfit hc, hf.depth_lt hfunction hc⟩
  rcases h with h | rfl
  · rcases onBody_inv h with ⟨rfl, -, -⟩ | ⟨k, body, body', hscope, hgives, rfl⟩
    · exact hown hc
    · obtain ⟨hfit', hdepth, -⟩ := hf.body hfit hscope hgives
      rw [children_withChildren List.length_set] at hc
      rcases List.mem_or_eq_of_mem_set hc with hc | rfl
      · exact hown hc
      · exact ⟨hfit', hdepth⟩
  · exact hown hc

end Treats

/-! ## Taking a walk apart -/

section Walk

variable {m : Type → Type} [Monad m] [Observed m] {f : ScopeKind → Tree → m Tree}

/-- Whatever is done with the bodies, a walk finds the same announcements afterwards. -/
theorem walkable_sameToWalk (f : ScopeKind → Tree → m Tree) : Walkable f fun t _ t' _ => SameToWalk t t' :=
  sameToWalk_congruence.walkable fun hscope _ => sameToWalk_of_isFunction (isFunction_of_scopeBody? hscope) _

variable [LawfulMonad m]

/-- The walks through the members of a run start with what is left of the announcement. What one of them leaves needs to
be known only where no more is announced than at the start: inside of functions nothing ever is. -/
theorem mapM_run_inv {g : Tree → ScopeM m Tree} {up up' : Bool} {s s' : Symbols}
    (hg : ∀ t ∈ ts, ∀ b, (b = true → up = true) → Leaves (g t) b (b && !t.clears))
    (h : Gives ((ts.mapM g).run up) s (ts', up') s') {i : Nat} (hi : ts'[i]? = some t') :
    ∃ t up₁ s₁ s₂, ts[i]? = some t ∧ Gives ((g t).run (up && !(ts.take i).any clears)) s₁ (t', up₁) s₂ := by
  induction ts generalizing up up' s ts' i with
  | nil =>
      rw [List.mapM_nil] at h
      cases (pure_inv h).1
      cases hi
  | cons t ts ih =>
      rw [List.mapM_cons, StateT.run_bind] at h
      obtain ⟨⟨u, up₁⟩, s₁, hu, h⟩ := bind_inv h
      obtain rfl := (hg t (List.mem_cons_self ..) up id).gives hu
      rw [StateT.run_bind] at h
      obtain ⟨⟨us, up₂⟩, s₂, hus, h⟩ := bind_inv h
      obtain ⟨heq, rfl⟩ := pure_inv h
      cases heq
      cases i with
      | zero =>
          cases hi
          exact ⟨t, _, s, s₁, rfl, by simpa using hu⟩
      | succ i =>
          have hrest : ∀ u ∈ ts, ∀ b, (b = true → (up && !t.clears) = true) → Leaves (g u) b (b && !u.clears) :=
            fun u hu b hb => hg u (List.mem_cons_of_mem _ hu) b fun htrue => ((Bool.and_eq_true ..).mp (hb htrue)).1
          obtain ⟨c, up₃, s₃, s₄, hc, hgives⟩ := ih hrest hus hi
          exact ⟨c, up₃, s₃, s₄, hc, by simpa [Bool.and_assoc] using hgives⟩

theorem forall₂_four {R : Tree → Tree → Prop} {a b c d : Tree} (h : List.Forall₂ R ts [a, b, c, d]) :
    ∃ a' b' c' d', ts = [a', b', c', d'] ∧ R b' b := by
  obtain ⟨a', ts₁, -, h₁, rfl⟩ := List.forall₂_cons_right_iff.mp h
  obtain ⟨b', ts₂, hb, h₂, rfl⟩ := List.forall₂_cons_right_iff.mp h₁
  obtain ⟨c', ts₃, -, h₃, rfl⟩ := List.forall₂_cons_right_iff.mp h₂
  obtain ⟨d', ts₄, -, h₄, rfl⟩ := List.forall₂_cons_right_iff.mp h₃
  cases h₄
  exact ⟨a', b', c', d', rfl, hb⟩

/-- The functions with a body. -/
theorem scopeBody?_eq_some {k : ScopeKind} {body : Tree} :
    t.scopeBody? = some (k, body) ↔
      (k = .function ∧ body.isAbsent = false ∧ ∃ o a g ps tps r, t = .part o (.function a g) [ps, body, tps, r]) ∨
      (k = .arrow ∧ ∃ o a ps tps r, t = .expr o (.arrow a) [ps, body, tps, r]) := by
  constructor
  · intro h
    unfold scopeBody? at h
    split at h
    · split at h
      · cases h
      · next hbody =>
          cases h
          exact .inl ⟨rfl, (Bool.not_eq_true _).mp hbody, _, _, _, _, _, _, rfl⟩
    · cases h
      exact .inr ⟨rfl, _, _, _, _, _, rfl⟩
    · cases h
  · rintro (⟨rfl, hbody, o, a, g, ps, tps, r, rfl⟩ | ⟨rfl, o, a, ps, tps, r, rfl⟩)
    · rw [scopeBody?, hbody]
      rfl
    · rfl

/-- The body that is put into a function is its body then. -/
theorem scopeBody?_set {b : ScopeKind × Tree} {k : ScopeKind} {body body' : Tree} (h : t.scopeBody? = some b)
    (h' : (t.withChildren (t.children.set 1 body')).scopeBody? = some (k, body)) : body = body' := by
  have hplace := children_of_scopeBody? h'
  have hlength := (List.getElem?_eq_some_iff.mp (children_of_scopeBody? h)).1
  rw [children_withChildren List.length_set, List.getElem?_set_self hlength] at hplace
  exact (Option.some.inj hplace).symm

/-- A function without a body has none either when its children were walked. -/
theorem scopeBody?_withChildren (hnone : t.scopeBody? = none) (h : List.Forall₂ SameToWalk t.children ts') :
    (t.withChildren ts').scopeBody? = none := by
  cases t with
  | node o k ts =>
      rw [children_node] at h
      unfold scopeBody?
      split
      next ps' body' tps' r' heq =>
        cases heq
        obtain ⟨ps, body, tps, r, rfl, hbody⟩ := forall₂_four h
        have habsent : body.isAbsent = true := by simpa [scopeBody?] using hnone
        rw [if_pos (hbody.isAbsent.trans habsent)]
      next ps' body' tps' r' heq =>
        cases heq
        obtain ⟨ps, body, tps, r, rfl, -⟩ := forall₂_four h
        cases hnone
      next => rfl
  | list ts => rfl
  | absent => rfl

/-- A walk inside of a function, which may have been treated before. -/
theorem enter_inv {deeper : Tree → ScopeM m Tree} {inside up up' : Bool} {s s' : Symbols}
    (h : Gives ((enter f deeper inside t).run up) s (t', up') s') :
    ∃ t₁ s₁ ts', ((up || !inside) = true ∧ Gives (onBody f t) s t₁ s₁ ∨ (up || !inside) = false ∧ t₁ = t) ∧
      Gives ((t₁.children.mapM deeper).run false) s₁ (ts', up') s' ∧ t' = t₁.withChildren ts' := by
  have hrun : (enter f deeper inside t).run up = (if up || !inside then onBody f t else pure t) >>= fun t₁ =>
      (t₁.children.mapM deeper).run false >>= fun r => pure (t₁.withChildren r.1, r.2) := by
    cases up <;> cases inside <;> simp [enter]
  rw [hrun] at h
  obtain ⟨t₁, s₁, hfirst, h⟩ := bind_inv h
  obtain ⟨⟨ts', up₁⟩, s₂, hts, h⟩ := bind_inv h
  obtain ⟨heq, rfl⟩ := pure_inv h
  cases heq
  refine ⟨t₁, s₁, ts', ?_, hts, rfl⟩
  by_cases hscope : (up || !inside) = true
  · rw [if_pos hscope] at hfirst
    exact .inl ⟨hscope, hfirst⟩
  · rw [if_neg hscope] at hfirst
    exact .inr ⟨(Bool.not_eq_true _).mp hscope, (pure_inv hfirst).1⟩

/-- A walk inside of a node that is no function. -/
theorem walkTo_node_inv {enter : Bool → Tree → ScopeM m Tree} {inside up up' : Bool} {s s' : Symbols} {o : Origin}
    {k : Kind} (hf : (node o k ts).isFunction = false)
    (h : Gives ((walkTo enter inside (node o k ts)).run up) s (t', up') s') :
    ∃ ts' up₁, t' = node o k ts' ∧
      Gives ((ts.mapM (walkTo enter (inside || (node o k ts).isClass))).run (up || (node o k ts).announces)) s
        (ts', up₁) s' := by
  have hrun : (walkTo enter inside (node o k ts)).run up =
      (ts.mapM (walkTo enter (inside || (node o k ts).isClass))).run (up || (node o k ts).announces) >>= fun r =>
        pure (node o k r.1, !(node o k ts).retracts && r.2) := by
    rw [walkTo, if_neg (by simp [hf]), walkAllTo_eq_mapM]
    cases (node o k ts).announces <;> cases (node o k ts).retracts <;> simp
  rw [hrun] at h
  obtain ⟨⟨ts', up₁⟩, s₁, hts, h⟩ := bind_inv h
  obtain ⟨heq, rfl⟩ := pure_inv h
  cases heq
  exact ⟨ts', up₁, rfl, hts⟩

/-! ## Treated scopes -/

section Handouts

variable {Fit Good : Tree → Prop} {inside up up' : Bool} {s s' : Symbols} {n : Nat}

/-- What holds of every walk holds of the walks through the members of a run. -/
theorem forall₂_mapM {R : Tree → Tree → Prop} {g : Tree → ScopeM m Tree}
    (h : Gives ((ts.mapM g).run up) s (ts', up') s') (hg : ∀ t ∈ ts, ∀ s t' s', Gives (g t) s t' s' → R t t') :
    List.Forall₂ R ts ts' := by
  have hgives : Gives (ts.mapM g) s ts' s' := ⟨up, up', h⟩
  exact (Observed.mapM_inv hgives).forall₂ hg

/-- One level of a walk leaves a tree that is the same to it. -/
theorem sameToWalk_walkTo {t t' : Tree} {s s' : Symbols}
    (h : Gives (walkTo (enter f (walk f n true)) inside t) s t' s') : SameToWalk t t' :=
  walk_gives (n := n + 1) (walkable_sameToWalk f) h

/-- The body is handed out from a function that is good. -/
def GoodAt (Good : Tree → Prop) (t : Tree) (h : Handout) : Prop :=
  ∃ u, t.at? h.place = some u ∧ u.scopeBody? = some (h.kind, h.body) ∧ Good u

/-- The scopes of a run of trees that are walked one after the other are those of its members. -/
theorem handoutsAll_mapM {g : Tree → ScopeM m Tree} (ht' : t'.children = ts')
    (hleaves : ∀ t ∈ ts, ∀ b, (b = true → up = true) → Leaves (g t) b (b && !t.clears))
    (hsame : List.Forall₂ SameToWalk ts ts')
    (ih : ∀ t ∈ ts, ∀ {up up' s t' s'}, Gives ((g t).run up) s (t', up') s' → ∀ h ∈ t'.handouts inside up, GoodAt Good t' h)
    (h : Gives ((ts.mapM g).run up) s (ts', up') s') : ∀ h ∈ handoutsAll inside up 0 ts', GoodAt Good t' h := by
  intro b hb
  obtain ⟨j, c', b', hj, rfl, hb'⟩ := mem_handoutsAll.mp hb
  obtain ⟨t, up₁, s₁, s₂, ht, hgives⟩ := mapM_run_inv hleaves h hj
  rw [any_clears_of_forall₂ (List.forall₂_take j hsame)] at hb'
  obtain ⟨u, hu, hscope, hgood⟩ := ih t (List.mem_of_getElem? ht) hgives b' hb'
  rw [← ht', ← Nat.zero_add j] at hj
  exact ⟨u, at?_cons_eq_some.mpr ⟨c', hj, hu⟩, hscope, hgood⟩

/-- One level of a walk, given that the scopes in its functions are treated. -/
theorem handouts_walkTo {depth : Tree → Nat} (hchild : ∀ {t c : Tree}, Fit t → c ∈ t.children → Fit c)
    (hdepth : ∀ {t c : Tree}, c ∈ t.children → depth c ≤ depth t)
    (henter : ∀ {t t' : Tree} {inside up up' : Bool} {s s' : Symbols}, t.isFunction = true → depth t ≤ n → Fit t →
      Gives ((enter f (walk f n true) inside t).run up) s (t', up') s' → ∀ h ∈ t'.handouts inside up, GoodAt Good t' h)
    (hn : depth t ≤ n) (hfit : Fit t)
    (h : Gives ((walkTo (enter f (walk f n true)) inside t).run up) s (t', up') s') :
    ∀ h ∈ t'.handouts inside up, GoodAt Good t' h := by
  induction t using ind generalizing inside up up' s t' s' with
  | node o k ts ih =>
      by_cases hf : (node o k ts).isFunction = true
      · rw [walkTo, if_pos hf] at h
        exact henter hf hn hfit h
      · rw [Bool.not_eq_true] at hf
        obtain ⟨ts', up₁, rfl, hts⟩ := walkTo_node_inv hf h
        have hsame := forall₂_mapM hts fun _ _ _ _ _ h => sameToWalk_walkTo h
        obtain ⟨hfunction, -, hclass⟩ := walkKinds_withChildren (node o k ts) ts'
        rw [withChildren] at hfunction hclass
        -- the node announces as before, since its children keep their outlines
        have hannounces : (node o k ts').announces = (node o k ts).announces :=
          announces_withChildren (t := node o k ts) (map_eq_of_forall₂ (hsame.imp fun _ _ h => h.outline))
        rw [handouts, hfunction, hf, if_neg Bool.false_ne_true, hclass, hannounces]
        refine handoutsAll_mapM rfl (fun t _ b _ => walkTo_walk_leaves n _ t b) hsame ?_ hts
        intro t ht up up' s t' s' h
        exact ih t ht (Nat.le_trans (hdepth (by exact ht)) hn) (hchild hfit ht) h
  | list ts ih =>
      rw [walkTo, walkAllTo_eq_mapM, StateT.run_bind] at h
      obtain ⟨⟨ts', up₁⟩, s₁, hts, h⟩ := bind_inv h
      obtain ⟨heq, rfl⟩ := pure_inv h
      cases heq
      have hsame := forall₂_mapM hts fun _ _ _ _ _ h => sameToWalk_walkTo h
      refine handoutsAll_mapM rfl (fun t _ b _ => walkTo_walk_leaves n _ t b) hsame ?_ hts
      intro t ht up up' s t' s' h
      exact ih t ht (Nat.le_trans (hdepth (by exact ht)) hn) (hchild hfit ht) h
  | absent =>
      rw [walkTo] at h
      obtain ⟨heq, -⟩ := pure_inv h
      cases heq
      intro b hb
      cases hb

variable {depth : Tree → Nat}

/-- A function that was handed out is good when its children were walked. -/
theorem TreatsFunctions.own {t₁ : Tree} {s₁ : Symbols} {b : ScopeKind × Tree} (hf : TreatsFunctions f depth Fit Good)
    (hfit : ∀ c ∈ t₁.children, Fit c) (ht : Fit t) (h : Gives (onBody f t) s t₁ s₁)
    (hts : Gives ((t₁.children.mapM (walk f n true)).run false) s₁ (ts', up') s')
    (hscope : (t₁.withChildren ts').scopeBody? = some b) : Good (t₁.withChildren ts') := by
  have hwalked : List.Forall₂ (Walked f) t₁.children ts' := forall₂_mapM hts fun _ _ s _ s' h => ⟨n, s, s', h⟩
  rcases onBody_inv h with ⟨rfl, -, hnone⟩ | ⟨k, body, body', hbody, hgives, rfl⟩
  · have hsame := hwalked.imp fun _ _ ⟨_, _, _, h⟩ => walk_gives (walkable_sameToWalk f) h
    rw [scopeBody?_withChildren hnone hsame] at hscope
    cases hscope
  · exact hf.walked hfit (hf.body ht hbody hgives).2.2 hwalked

/-- Behind a walk, all functions whose bodies are handed out are treated. -/
theorem handouts_walk (hf : TreatsFunctions f depth Fit Good) (hn : depth t < n) (hfit : Fit t)
    (h : Gives ((walk f n inside t).run up) s (t', up') s') : ∀ h ∈ t'.handouts inside up, GoodAt Good t' h := by
  induction n generalizing t t' inside up up' s s' with
  | zero => cases hn
  | succ n ih =>
      rw [walk] at h
      refine handouts_walkTo hf.child hf.depth_le ?_ (Nat.le_of_lt_succ hn) hfit h
      intro t t' inside up up' s s' hfunction hn hfit h
      obtain ⟨t₁, s₁, ts', hfirst, hts, rfl⟩ := enter_inv h
      -- the bodies below are handed out by the next level, for which one number less is left
      have hbelow : ∀ c ∈ t₁.children, Fit c ∧ depth c < n := by
        intro c hc
        obtain ⟨hc, hlt⟩ := hf.below hfunction hfit (hfirst.imp And.right And.right) hc
        exact ⟨hc, Nat.lt_of_lt_of_le hlt hn⟩
      have hfunction₁ : t₁.isFunction = true := by
        rcases hfirst with ⟨-, hfirst⟩ | ⟨-, rfl⟩
        · rcases onBody_inv hfirst with ⟨rfl, -, -⟩ | ⟨k, body, body', -, -, rfl⟩
          · exact hfunction
          · exact (walkKinds_withChildren t _).1.trans hfunction
        · exact hfunction
      cases t₁ with
      | node o k ts =>
          have hfunction' : (node o k ts').isFunction = true :=
            (walkKinds_withChildren (node o k ts) ts').1.trans hfunction₁
          rw [withChildren, handouts, if_pos hfunction']
          intro b hb
          rcases List.mem_append.mp hb with hb | hb
          · rcases hfirst with ⟨hscope, hfirst⟩ | ⟨hscope, -⟩
            · rw [if_pos hscope] at hb
              obtain ⟨⟨kind, body⟩, hbody, rfl⟩ := List.mem_map.mp hb
              rw [Option.mem_toList] at hbody
              exact ⟨_, rfl, hbody, hf.own (fun c hc => (hbelow c hc).1) hfit hfirst hts hbody⟩
            · rw [if_neg (by rw [hscope]; exact Bool.false_ne_true)] at hb
              cases hb
          · have hsame := forall₂_mapM hts fun _ _ _ _ _ h => walk_gives (walkable_sameToWalk f) h
            refine handoutsAll_mapM rfl (fun c _ => walk_leaves_inside n c) hsame ?_ hts b hb
            intro c hc up up' s c' s' h
            exact ih (hbelow c hc).2 (hbelow c hc).1 h
      | list ts => cases hfunction₁
      | absent => cases hfunction₁

/-- A function whose children were walked has a body that a walk made of its body. -/
theorem scopeBody?_walked {b : ScopeKind × Tree} (hwalked : List.Forall₂ (Walked f) t.children ts')
    (h : (t.withChildren ts').scopeBody? = some b) : ∃ k body, t.scopeBody? = some (k, body) ∧ Walked f body b.2 := by
  have hsame := hwalked.imp fun _ _ ⟨_, _, _, h⟩ => walk_gives (walkable_sameToWalk f) h
  cases hscope : t.scopeBody? with
  | none =>
      rw [scopeBody?_withChildren hscope hsame] at h
      cases h
  | some b₀ =>
      have hbody' := children_of_scopeBody? h
      rw [children_withChildren hwalked.length_eq.symm] at hbody'
      obtain ⟨hlt, hb⟩ := List.getElem?_eq_some_iff.mp (children_of_scopeBody? hscope)
      obtain ⟨hlt', hb'⟩ := List.getElem?_eq_some_iff.mp hbody'
      have hwalk := hwalked.get hlt hlt'
      rw [List.get_eq_getElem, List.get_eq_getElem, hb, hb'] at hwalk
      exact ⟨b₀.1, b₀.2, rfl, hwalk⟩

/-- What holds of treated bodies holds of the bodies of treated functions. -/
theorem Treats.functions (hf : Treats f Fit Good) :
    TreatsFunctions f nesting Fit fun t => ∀ k body, t.scopeBody? = some (k, body) → Good body where
  child := hf.child
  depth_le := nesting_le_of_mem
  depth_lt hfunction := nesting_lt_of_mem (isLevel_of_isFunction hfunction)
  body {t k body body' s s'} hfit hscope hgives := by
    have hbody := List.mem_of_getElem? (children_of_scopeBody? hscope)
    obtain ⟨hfit', hgood, hnesting⟩ := hf.body (hf.child hfit hbody) hgives
    have hlt := nesting_lt_of_mem (isLevel_of_isFunction (isFunction_of_scopeBody? hscope)) hbody
    refine ⟨hfit', Nat.lt_of_le_of_lt hnesting hlt, fun k' body₁ hscope₁ => ?_⟩
    obtain rfl := scopeBody?_set hscope hscope₁
    exact hgood
  walked {t ts'} hfit hgood hwalked k' body' hscope' := by
    obtain ⟨k, body, hscope, n, s, s', hwalk⟩ := scopeBody?_walked hwalked hscope'
    exact hf.walked (hfit _ (List.mem_of_getElem? (children_of_scopeBody? hscope))) (hgood _ _ hscope) hwalk

end Handouts

end Walk

end Tree

namespace Module

variable {μ : Type → Type} [Monad μ] [LawfulMonad μ] [Observed μ] {f : ScopeKind → Tree → μ Tree}

/-- All functions whose bodies a walked module hands out are treated. -/
theorem functions_forEachScope {depth : Tree → Nat} {Fit Good : Tree → Prop}
    (hf : Tree.TreatsFunctions f depth Fit Good) (hdepth : ∀ t : Tree, depth t ≤ t.size) {m m' : Module} {s s' : Symbols}
    (hfit : ∀ t ∈ m.items, Fit t) (h : Gives (m.forEachScope f) s m' s') :
    ∀ h ∈ m'.handouts, Tree.GoodAt Good (.list m'.items) h := by
  obtain ⟨items', rfl, hitems⟩ := forEachScope_inv h
  intro b hb
  obtain ⟨j, t', b', hj, rfl, hb'⟩ := Tree.mem_handoutsAll.mp hb
  rw [Bool.false_and] at hb'
  have hpairs : List.Forall₂ (fun t t' => ∃ s s', Gives (itemScopes f t) s t' s') m.items items' :=
    hitems.forall₂ fun t _ s t' s' h => ⟨s, s', h⟩
  obtain ⟨t, ht, s₁, s₂, hscopes⟩ := forall₂_exists_left hpairs (List.mem_of_getElem? hj)
  obtain ⟨⟨u, up⟩, s₃, hwalk, hpure⟩ := bind_inv hscopes
  obtain ⟨rfl, rfl⟩ := pure_inv hpure
  obtain ⟨v, hv, hscope, hgood⟩ := Tree.handouts_walk hf (Nat.lt_succ_of_le (hdepth t)) (hfit t ht) hwalk b' hb'
  rw [← Nat.zero_add j] at hj
  exact ⟨v, Tree.at?_cons_eq_some.mpr ⟨_, hj, hv⟩, hscope, hgood⟩

/-- All scopes of a walked module are treated. -/
theorem handouts_forEachScope {Fit Good : Tree → Prop} (hf : Tree.Treats f Fit Good) {m m' : Module} {s s' : Symbols}
    (hfit : ∀ t ∈ m.items, Fit t) (h : Gives (m.forEachScope f) s m' s') : ∀ h ∈ m'.handouts, Good h.body := by
  intro b hb
  obtain ⟨u, -, hscope, hgood⟩ := functions_forEachScope hf.functions Tree.nesting_le_size hfit h b hb
  exact hgood _ _ hscope

end Module

end FormCodemod
