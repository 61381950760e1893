import FormCodemod.Proofs.Convert.Capabilities
import FormCodemod.Proofs.Convert.Parts
import FormCodemod.Proofs.Convert.Reads
import FormCodemod.Proofs.Scope.Treated

/-!
# Trees that a tag has gone from

A pass that takes all elements with a tag out of a scope can do so if each of them stands alone (`Tree.Alone`). What it
leaves is settled (`Tree.Settled`): no such element belongs to the scope, those in further components are alone as before,
and functions nest no deeper than they did.

Settled trees are put together from settled trees (`settled_node`), and stay so when reads of the form state are
converted (`Settled.convertReads`). `settled_mapDown` is for rules that replace the elements with the tag.
-/

namespace FormCodemod

/-- Kinds that are no level of nesting, open no scope and have no tag, whatever their children are. -/
@[simp, reducible] def Kind.isNeutral : Kind → Bool
  | .part (.function _ _) => false
  | .part (.declarator _) => false
  | .expr (.arrow _) => false
  | .markup (.element _ _) => false
  | .stmt (.func _) => false
  | _ => true

namespace Tree

variable {x : String} {n n' : Nat} {o : Origin} {k : Kind} {t t' c : Tree} {ts : List Tree} {f : Tree → Option Tree}

/-! ## Elements that stand alone -/

theorem not_isTagged_of_not_isNode (u : Tree) (h : u.isNode = false) : u.opensScope = false ∧ u.isTagged x = false := by
  cases u with
  | node o k ts => cases h
  | list ts => exact ⟨rfl, rfl⟩
  | absent => exact ⟨rfl, rfl⟩

/-- A tree holds no element with the tag if it is another component's, or is none and no
child holds one. -/
theorem holds_eq_false_iff :
    t.holds x = false ↔ t.opensScope = true ∨ t.isTagged x = false ∧ ∀ c ∈ t.children, c.holds x = false :=
  any_eq_false_iff_child not_isTagged_of_not_isNode

theorem holds_child (hopens : t.opensScope = false) (h : t.holds x = false) (hc : c ∈ t.children) : c.holds x = false := by
  rcases holds_eq_false_iff.mp h with hopens' | ⟨-, hchildren⟩
  · rw [hopens] at hopens'
    cases hopens'
  · exact hchildren c hc

/-- If it is an element with the tag, then it is no value of an attribute, and no other one is inside of it. -/
def Alone (x : String) (t : Tree) : Prop :=
  ∀ e : Element, t = e.toTree → e.tag? = some x → e.asValue = false ∧ ∀ c ∈ t.children, c.holds x = false

/-- What is no element with the tag counts as alone. -/
theorem alone_of_isTagged (h : t.isTagged x = false) : t.Alone x := by
  rintro e rfl htag
  simp [isTagged, htag] at h

/-- If all elements with the tag are alone and those that are stop a traversal, it finds none. -/
theorem any_isTagged_of_alone {stop : Tree → Bool} (hstop : ∀ u : Tree, u.isTagged x = true → u.Alone x → stop u = true)
    (h : t.Everywhere (Alone x)) : t.any stop (isTagged x) = false := by
  induction t using ind with
  | node o k ts ih =>
      rw [any_node_eq_false]
      cases htag : (node o k ts).isTagged x with
      | false => exact .inr ⟨rfl, fun t ht => ih t ht (h.child ht)⟩
      | true => exact .inl (hstop _ htag h.here)
  | list ts ih => exact any_list_eq_false.mpr fun t ht => ih t ht (h.child ht)
  | absent => rfl

/-- No element with the tag belongs to the tree, those in further components are alone, and nothing nests deeper
than `n`. -/
structure Settled (x : String) (n : Nat) (t : Tree) : Prop where
  alone : t.Everywhere (Alone x)
  holds : t.holds x = false
  nesting : t.nesting ≤ n

namespace Settled

theorem mono (h : t.Settled x n) (hn : n ≤ n') : t.Settled x n' := ⟨h.alone, h.holds, Nat.le_trans h.nesting hn⟩

theorem child (hopens : t.opensScope = false) (h : t.Settled x n) (hc : c ∈ t.children) : c.Settled x n :=
  ⟨h.alone.child hc, holds_child hopens h.holds hc, Nat.le_trans (nesting_le_of_mem hc) h.nesting⟩

/-- A node without the tag around settled trees, which may be one level more. -/
theorem parent (htag : t.isTagged x = false) (hlevel : t.isLevel = true → n + 1 ≤ n') (hn : n ≤ n')
    (h : ∀ c ∈ t.children, c.Settled x n) : t.Settled x n' := by
  refine ⟨everywhere_iff.mpr ⟨alone_of_isTagged htag, fun c hc => (h c hc).alone⟩,
    holds_eq_false_iff.mpr (.inr ⟨htag, fun c hc => (h c hc).holds⟩), nesting_le_iff.mpr ?_⟩
  cases hl : t.isLevel with
  | false => exact ⟨Nat.zero_le _, fun c hc => Nat.le_trans (h c hc).nesting hn⟩
  | true =>
      have hlt := hlevel hl
      refine ⟨Nat.le_trans (Nat.le_add_left 1 n) hlt, fun c hc => ?_⟩
      exact Nat.le_trans (Nat.add_le_add_right (h c hc).nesting 1) hlt

end Settled

theorem opensScope_of_isNeutral (h : k.isNeutral = true) : (node o k ts).opensScope = false := by
  rw [opensScope_node]
  unfold Outline.opens
  split
  · cases h
  · cases h
  · rfl

theorem isTagged_of_isNeutral (h : k.isNeutral = true) : (node o k ts).isTagged x = false := by
  rw [isTagged_node]
  unfold Outline.tagged
  split
  · cases h
  · rfl

theorem isLevel_of_isNeutral (h : k.isNeutral = true) : (node o k ts).isLevel = false := by
  show k.isLevel = false
  unfold Kind.isLevel
  split
  · cases h
  · cases h
  · cases h
  · rfl

@[simp] theorem settled_node (hk : k.isNeutral = true) : (node o k ts).Settled x n ↔ ∀ c ∈ ts, c.Settled x n := by
  refine ⟨fun h c hc => h.child (opensScope_of_isNeutral hk) hc, fun h => ?_⟩
  refine Settled.parent (isTagged_of_isNeutral hk) (fun hl => ?_) (Nat.le_refl n) h
  rw [isLevel_of_isNeutral hk] at hl
  cases hl

@[simp] theorem settled_list : (list ts).Settled x n ↔ ∀ c ∈ ts, c.Settled x n :=
  ⟨fun h _ hc => h.child rfl hc, fun h => Settled.parent rfl (fun hl => nomatch hl) (Nat.le_refl n) h⟩

@[simp] theorem settled_absent : absent.Settled x n :=
  Settled.parent rfl (fun hl => nomatch hl) (Nat.le_refl n) fun _ h => nomatch h

theorem isNeutral_of_isBasic (h : k.isBasic = true) : k.isNeutral = true := by
  unfold Kind.isBasic at h
  split at h <;> first | rfl | cases h

/-- For most nodes it is enough that the children are settled. -/
theorem settled_hereditary (x : String) (n : Nat) : Hereditary (Settled x n) where
  node hk := settled_node (isNeutral_of_isBasic hk)
  list := settled_list
  absent := settled_absent

/-! ## Rules that keep trees settled -/

/-- The same node around settled children, which show no difference to it. -/
theorem settled_withChildren {ts' : List Tree} (htag : t.isTagged x = false)
    (houtlines : ts'.map outline = t.children.map outline)
    (h : List.Forall₂ (fun c c' => c'.Settled x c.nesting) t.children ts') :
    (t.withChildren ts').Settled x t.nesting := by
  have hmem : ∀ c' ∈ (t.withChildren ts').children, ∃ n, c'.Settled x n := by
    intro c' hc'
    rw [children_withChildren h.length_eq.symm] at hc'
    obtain ⟨c, -, hc⟩ := forall₂_exists_left h hc'
    exact ⟨c.nesting, hc⟩
  have htag' : (t.withChildren ts').isTagged x = false := (isTagged_withChildren houtlines).trans htag
  refine ⟨everywhere_iff.mpr ⟨alone_of_isTagged htag', fun c' hc' => ?_⟩,
    holds_eq_false_iff.mpr (.inr ⟨htag', fun c' hc' => ?_⟩), ?_⟩
  · obtain ⟨n, hc⟩ := hmem c' hc'
    exact hc.alone
  · obtain ⟨n, hc⟩ := hmem c' hc'
    exact hc.holds
  · exact nestsWithin_congruence.parent (h.imp fun _ _ h => h.nesting)

/-- A rule that puts settled trees in, and leaves no element with the tag out, settles a tree. -/
theorem settled_mapDown (hf : ∀ t t', f t = some t' → t'.outline = t.outline) (hnode : ∀ u, u.isNode = false → f u = none)
    (halone : t.Everywhere (Alone x)) (hleft : t.any (fun u => u.opensScope || (f u).isSome) (isTagged x) = false)
    (hrule : ∀ p u u', t.FindsFirst opensScope f p u' → t.at? p = some u → u'.Settled x u.nesting) :
    (t.mapDown opensScope f).Settled x t.nesting := by
  have hstop : ∀ u : Tree, u.isNode = false → (u.opensScope || (f u).isSome) = false ∧ u.isTagged x = false := by
    intro u hu
    obtain ⟨hopens, htag⟩ := not_isTagged_of_not_isNode u hu
    rw [hopens, hnode u hu]
    exact ⟨rfl, htag⟩
  induction t using childInd with
  | h t ih =>
      by_cases hopens : t.opensScope = true
      · have hsame : t.mapDown opensScope f = t := by
          cases t with
          | node o k ts => rw [mapDown_node, if_pos hopens]
          | list ts => cases hopens
          | absent => cases hopens
        rw [hsame]
        exact ⟨halone, holds_eq_false_iff.mpr (.inl hopens), Nat.le_refl _⟩
      · rw [Bool.not_eq_true] at hopens
        cases hfu : f t with
        | some t' =>
            have hroot : t.FindsFirst opensScope f [] t' := (findsFirst_iff_root hopens hfu).mpr ⟨rfl, rfl⟩
            have hplace := hroot.at?_mapDown hnode
            rw [Option.some.inj hplace]
            exact hrule [] t t' hroot rfl
        | none =>
            rw [any_eq_false_iff_child hstop, hopens, hfu] at hleft
            obtain ⟨htag, hleft⟩ := hleft.resolve_left Bool.false_ne_true
            rw [mapDown_eq_withChildren hopens hfu]
            refine settled_withChildren htag ?_ ?_
            · exact map_outline_mapDown hf opensScope t.children
            · rw [List.forall₂_map_right_iff]
              refine List.forall₂_same.mpr fun c hc => ih c hc (halone.child hc) (hleft c hc) ?_
              -- what is found first below a child is found first below its parent
              intro p u u' hfinds hu
              obtain ⟨i, hi⟩ := List.mem_iff_getElem?.mp hc
              exact hrule (i :: p) u u' ((findsFirst_iff_child hopens hfu).mpr ⟨i, p, c, rfl, hi, hfinds⟩)
                (at?_cons_eq_some.mpr ⟨c, hi, hu⟩)

/-- What a read becomes is made from names. -/
theorem settled_of_readIn? {p : Tree} (h : p.readIn? t = some t') : t'.Settled x n := by
  rcases readIn?_eq_some h with ⟨y, -, h⟩ | h
  · obtain ⟨key, -, rfl | ⟨member, rfl⟩⟩ := flatRead?_eq_some h
    · simp [Make.ident]
    · simp [Make.member, Make.ident, Make.key]
  · obtain ⟨-, -, -, member, -, -, rfl⟩ := handlerRead?_eq_some h
    simp [Make.member, Make.ident, Make.key]

/-- A traversal that stops more often finds nothing else. -/
theorem any_eq_false_of_stop {stop stop' P : Tree → Bool} (hstop : ∀ u, stop u = true → stop' u = true)
    (h : t.any stop P = false) : t.any stop' P = false := by
  induction t using ind with
  | node o k ts ih =>
      rw [any_node_eq_false] at h ⊢
      rcases h with hs | ⟨hp, hts⟩
      · exact .inl (hstop _ hs)
      · exact .inr ⟨hp, fun t ht => ih t ht (hts t ht)⟩
  | list ts ih =>
      rw [any_list_eq_false] at h ⊢
      exact fun t ht => ih t ht (h t ht)
  | absent => rfl

/-- Where a rule finds nothing, a traversal finds all that it finds if the rule stops it. -/
theorem any_eq_false_of_outermost {α : Type} {g : Tree → Option α} {stop P : Tree → Bool} (hnone : t.outermost stop g = [])
    (h : t.any (fun u => stop u || (g u).isSome) P = false) : t.any stop P = false := by
  induction t using ind with
  | node o k ts ih =>
      rw [outermost_node] at hnone
      rw [any_node_eq_false] at h ⊢
      cases hs : stop (node o k ts) with
      | true => exact .inl rfl
      | false =>
          rw [hs, if_neg Bool.false_ne_true] at hnone
          cases hg : g (node o k ts) with
          | some a =>
              rw [hg] at hnone
              cases hnone
          | none =>
              rw [hg, Option.elim_none, List.flatMap_eq_nil_iff] at hnone
              rw [hs, hg] at h
              obtain ⟨hp, hts⟩ := h.resolve_left Bool.false_ne_true
              exact .inr ⟨hp, fun t ht => ih t ht (hnone t ht) (hts t ht)⟩
  | list ts ih =>
      rw [outermost_list, List.flatMap_eq_nil_iff] at hnone
      rw [any_list_eq_false] at h ⊢
      exact fun t ht => ih t ht (hnone t ht) (h t ht)
  | absent => rfl

theorem readIn?_of_not_isNode (p u : Tree) (h : u.isNode = false) : p.readIn? u = none := by
  rw [Option.eq_none_iff_forall_not_mem]
  intro u' hu'
  obtain ⟨⟨o, k, ts, rfl⟩, -⟩ := expr_of_readIn? hu'
  cases h

/-- To convert reads keeps a tree settled. -/
theorem Settled.convertReads (h : t.Settled x n) (p : Tree) : (p.convertReads t).Settled x n := by
  rw [convertReads_eq_mapDown]
  refine (settled_mapDown (fun _ _ => outline_readIn?) (readIn?_of_not_isNode p) h.alone ?_ ?_).mono h.nesting
  · exact any_eq_false_of_stop (fun u hu => by rw [hu, Bool.true_or]) h.holds
  · rintro q u u' ⟨-, ⟨v, -, hv⟩, -⟩ -
    exact settled_of_readIn? hv

/-- A body is settled exactly if its statements are. -/
theorem settled_statements {body : Tree} : body.Settled x n ↔ ∀ t ∈ body.statements, t.Settled x n := by
  unfold statements statements?
  split
  · simp
  · simp [Make.ret]

/-! ## Walks -/

section Walk

open Observed (Gives)

variable {m : Type → Type} [Monad m] [Observed m] {f : ScopeKind → Tree → m Tree}

theorem opensScope_of_isFunction (h : t.isFunction = true) : t.opensScope = false := by
  have hannounces := announces_of_isFunction h
  rw [announces, Bool.or_eq_false_iff, Bool.or_eq_false_iff] at hannounces
  exact hannounces.1.1

/-- Treating the functions below a node puts no element into it that was not there. -/
theorem holds_withChildren {ts' : List Tree}
    (h : List.Forall₂ (fun c c' => SameToWalk c c' ∧ (c.holds x = false → c'.holds x = false)) t.children ts')
    (hno : t.holds x = false) : (t.withChildren ts').holds x = false := by
  have houtlines := map_eq_of_forall₂ (h.imp fun _ _ h => h.1.outline)
  rw [holds_eq_false_iff] at hno ⊢
  rw [opensScope_withChildren houtlines, isTagged_withChildren houtlines, children_withChildren h.length_eq.symm]
  refine hno.imp_right fun hno => ⟨hno.1, fun c' hc' => ?_⟩
  obtain ⟨c, hc, -, hholds⟩ := forall₂_exists_left h hc'
  exact hholds (hno.2 c hc)

/-- A walk leaves a tree without the tag, if nothing is done with bodies that are: those of further components do not
matter. -/
theorem walkable_holds (hf : ∀ k body s body' s', body.holds x = false → Gives (f k body) s body' s' → body' = body) :
    Walkable f fun t _ t' _ => SameToWalk t t' ∧ (t.holds x = false → t'.holds x = false) := by
  have hsame := walkable_sameToWalk f
  refine ⟨fun t s => ⟨hsame.refl t s, id⟩, fun hfun hts => ?_, fun {t t₁ ts' s s₁ s'} hfun ht hts => ?_⟩
  · exact ⟨hsame.parent hfun (hts.imp fun _ _ _ _ _ h => h.1), holds_withChildren (hts.forall₂ fun _ _ _ _ _ h => h)⟩
  · refine ⟨hsame.function hfun ht (hts.imp fun _ _ _ _ _ h => h.1), fun hno => ?_⟩
    have hfirst : t₁ = t := by
      rcases ht with ⟨rfl, -⟩ | ht
      · rfl
      · refine onBody_eq_self ht fun k body s body' s' hbody hgives => ?_
        exact hf k body s body' s' (holds_child (opensScope_of_isFunction hfun) hno (List.mem_of_getElem? hbody)) hgives
    subst hfirst
    exact holds_withChildren (hts.forall₂ fun _ _ _ _ _ h => h) hno

end Walk

end Tree

/-! ## Made code -/

section Made

open FormCodemod.Tree (Settled)

variable {x : String} {n : Nat} {o : Origin} {e p t : Tree} {ps attrs : List Tree}

/-- A made arrow function nests one level deeper than its body. -/
theorem Make.settled_arrow (hps : ∀ p ∈ ps, p.Settled x n) (he : e.Settled x n) : (arrow ps e).Settled x (n + 1) := by
  refine Settled.parent (n := n) rfl (fun _ => Nat.le_refl _) (Nat.le_succ n) ?_
  simpa [arrow] using ⟨hps, he⟩

theorem Make.settled_constFrom (hp : p.Settled x n) (he : e.Settled x n) : (constFrom o p e).Settled x n := by
  have hdeclarator : (Tree.part .made (.declarator false) [p, e]).Settled x n :=
    Settled.parent rfl (fun h => nomatch h) (Nat.le_refl n) (by simpa using ⟨hp, he⟩)
  simpa [constFrom] using hdeclarator

@[simp] theorem Make.settled_binding {y : String} : (binding y).Settled x n := by simp [binding]

@[simp] theorem Make.settled_member {y : String} : (member e y).Settled x n ↔ e.Settled x n := by simp [member, key]

@[simp] theorem Make.settled_ident {y : String} : (ident y).Settled x n := by simp [ident]

@[simp] theorem Make.settled_object : (object ps).Settled x n ↔ ∀ p ∈ ps, p.Settled x n := by simp [object]

@[simp] theorem Make.settled_keyValue {y : String} : (keyValue y e).Settled x n ↔ e.Settled x n := by simp [keyValue, key]

theorem Setting.settled_param (s : Setting) (y type : String) (b : Bool) : (s.param y type b).Settled x n := by
  unfold param
  split
  · simp [Make.typedParam, Make.keywordType]
  · exact Make.settled_binding

namespace Capabilities

theorem settled_setter (s : Setting) (y : String) {update : Tree} (h : update.Settled x n) :
    (setter s y update).Settled x (n + 1) := by
  refine Make.settled_constFrom Make.settled_binding (Make.settled_arrow ?_ ?_)
  · simp [Setting.settled_param]
  · simp [Make.call, Make.name, Make.doubleNot, h]

/-- Helpers hold no elements, and one level of functions. -/
theorem settled_helpers (c : Capabilities) (s : Setting) (form : String) : ∀ t ∈ c.helpers s form, t.Settled x (n + 1) := by
  refine forall_mem_helpers (fun y _ => ?values) (fun y _ => ⟨?direct, ?bound⟩) ?update ?fieldset (fun y _ => ?touched)
    fun y _ => ?submitting
  case values => exact Make.settled_constFrom Make.settled_binding (by simp)
  case direct => exact settled_setter s y (by simp)
  case bound => exact settled_setter s y (by simp)
  case update => exact Make.settled_constFrom Make.settled_binding (by simp)
  case fieldset => exact Make.settled_constFrom Make.settled_binding (by simp [Make.methodCall, Make.call])
  case touched =>
    refine Make.settled_constFrom Make.settled_binding (Make.settled_arrow ?_ (by simp [Make.block]))
    simp [Setting.settled_param]
  case submitting => exact Make.settled_constFrom Make.settled_binding (by simp [Make.bool])

theorem settled_wholeHelper (uses : List Use) (whole : Option String) : ∀ t ∈ wholeHelper uses whole, t.Settled x n :=
  forall_mem_wholeHelper (fun _ _ => Make.settled_constFrom Make.settled_binding Make.settled_ident) uses

end Capabilities

/-! ## Attributes -/

/-- An element without the tag has it neither as the value of an attribute nor as an expression. -/
theorem Tree.Settled.asExpr (h : t.Settled x n) : t.asExpr.Settled x n := by
  unfold Tree.asExpr
  split
  next o s b ts =>
    have htag := ((Tree.holds_eq_false_iff.mp h.holds).resolve_left (by exact Bool.false_ne_true)).1
    have htag' : (Tree.markup o (.element s false) ts).isTagged x = false := by
      rw [Tree.isTagged_node] at htag ⊢
      unfold Outline.tagged at htag ⊢
      split
      next heq =>
        rw [heq] at htag
        exact htag
      next => rfl
    refine ⟨Tree.everywhere_iff.mpr ⟨Tree.alone_of_isTagged htag', fun c hc => h.alone.child hc⟩,
      Tree.holds_eq_false_iff.mpr (.inr ⟨htag', fun c hc => (h.child rfl hc).holds⟩), ?_⟩
    have hnesting := h.nesting
    rw [Tree.nesting] at hnesting ⊢
    exact hnesting
  next => exact h

/-- What settled attributes say is settled. -/
theorem Attrs.settled_value {y : String} (h : ∀ a ∈ attrs, a.Settled x n) (he : (value y attrs).toExpr? = some e) :
    e.Settled x n := by
  have hQ := Tree.settled_hereditary x n
  exact (holds_value hQ.carried fun a ha _ => (hQ.attrValue (h a ha)).asExpr).toExpr? hQ.carried he

end Made

end FormCodemod
