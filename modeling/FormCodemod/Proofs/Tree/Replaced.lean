import FormCodemod.Proofs.Tree.Outermost
import FormCodemod.Proofs.Tree.Outline

/-!
# Trees in which nodes were replaced

`Tree.mapDown` replaces the outermost nodes that a rule has an answer for. Two replacements, one after the other, are
one (`mapDown_mapDown`), as long as the second rule does not tell a node from the same node with replaced nodes below
it.

The rules that look for a name or a member are of that sort where the nodes that change are of a sort that no shape of an
expression shows (`Rewrites`). Markup in the place of markup is the case of the passes that convert elements
(`RewritesMarkup`).
-/

namespace FormCodemod.Tree

variable {stop : Tree → Bool} {f g : Tree → Option Tree} {t : Tree} {x k : String}

/-! ## What is left as it is -/

theorem mapDown_of_none (hf : ∀ t, f t = none) (t : Tree) : t.mapDown stop f = t := by
  induction t using ind with
  | node o k ts ih => rw [mapDown_node, hf, List.map_congr_left ih, List.map_id', Option.getD_none, ite_self]
  | list ts ih => rw [mapDown_list, List.map_congr_left ih, List.map_id']
  | absent => rfl

/-! ## The places of what is put in -/

/-- A node that is no stop and has no replacement keeps its kind, around changed children. -/
theorem mapDown_eq_withChildren (hs : stop t = false) (hf : f t = none) :
    t.mapDown stop f = t.withChildren (t.children.map (mapDown stop f)) := by
  cases t with
  | node o k ts => rw [mapDown_node, hs, hf, if_neg Bool.false_ne_true, Option.getD_none, withChildren, children_node]
  | list ts => rw [mapDown_list, withChildren, children_list]
  | absent => rfl

/-- What is put in stands where the rule found something. -/
theorem FindsFirst.at?_mapDown (hnode : ∀ u, u.isNode = false → f u = none) {p : Place} {t a : Tree}
    (h : t.FindsFirst stop f p a) : (t.mapDown stop f).at? p = some a := by
  induction p generalizing t with
  | nil =>
      obtain ⟨u, hu, ha⟩ := h.found
      cases hu
      have hs := reaches_nil.mp h.reached
      cases t with
      | node o k ts => rw [mapDown_node, hs, ha, if_neg Bool.false_ne_true, Option.getD_some, at?_nil]
      | list ts => rw [hnode _ rfl] at ha; cases ha
      | absent => rw [hnode _ rfl] at ha; cases ha
  | cons i p ih =>
      have hs : stop t = false := (reaches_cons.mp h.reached).1
      have hf : f t = none := h.first [] List.nil_prefix (List.cons_ne_nil i p).symm t rfl
      obtain ⟨_, _, c, ⟨⟩, hc, hfinds⟩ := (findsFirst_iff_child hs hf).mp h
      refine at?_cons_eq_some.mpr ⟨c.mapDown stop f, ?_, ih hfinds⟩
      rw [mapDown_eq_withChildren hs hf, children_withChildren (List.length_map _), List.getElem?_map, hc]
      rfl

/-- A traversal comes to what is put in. -/
theorem FindsFirst.reaches_mapDown (hf : ∀ t t', f t = some t' → t'.outline = t.outline)
    (hnode : ∀ u, u.isNode = false → f u = none) {p : Place} {t a : Tree} (ha : a.opensScope = false)
    (h : t.FindsFirst opensScope f p a) : (t.mapDown opensScope f).reaches opensScope p = true := by
  induction p generalizing t with
  | nil =>
      have hroot := h.at?_mapDown hnode
      cases hroot
      exact reaches_nil.mpr ha
  | cons i p ih =>
      have hs : t.opensScope = false := (reaches_cons.mp h.reached).1
      have hnone : f t = none := h.first [] List.nil_prefix (List.cons_ne_nil i p).symm t rfl
      obtain ⟨_, _, c, ⟨⟩, hc, hfinds⟩ := (findsFirst_iff_child hs hnone).mp h
      have houtlines := map_outline_mapDown hf opensScope t.children
      rw [mapDown_eq_withChildren hs hnone]
      refine reaches_cons.mpr ⟨(isOutlined_opensScope t _ houtlines).trans hs, c.mapDown opensScope f, ?_, ih hfinds⟩
      rw [children_withChildren (List.length_map _), List.getElem?_map, hc]
      rfl

/-- What holds everywhere holds everywhere after a replacement too, if it holds everywhere in what is put in and passes from
a tree to what is made of it. -/
theorem everywhere_mapDown {Q : Tree → Prop} (hnew : ∀ t t', f t = some t' → t'.Everywhere Q)
    (hstay : ∀ t, Q t → Q (t.mapDown stop f)) {t : Tree} (h : t.Everywhere Q) : (t.mapDown stop f).Everywhere Q := by
  induction t using ind with
  | node o k ts ih =>
      have hhere := hstay _ h.here
      rw [mapDown_node] at hhere ⊢
      split
      · exact h
      · cases hf : f (node o k ts) with
        | some t' => exact hnew _ _ hf
        | none =>
            rw [if_neg ‹_›, hf] at hhere
            exact everywhere_iff.mpr ⟨hhere, List.forall_mem_map.mpr fun c hc => ih c hc (h.child hc)⟩
  | list ts ih =>
      have hhere := hstay _ h.here
      rw [mapDown_list] at hhere ⊢
      exact everywhere_iff.mpr ⟨hhere, List.forall_mem_map.mpr fun c hc => ih c hc (h.child hc)⟩
  | absent => exact h

/-! ## One replacement after the other -/

/-- What the first rule puts in is treated with the second one, which has its turn where the first has no answer. -/
def andThen (stop : Tree → Bool) (f g : Tree → Option Tree) (t : Tree) : Option Tree :=
  match f t with
  | some t' => some (t'.mapDown stop g)
  | none => g t

/-- Two rules, the second of which sees through what the first one does, can be applied in
one traversal. -/
theorem mapDown_mapDown (hstop : ∀ t, f t = none → stop (t.mapDown stop f) = stop t)
    (hg : ∀ t, f t = none → g (t.mapDown stop f) = g t) (t : Tree) :
    (t.mapDown stop f).mapDown stop g = t.mapDown stop (andThen stop f g) := by
  induction t using ind with
  | node o k ts ih =>
      by_cases hs : stop (node o k ts) = true
      · simp only [mapDown_node, hs, if_true]
      · cases hfu : f (node o k ts) with
        | some t' => simp only [mapDown_node, hs, if_false, hfu, andThen, Bool.false_eq_true, Option.getD_some]
        | none =>
            have hmap : (node o k ts).mapDown stop f = node o k (ts.map (mapDown stop f)) := by
              rw [mapDown_node, if_neg hs, hfu, Option.getD_none]
            have hs' := hstop _ hfu
            have hg' := hg _ hfu
            rw [hmap] at hs' hg'
            have hthen : andThen stop f g (node o k ts) = g (node o k ts) := by simp only [andThen, hfu]
            rw [hmap, mapDown_node, mapDown_node, hs', hg', hthen, if_neg hs, if_neg hs, List.map_map,
              List.map_congr_left (f := mapDown stop g ∘ mapDown stop f) ih]
  | list ts ih =>
      rw [mapDown_list, mapDown_list, mapDown_list, List.map_map,
        List.map_congr_left (f := mapDown stop g ∘ mapDown stop f) ih]
  | absent => rfl

/-- The second rule had no turn exactly if it has no answer beside the nodes that the first one replaces, provided that
no answer is the node itself with replaced nodes below it. -/
theorem mapDown_andThen_eq_iff
    (hg : ∀ t t', f t = none → g t = some t' → t' ≠ t.mapDown stop fun u => (f u).map (mapDown stop g)) (t : Tree) :
    t.mapDown stop (andThen stop f g) = t.mapDown stop (fun u => (f u).map (mapDown stop g)) ↔
      t.any (fun u => stop u || (f u).isSome) (fun u => (g u).isSome) = false := by
  induction t using ind with
  | node o k ts ih =>
      by_cases hs : stop (node o k ts) = true
      · simp [mapDown_node, any_node, hs]
      · cases hfu : f (node o k ts) with
        | some t' => simp [mapDown_node, any_node, hs, hfu, andThen]
        | none =>
            cases hgu : g (node o k ts) with
            | some t' =>
                have hne := hg _ _ hfu hgu
                rw [mapDown_node, if_neg hs, hfu, Option.map_none, Option.getD_none] at hne
                simp [mapDown_node, any_node, hs, hfu, andThen, hgu, hne]
            | none => simpa [mapDown_node, any_node_eq_false, hs, hfu, andThen, hgu] using forall₂_congr ih
  | list ts ih => simpa [mapDown_list, any_list_eq_false] using forall₂_congr ih
  | absent => simp [mapDown, any]

/-! ## Nodes of one sort in the place of one another -/

theorem ident?_eq_some : t.ident? = some x ↔ ∃ o ts, t.unparen = .expr o (.ident x) ts := by
  unfold ident?
  split <;> simp_all

theorem string?_eq_some : t.string? = some x ↔ ∃ o raw ts, t.unparen = .expr o (.str x raw) ts := by
  unfold string?
  split <;> simp_all

/-- A read of a fixed key off a variable, spelled out. -/
theorem memberOf?_eq_some :
    t.memberOf? x = some k ↔
      ∃ o obj key, t.unparen = .expr o .member [obj, key] ∧ obj.ident? = some x ∧ key.key? = some k := by
  unfold memberOf?
  split
  next o obj key heq =>
    rw [ite_eq_iff, beq_iff_eq]
    constructor
    · rintro (⟨hobj, hkey⟩ | ⟨-, hno⟩)
      · exact ⟨o, obj, key, heq, hobj, hkey⟩
      · cases hno
    · rintro ⟨o', obj', key', heq', hobj, hkey⟩
      cases heq.symm.trans heq'
      exact .inl ⟨hobj, hkey⟩
  next h =>
    refine iff_of_false nofun ?_
    rintro ⟨o, obj, key, heq, -⟩
    exact h o obj key heq

/-- The nodes that the shape of an expression shows: parentheses, variables, strings, keys and spreads. -/
def isShape : Tree → Bool
  | .expr _ .paren _ => true
  | .expr _ (.ident _) _ => true
  | .expr _ (.str _ _) _ => true
  | .part _ (.key _) _ => true
  | .part _ .index _ => true
  | .part _ .spread _ => true
  | _ => false

/-- Nodes of the sort `p` become nodes of that sort, and any other node stays what it is, around what is rewritten. No
shape shows nodes of the sort. -/
structure Rewrites (p : Tree → Bool) (g : Tree → Tree) : Prop where
  inside {t : Tree} : p t = true → p (g t) = true
  outside {t : Tree} : p t = false → g t = t.withChildren (t.children.map g)
  shape {t : Tree} : t.isShape = true → p t = false

namespace Rewrites

variable {p : Tree → Bool} {g : Tree → Tree} {o : Origin} {ts' : List Tree} (hg : Rewrites p g)
include hg

/-- What is not of the sort was not of it before. -/
theorem eq_withChildren (h : p (g t) = false) : g t = t.withChildren (t.children.map g) := by
  refine hg.outside ?_
  rw [← Bool.not_eq_true]
  intro hp
  rw [hg.inside hp] at h
  cases h

/-- A node of another kind is what it was, with rewritten nodes below it. -/
theorem eq_node {k : Kind} (hk : ∀ ts, p (node o k ts) = false) :
    g t = node o k ts' ↔ ∃ ts, t = node o k ts ∧ ts' = ts.map g := by
  constructor
  · intro h
    rw [hg.eq_withChildren (h ▸ hk ts')] at h
    cases t with
    | node o₁ k₁ ts =>
        cases h
        exact ⟨ts, rfl, rfl⟩
    | list ts => cases h
    | absent => cases h
  · rintro ⟨ts, rfl, rfl⟩
    exact hg.outside (hk ts)

/-- Groups are left alone, and nothing else turns into one. -/
theorem eq_list (hlist : ∀ ts, p (.list ts) = false) : g t = .list ts' ↔ ∃ ts, t = .list ts ∧ ts' = ts.map g := by
  constructor
  · intro h
    rw [hg.eq_withChildren (h ▸ hlist ts')] at h
    cases t with
    | node o k ts => cases h
    | list ts =>
        cases h
        exact ⟨ts, rfl, rfl⟩
    | absent => cases h
  · rintro ⟨ts, rfl, rfl⟩
    exact hg.outside (hlist ts)

/-- A node that shows the shape of an expression stands only where one of its kind stood
before. -/
theorem eq_shape {k : Kind} (hk : ∀ ts, (node o k ts).isShape = true) :
    g t = node o k ts' ↔ ∃ ts, t = node o k ts ∧ ts' = ts.map g :=
  hg.eq_node fun ts => hg.shape (hk ts)

theorem unparen (t : Tree) : (g t).unparen = g t.unparen := by
  have hparen : ∀ {t o ts'}, g t = .expr o .paren ts' ↔ ∃ ts, t = .expr o .paren ts ∧ ts' = ts.map g :=
    hg.eq_shape fun _ => rfl
  fun_induction Tree.unparen t with
  | case1 o e ih =>
      have hmap : g (Tree.expr o .paren [e]) = .expr o .paren [g e] := hparen.mpr ⟨[e], rfl, rfl⟩
      rw [hmap, Tree.unparen, ih]
  | case2 t h =>
      unfold Tree.unparen
      split
      next o e heq =>
        obtain ⟨ts, rfl, hts⟩ := hparen.mp heq
        obtain ⟨e', rfl, -⟩ := List.map_eq_singleton_iff.mp hts.symm
        exact (h o e' rfl).elim
      next => rfl

theorem ident? (t : Tree) : (g t).ident? = t.ident? := by
  have hident : ∀ {t o x ts'}, g t = .expr o (.ident x) ts' ↔ ∃ ts, t = .expr o (.ident x) ts ∧ ts' = ts.map g :=
    hg.eq_shape fun _ => rfl
  refine Option.ext fun x => ?_
  rw [ident?_eq_some, ident?_eq_some, hg.unparen]
  simp only [hident]
  constructor
  · rintro ⟨o, -, ts, h, -⟩
    exact ⟨o, ts, h⟩
  · rintro ⟨o, ts, h⟩
    exact ⟨o, _, ts, h, rfl⟩

theorem string? (t : Tree) : (g t).string? = t.string? := by
  have hstr : ∀ {t o x raw ts'}, g t = .expr o (.str x raw) ts' ↔ ∃ ts, t = .expr o (.str x raw) ts ∧ ts' = ts.map g :=
    hg.eq_shape fun _ => rfl
  refine Option.ext fun x => ?_
  rw [string?_eq_some, string?_eq_some, hg.unparen]
  simp only [hstr]
  constructor
  · rintro ⟨o, raw, -, ts, h, -⟩
    exact ⟨o, raw, ts, h⟩
  · rintro ⟨o, raw, ts, h⟩
    exact ⟨o, raw, _, ts, h, rfl⟩

theorem eq_key : g t = .part o (.key k) ts' ↔ ∃ ts, t = .part o (.key k) ts ∧ ts' = ts.map g :=
  hg.eq_shape fun _ => rfl

theorem key? (t : Tree) : (g t).key? = t.key? := by
  have hindex : ∀ {o ts'}, g t = .part o .index ts' ↔ ∃ ts, t = .part o .index ts ∧ ts' = ts.map g :=
    hg.eq_shape fun _ => rfl
  conv_rhs => unfold Tree.key?
  split
  next o k ts =>
    rw [hg.eq_key.mpr ⟨ts, rfl, rfl⟩]
    rfl
  next o e =>
    rw [hindex.mpr ⟨[e], rfl, rfl⟩]
    exact hg.string? e
  next hnokey hnoindex =>
    unfold Tree.key?
    split
    next heq =>
      obtain ⟨ts, rfl, -⟩ := hg.eq_key.mp heq
      exact (hnokey _ _ _ rfl).elim
    next heq =>
      obtain ⟨ts, rfl, hts⟩ := hindex.mp heq
      obtain ⟨e, rfl, -⟩ := List.map_eq_singleton_iff.mp hts.symm
      exact (hnoindex _ _ rfl).elim
    next => rfl

theorem spread? (t : Tree) : (g t).spread? = t.spread?.map g := by
  have hspread : ∀ {o ts'}, g t = .part o .spread ts' ↔ ∃ ts, t = .part o .spread ts ∧ ts' = ts.map g :=
    hg.eq_shape fun _ => rfl
  conv_rhs => unfold Tree.spread?
  split
  next o e =>
    rw [hspread.mpr ⟨[e], rfl, rfl⟩]
    rfl
  next hno =>
    unfold Tree.spread?
    split
    next heq =>
      obtain ⟨ts, rfl, hts⟩ := hspread.mp heq
      obtain ⟨e, rfl, -⟩ := List.map_eq_singleton_iff.mp hts.symm
      exact (hno _ _ rfl).elim
    next => rfl

end Rewrites

/-! ## Markup in the place of markup -/

/-- Elements and fragments, the markup that stands where an expression may stand. -/
def isMarkup : Tree → Bool
  | .markup _ (.element _ _) _ => true
  | .markup _ .fragment _ => true
  | _ => false

/-- Markup takes the place of markup, and any other node stays what it is, around what is rewritten. -/
structure RewritesMarkup (g : Tree → Tree) : Prop where
  component {t : Tree} : t.opensScope = true → g t = t
  markup {t : Tree} : t.isMarkup = true → (g t).isMarkup = true
  other {t : Tree} : t.opensScope = false → t.isMarkup = false → g t = t.withChildren (t.children.map g)

theorem opensScope_of_isMarkup (h : t.isMarkup = true) : t.opensScope = false := by
  unfold isMarkup at h
  split at h
  · rfl
  · rfl
  · cases h

/-- Replacing markup by markup changes nothing but markup. -/
theorem rewritesMarkup_mapDown (hf : ∀ t t', f t = some t' → t.isMarkup = true ∧ t'.isMarkup = true) :
    RewritesMarkup (mapDown opensScope f) where
  component {t} h := by
    cases t with
    | node o k ts => rw [mapDown_node, if_pos h]
    | list ts => cases h
    | absent => cases h
  markup {t} h := by
    cases t with
    | node o k ts =>
        rw [mapDown, opensScope_of_isMarkup h, if_neg Bool.false_ne_true]
        split
        next t' hft => exact (hf _ t' hft).2
        next =>
          cases k with
          | markup k => cases k <;> exact h
          | _ => cases h
    | list ts => cases h
    | absent => cases h
  other {t} hopens hmarkup := by
    refine mapDown_eq_withChildren hopens ?_
    rw [Option.eq_none_iff_forall_not_mem]
    intro t' h
    rw [(hf t t' h).1] at hmarkup
    cases hmarkup

/-- Changing markup into markup, children first, changes nothing but markup. -/
theorem rewritesMarkup_mapUp {f : Tree → Tree} (hmarkup : ∀ t, t.isMarkup = true → (f t).isMarkup = true)
    (hother : ∀ t, t.isMarkup = false → f t = t) : RewritesMarkup (mapUp opensScope f) where
  component {t} h := by
    cases t with
    | node o k ts => rw [mapUp, if_pos h]
    | list ts => cases h
    | absent => cases h
  markup {t} h := by
    cases t with
    | node o k ts =>
        rw [mapUp, opensScope_of_isMarkup h, if_neg Bool.false_ne_true]
        refine hmarkup _ ?_
        cases k with
        | markup k => cases k <;> exact h
        | _ => cases h
    | list ts => cases h
    | absent => cases h
  other {t} hopens h := by
    cases t with
    | node o k ts =>
        rw [mapUp_node, hopens, if_neg Bool.false_ne_true]
        refine hother _ ?_
        cases k with
        | markup k => cases k <;> exact h
        | _ => rfl
    | list ts => exact mapUp_list
    | absent => rfl

namespace RewritesMarkup

variable {g : Tree → Tree} (hg : RewritesMarkup g)
include hg

/-- Markup and further components are the nodes that need not stay what they are. -/
theorem rewrites : Rewrites (fun t => t.opensScope || t.isMarkup) g where
  inside {t} h := by
    cases hs : t.opensScope with
    | true => rw [hg.component hs, hs, Bool.true_or]
    | false =>
        rw [hs, Bool.false_or] at h
        rw [hg.markup h, Bool.or_true]
  outside h := by
    rw [Bool.or_eq_false_iff] at h
    exact hg.other h.1 h.2
  shape {t} h := by
    unfold isShape at h
    split at h
    all_goals first | rfl | cases h

/-- Only a node that is no markup turns into one of its kind, and around the changed children. -/
theorem eq_node {o : Origin} {k : Kind} {ts' : List Tree} (hk : ∀ ts, (node o k ts).isMarkup = false)
    (hopens : ∀ ts, (node o k ts).opensScope = false) :
    g t = node o k ts' ↔ ∃ ts, t = node o k ts ∧ ts' = ts.map g :=
  hg.rewrites.eq_node fun ts => by rw [hopens, hk, Bool.false_or]

theorem eq_list {ts' : List Tree} : g t = .list ts' ↔ ∃ ts, t = .list ts ∧ ts' = ts.map g :=
  hg.rewrites.eq_list fun _ => rfl

theorem absent : g .absent = .absent := hg.other rfl rfl

theorem eq_expr {o : Origin} {k : ExprKind} {ts' : List Tree} :
    g t = .expr o k ts' ↔ ∃ ts, t = .expr o k ts ∧ ts' = ts.map g :=
  hg.eq_node (fun _ => rfl) fun _ => rfl

theorem unparen (t : Tree) : (g t).unparen = g t.unparen := hg.rewrites.unparen t

theorem ident? (t : Tree) : (g t).ident? = t.ident? := hg.rewrites.ident? t

theorem string? (t : Tree) : (g t).string? = t.string? := hg.rewrites.string? t

theorem eq_key {o : Origin} {ts' : List Tree} :
    g t = .part o (.key k) ts' ↔ ∃ ts, t = .part o (.key k) ts ∧ ts' = ts.map g :=
  hg.rewrites.eq_key

theorem key? (t : Tree) : (g t).key? = t.key? := hg.rewrites.key? t

theorem memberOf? (t : Tree) : (g t).memberOf? x = t.memberOf? x := by
  refine Option.ext fun k => ?_
  rw [memberOf?_eq_some, memberOf?_eq_some, hg.unparen]
  simp only [hg.eq_expr]
  constructor
  · rintro ⟨o, obj', key', ⟨ts, h, hts⟩, hobj, hkey⟩
    obtain ⟨obj, rest, rfl, rfl, hrest⟩ := List.map_eq_cons_iff.mp hts.symm
    obtain ⟨key, rfl, rfl⟩ := List.map_eq_singleton_iff.mp hrest
    exact ⟨o, obj, key, h, (hg.ident? obj).symm.trans hobj, (hg.key? key).symm.trans hkey⟩
  · rintro ⟨o, obj, key, h, hobj, hkey⟩
    exact ⟨o, _, _, ⟨[obj, key], h, rfl⟩, (hg.ident? obj).trans hobj, (hg.key? key).trans hkey⟩

end RewritesMarkup

end FormCodemod.Tree
