import Mathlib.Data.List.Induction
import FormCodemod.Proofs.Convert.Capabilities
import FormCodemod.Proofs.Tree.Congruence
import FormCodemod.Proofs.Wrapper.Grammar

/-!
# Where the parts of a form wrapper go

A scope with a form wrapper keeps its statements in their order, with expressions rewritten in place
(`Tree.Rewritten`). New ones are put in at two places (`FormWrapper.convertScope_statements`): the hook and the helpers
behind the last statement before the wrapper that declares a name which the options of the hook read, and the render
function's own statements in front of the statement that holds the wrapper.

The three lists are put in one after the other, each at a number that counts what was put in before.
`insertAt_insertAt_insertAt` says where everything ends up.
-/

namespace FormCodemod

/-! ## Expressions rewritten in place -/

/-- The kinds of expressions, elements and fragments among them. -/
def Kind.isExpression : Kind → Bool
  | .expr _ => true
  | .markup (.element _ _) => true
  | .markup .fragment => true
  | _ => false

namespace Tree

def isExpression : Tree → Bool
  | node _ k _ => k.isExpression
  | _ => false

/-- The trees have the same nodes, except that an expression may stand in the place of another. -/
inductive Rewritten : Tree → Tree → Prop
  | expression {t t' : Tree} (h : t.isExpression = true) (h' : t'.isExpression = true) : Rewritten t t'
  | node {o : Origin} {k : Kind} {ts ts' : List Tree} (h : List.Forall₂ Rewritten ts ts') :
      Rewritten (node o k ts) (node o k ts')
  | list {ts ts' : List Tree} (h : List.Forall₂ Rewritten ts ts') : Rewritten (list ts) (list ts')
  | absent : Rewritten absent absent

namespace Rewritten

variable {t t' t'' : Tree}

theorem refl (t : Tree) : Rewritten t t := by
  induction t using ind with
  | node o k ts ih => exact .node (List.forall₂_same.mpr ih)
  | list ts ih => exact .list (List.forall₂_same.mpr ih)
  | absent => exact .absent

theorem isExpression_eq (h : Rewritten t t') : t'.isExpression = t.isExpression := by
  cases h with
  | expression h h' => rw [h, h']
  | node h => rfl
  | list h => rfl
  | absent => rfl

theorem trans (h : Rewritten t t') (h' : Rewritten t' t'') : Rewritten t t'' := by
  induction t using ind generalizing t' t'' with
  | node o k ts ih =>
      cases h with
      | expression he he' => exact .expression he (h'.isExpression_eq.trans he')
      | node h =>
          cases h' with
          | expression he he' => exact .expression (show k.isExpression = true from he) he'
          | node h' => exact .node (forall₂_comp_of_mem h h' fun t ht _ _ => ih t ht)
  | list ts ih =>
      cases h with
      | expression he he' => exact .expression he (h'.isExpression_eq.trans he')
      | list h =>
          cases h' with
          | expression he he' => exact .expression he he'
          | list h' => exact .list (forall₂_comp_of_mem h h' fun t ht _ _ => ih t ht)
  | absent =>
      cases h with
      | expression he he' => exact .expression he (h'.isExpression_eq.trans he')
      | absent => exact h'

theorem congruence : Congruence Rewritten where
  refl := refl
  trans := trans
  parent {t ts'} h := by
    cases t with
    | node o k ts => exact .node h
    | list ts => exact .list h
    | absent => exact .absent

end Rewritten

/-! ## Reads of the form state -/

theorem rewritten_flatten (x form : String) (t : Tree) : t.Rewritten (t.flatten x form) := by
  refine Rewritten.congruence.mapDown ?_ opensScope t
  intro t t' h
  unfold flatRead? at h
  split at h
  · split at h
    · split at h
      · cases h
        exact .expression rfl rfl
      · split at h
        · cases h
          exact .expression rfl rfl
        · cases h
    · cases h
  · cases h

theorem rewritten_substituteHandlers (taken : Renaming) (form : String) (t : Tree) :
    t.Rewritten (t.substituteHandlers taken form) := by
  refine Rewritten.congruence.mapDown ?_ opensScope t
  intro t t' h
  unfold handlerRead? at h
  split at h
  · obtain ⟨member, -, rfl⟩ := Option.map_eq_some_iff.mp h
    exact .expression rfl rfl
  · cases h

/-- To convert reads rewrites expressions only. -/
theorem rewritten_convertReads (p t : Tree) : t.Rewritten (p.convertReads t) := by
  unfold convertReads
  cases p.wholeBinding? with
  | none => exact rewritten_substituteHandlers ..
  | some x => exact (rewritten_flatten x formName t).trans (rewritten_substituteHandlers ..)

theorem mapDown_block {f : Tree → Option Tree} {o : Origin} {ss : List Tree} (hf : f (.stmt o .block ss) = none) :
    (Tree.stmt o .block ss).mapDown opensScope f = .stmt o .block (ss.map (mapDown opensScope f)) := by
  have hstop : opensScope (.stmt o .block ss) = false := rfl
  rw [mapDown_node, hstop, if_neg Bool.false_ne_true, hf, Option.getD_none]

/-- The reads of a block are converted statement by statement. -/
theorem convertReads_block (p : Tree) (o : Origin) (ss : List Tree) :
    p.convertReads (.stmt o .block ss) = .stmt o .block (ss.map p.convertReads) := by
  have hread : ∀ x form ss, (Tree.stmt o .block ss).flatten x form = .stmt o .block (ss.map (·.flatten x form)) :=
    fun _ _ _ => mapDown_block rfl
  have hhandler : ∀ taken form ss, (Tree.stmt o .block ss).substituteHandlers taken form =
      .stmt o .block (ss.map (·.substituteHandlers taken form)) := fun _ _ _ => mapDown_block rfl
  unfold convertReads
  cases p.wholeBinding? with
  | none => exact hhandler ..
  | some x =>
      dsimp only
      rw [hread, hhandler, List.map_map]
      rfl

theorem statements?_of_isExpression {t : Tree} (h : t.isExpression = true) : t.statements? = none := by
  unfold statements?
  split
  · cases h
  · rfl

/-- Expressions are replaced statement by statement. -/
theorem statements_mapDown {f : Tree → Option Tree}
    (hf : ∀ t t', f t = some t' → t.isExpression = true ∧ t'.isExpression = true) (body : Tree) :
    (body.mapDown opensScope f).statements = body.statements.map (mapDown opensScope f) := by
  have hstmt : ∀ o k ts, f (.stmt o k ts) = none := by
    intro o k ts
    rw [Option.eq_none_iff_forall_not_mem]
    intro t' h
    exact Bool.noConfusion (hf _ _ h).1
  cases hss : body.statements? with
  | some ss =>
      obtain ⟨o, rfl⟩ := eq_block_of_statements? hss
      rw [mapDown_block (hstmt ..)]
      rfl
  | none =>
      have hnone : (body.mapDown opensScope f).statements? = none := by
        cases body with
        | node o k ts =>
            rw [mapDown]
            split
            · exact hss
            · split
              · next h => exact statements?_of_isExpression (hf _ _ h).2
              · cases k with
                | stmt k => cases k <;> first | rfl | cases hss
                | _ => rfl
        | list ts => rfl
        | absent => rfl
      -- an expression counts as the statement that returns it
      have hret : (Make.ret body).mapDown opensScope f = Make.ret (body.mapDown opensScope f) := by
        rw [Make.ret, mapDown, if_neg (by exact Bool.false_ne_true), hstmt]
        rfl
      rw [statements, hnone, statements, hss, Option.getD_none, Option.getD_none, List.map_singleton, hret]

theorem statements_convertReads_withStatements (p body : Tree) (ss : List Tree) :
    (p.convertReads (body.withStatements ss)).statements = ss.map p.convertReads := by
  have hblock : ∃ o, body.withStatements ss = .stmt o .block ss := by
    unfold withStatements
    split
    · exact ⟨_, rfl⟩
    · exact ⟨_, rfl⟩
  obtain ⟨o, h⟩ := hblock
  rw [h, convertReads_block]
  rfl

end Tree

/-! ## Lists -/

section Lists

variable {α β : Type}

/-- Where three lists end up that are put in one after the other. -/
theorem insertAt_insertAt_insertAt {xs helpers setup : List α} {hook : α} {a h : Nat} (ha : a ≤ h) (hh : h ≤ xs.length) :
    insertAt (a + 1) helpers (insertAt (h + 1) setup (insertAt a [hook] xs)) =
      xs.take a ++ [hook] ++ helpers ++ (xs.take h).drop a ++ setup ++ xs.drop h := by
  obtain ⟨front, rest, rfl, hfront⟩ : ∃ front rest, xs = front ++ rest ∧ front.length = a :=
    ⟨xs.take a, xs.drop a, (List.take_append_drop ..).symm, by rw [List.length_take]; omega⟩
  obtain ⟨middle, back, rfl, hmiddle⟩ : ∃ middle back, rest = middle ++ back ∧ front.length + middle.length = h :=
    ⟨rest.take (h - a), rest.drop (h - a), (List.take_append_drop ..).symm, by
      rw [List.length_append] at hh
      rw [List.length_take]
      omega⟩
  subst hfront
  have hhook : insertAt front.length [hook] (front ++ (middle ++ back)) = (front ++ [hook] ++ middle) ++ back := by
    simp [insertAt]
  have hlength : front.length + middle.length + 1 = (front ++ [hook] ++ middle).length := by
    simp only [List.length_append, List.length_singleton]
    omega
  have hsetup : insertAt (h + 1) setup ((front ++ [hook] ++ middle) ++ back) =
      (front ++ [hook]) ++ (middle ++ setup ++ back) := by
    rw [← hmiddle, hlength, insertAt, List.take_left, List.drop_left]
    simp
  have hlength' : front.length + 1 = (front ++ [hook]).length := by simp
  rw [hhook, hsetup, hlength', insertAt, List.take_left, List.drop_left]
  have htake : ((front ++ (middle ++ back)).take h).drop front.length = middle := by
    rw [← hmiddle, ← List.append_assoc, ← List.length_append, List.take_left, List.drop_left]
  have hdrop : (front ++ (middle ++ back)).drop h = back := by
    rw [← hmiddle, ← List.append_assoc, ← List.length_append, List.drop_left]
  rw [htake, hdrop, List.take_left]
  simp

/-- If one thing comes of a list, it comes of one item alone. -/
theorem flatMap_eq_singleton {f : α → List β} {as : List α} {b : β} (h : as.flatMap f = [b]) :
    ∃ before a after, as = before ++ a :: after ∧ f a = [b] ∧ ∀ a' ∈ before ++ after, f a' = [] := by
  induction as with
  | nil => cases h
  | cons a as ih =>
      rw [List.flatMap_cons] at h
      cases hfa : f a with
      | nil =>
          rw [hfa, List.nil_append] at h
          obtain ⟨before, a', after, rfl, ha', hothers⟩ := ih h
          exact ⟨a :: before, a', after, rfl, ha', List.forall_mem_cons.mpr ⟨hfa, hothers⟩⟩
      | cons c cs =>
          rw [hfa, List.cons_append, List.cons.injEq, List.append_eq_nil_iff] at h
          obtain ⟨rfl, rfl, hrest⟩ := h
          exact ⟨[], a, as, rfl, hfa, List.flatMap_eq_nil_iff.mp hrest⟩

end Lists

/-! ## The place of the hook -/

namespace FormWrapper

/-- The statement declares a name that the options of the hook refer to. -/
def IsRead (options t : Tree) : Prop := ∃ x ∈ t.declared, options.refersTo x = true

/-- One behind the last of the statements that is read, or zero if none is. -/
structure IsHookPlace (options : Tree) (before : List Tree) (a : Nat) : Prop where
  le_length : a ≤ before.length
  last : a = 0 ∨ ∃ t, before[a - 1]? = some t ∧ IsRead options t
  behind : ∀ i t, a ≤ i → before[i]? = some t → ¬ IsRead options t

theorem hookPlace_concat (options t : Tree) (before : List Tree) [Decidable (IsRead options t)] :
    hookPlace options (before ++ [t]) = if IsRead options t then before.length + 1 else hookPlace options before := by
  have hread : (t.declared.any fun x => options.uses.contains (.ref x)) = decide (IsRead options t) := by
    rw [Bool.eq_iff_iff, List.any_eq_true, decide_eq_true_iff]
    rfl
  unfold hookPlace
  dsimp only
  rw [List.reverse_append, List.reverse_singleton, List.singleton_append, List.findIdx_cons, List.length_append, hread]
  split
  next h => simp [h]
  next h => simp [h]

/-- The place that the pass finds for the hook is right behind what its options read. -/
theorem isHookPlace_hookPlace (options : Tree) (before : List Tree) :
    IsHookPlace options before (hookPlace options before) := by
  classical
  induction before using List.reverseRecOn with
  | nil => exact ⟨Nat.le_refl 0, .inl rfl, fun _ _ _ h => nomatch h⟩
  | append_singleton before t ih =>
      rw [hookPlace_concat]
      split
      next h =>
        refine ⟨by simp, .inr ⟨t, by simp, h⟩, ?_⟩
        intro i u hi hu
        have hlt := (List.getElem?_eq_some_iff.mp hu).1
        simp only [List.length_append, List.length_singleton] at hlt
        omega
      next h =>
        refine ⟨?_, ih.last.imp_right ?_, ?_⟩
        · have := ih.le_length
          simp only [List.length_append]
          omega
        · rintro ⟨u, hu, hread⟩
          exact ⟨u, (List.getElem?_append_left (List.getElem?_eq_some_iff.mp hu).1).trans hu, hread⟩
        · intro i u hi hu
          rcases Nat.lt_or_ge i before.length with hlt | hge
          · rw [List.getElem?_append_left hlt] at hu
            exact ih.behind i u hi hu
          · -- the last statement is not read, since its case was the other one
            rw [List.getElem?_append_right hge] at hu
            obtain rfl : u = t := by simpa using List.mem_of_getElem? hu
            exact h

/-! ## The statement that holds the wrapper -/

variable {names : LibraryNames} {body t : Tree} {e : Element} {s : Site} {r : Rendering}

/-- The wrappers of a body are those of its statements. -/
theorem wrappers_statements (names : LibraryNames) (body : Tree) :
    body.statements.flatMap (wrappers names) = wrappers names body := by
  unfold Tree.statements
  cases hss : body.statements? with
  | none =>
      -- `=> e` counts as `{ return e; }`
      show wrappers names (Make.ret body) ++ [] = _
      rw [List.append_nil, wrappers, Make.ret, Tree.outermost, if_neg (by exact Bool.false_ne_true)]
      show Tree.outermostAll _ _ [body] = _
      rw [Tree.outermostAll, Tree.outermostAll, List.append_nil]
      rfl
  | some ss =>
      obtain ⟨o, rfl⟩ := Tree.eq_block_of_statements? hss
      show ss.flatMap (wrappers names) = Tree.outermostAll _ _ ss
      rw [Tree.outermostAll_eq_flatMap]
      rfl

/-- Statement number `h` holds the wrapper, and no other statement holds any. -/
structure IsHolder (names : LibraryNames) (e : Element) (ss : List Tree) (h : Nat) : Prop where
  holds : ∃ t q, ss[h]? = some t ∧ StandsAt names t q e
  only : ∀ i t q e', ss[i]? = some t → StandsAt names t q e' → i = h

/-- The place that the pass finds is that of the statement around the wrapper. -/
theorem isHolder_holder (hone : wrappers names body = [e]) :
    IsHolder names e body.statements (holder names body.statements) := by
  rw [← wrappers_statements] at hone
  obtain ⟨before, t, after, hss, ht, hothers⟩ := flatMap_eq_singleton hone
  have hholder : holder names body.statements = before.length := by
    have hidx : (before ++ t :: after).findIdx? (fun u => !(wrappers names u).isEmpty) = some before.length := by
      rw [List.findIdx?_eq_some_iff_getElem]
      refine ⟨by simp, by simp [ht], ?_⟩
      intro j hj
      have hmem : before[j] ∈ before ++ after := List.mem_append_left _ (List.getElem_mem hj)
      rw [List.getElem_append_left hj, hothers _ hmem]
      simp
    rw [holder, hss, hidx]
    rfl
  rw [hholder, hss]
  refine ⟨?_, ?_⟩
  · obtain ⟨q, hq⟩ := mem_wrappers_iff.mp (ht ▸ List.mem_singleton.mpr rfl : e ∈ wrappers names t)
    exact ⟨t, q, by simp, hq⟩
  · intro i u q e' hu hq
    have hmem : e' ∈ wrappers names u := mem_wrappers_iff.mpr ⟨q, hq⟩
    rcases Nat.lt_trichotomy i before.length with hlt | heq | hgt
    · rw [List.getElem?_append_left hlt] at hu
      rw [hothers u (List.mem_append_left _ (List.mem_of_getElem? hu))] at hmem
      cases hmem
    · exact heq
    · rw [List.getElem?_append_right (by omega), List.getElem?_cons, if_neg (by omega)] at hu
      rw [hothers u (List.mem_append_right _ (List.mem_of_getElem? hu))] at hmem
      cases hmem

/-! ## The statements that are there already -/

/-- A statement with the markup in the place of the wrapper, and the reads of the form state converted. -/
def rewrite (names : LibraryNames) (r : Rendering) (t : Tree) : Tree :=
  r.param.convertReads (t.mapDown Tree.opensScope fun u => (wrapper? names u).map fun _ => provide names r.markup)

theorem isExpression_of_inside (h : Rendering.Inside e r) : r.markup.isExpression = true :=
  h.markup (P := fun m => m.isExpression = true) (fun _ _ _ _ => rfl) fun _ _ => rfl

theorem isExpression_provide (h : t.isExpression = true) : (provide names t).isExpression = true := by
  unfold provide
  split
  · rfl
  · exact h

theorem isExpression_of_wrapper {m u u' : Tree} (hm : m.isExpression = true)
    (h : ((wrapper? names u).map fun _ => m) = some u') : u.isExpression = true ∧ u'.isExpression = true := by
  obtain ⟨e', he', rfl⟩ := Option.map_eq_some_iff.mp h
  obtain ⟨rfl, -⟩ := wrapper?_eq_some_iff.mp he'
  exact ⟨rfl, hm⟩

/-- To fill in for a wrapper and to convert reads rewrites expressions only. -/
theorem rewritten_rewrite (names : LibraryNames) (h : Rendering.Inside e r) (t : Tree) :
    t.Rewritten (rewrite names r t) := by
  refine .trans (Tree.Rewritten.congruence.mapDown ?_ Tree.opensScope t) (Tree.rewritten_convertReads ..)
  intro u u' hu
  obtain ⟨hexpr, hexpr'⟩ := isExpression_of_wrapper (isExpression_provide (isExpression_of_inside h)) hu
  exact .expression hexpr hexpr'

/-! ## All statements -/

variable {setting : Setting} {body' : Tree} {σ : Symbols} {p : Place}

theorem takeApart_inv (h : takeApart names e = .ok s) :
    Rendering.Inside e s.rendering ∧ s.options = hookOptions e.attrs ∧ s.hook = hook (hookOptions e.attrs) e.typeArgs ∧
      s.markup = provide names s.rendering.markup := by
  unfold takeApart at h
  cases hr : Rendering.ofElement e with
  | error err =>
      rw [hr] at h
      cases h
  | ok r =>
      rw [hr] at h
      cases h
      exact ⟨(Rendering.ofElement_eq_ok_iff e).mp hr, rfl, rfl, rfl⟩

/-- A scope that is accepted and in which a wrapper stands is converted with this one. -/
theorem convertScope_inv (hok : convertScope setting body = .ok (body', σ)) (he : StandsAt setting.names body p e) :
    wrappers setting.names body = [e] ∧ ∃ s, takeApart setting.names e = .ok s ∧ convertSite setting s body = (body', σ) := by
  have hmem : e ∈ wrappers setting.names body := mem_wrappers_iff.mpr ⟨p, he⟩
  have hlength : (wrappers setting.names body).length ≤ 1 :=
    (site?_ok_iff.mp (convertScope_ok_iff_site?.mp ⟨_, hok⟩)).1
  obtain ⟨e', hwrappers⟩ : ∃ e', wrappers setting.names body = [e'] :=
    List.length_eq_one_iff.mp (Nat.le_antisymm hlength (List.length_pos_of_mem hmem))
  rw [hwrappers] at hmem
  obtain rfl := List.mem_singleton.mp hmem
  refine ⟨hwrappers, ?_⟩
  unfold convertScope site? at hok
  rw [hwrappers, List.mapM_cons, List.mapM_nil] at hok
  cases hs : takeApart setting.names e with
  | error err =>
      rw [hs] at hok
      cases hok
  | ok s =>
      rw [hs] at hok
      exact ⟨s, rfl, Except.ok.inj hok⟩

def IsConstant (t : Tree) : Prop := ∃ o x v, t = Make.constFrom o (Make.binding x) v

theorem isConstant_helpers (caps : Capabilities) (setting : Setting) (form : String) :
    ∀ t ∈ caps.helpers setting form, IsConstant t :=
  Capabilities.forall_mem_helpers (fun _ _ => ⟨_, _, _, rfl⟩) (fun _ _ => ⟨⟨_, _, _, rfl⟩, _, _, _, rfl⟩)
    ⟨_, _, _, rfl⟩ ⟨_, _, _, rfl⟩ (fun _ _ => ⟨_, _, _, rfl⟩) fun _ _ => ⟨_, _, _, rfl⟩

theorem isConstant_wholeHelper (uses : List Use) (whole : Option String) :
    ∀ t ∈ Capabilities.wholeHelper uses whole, IsConstant t :=
  Capabilities.forall_mem_wholeHelper (fun _ _ => ⟨_, _, _, rfl⟩) uses

/-- The helpers go right behind the hook, and are constants. -/
theorem convertSite_statements (setting : Setting) (s : Site) (body : Tree) {h a : Nat}
    (hh : holder setting.names body.statements = h) (ha : hookPlace s.options (body.statements.take h) = a) :
    ∃ helpers : List Tree, (∀ t ∈ helpers, IsConstant t) ∧
      (convertSite setting s body).1.statements =
        insertAt (a + 1) helpers (s.rendering.param.convertReads (unwrap setting.names s h a body)).statements := by
  subst hh ha
  refine ⟨_, ?_, Tree.statements_withStatements ..⟩
  intro t ht
  rcases List.mem_append.mp ht with ht | ht
  · exact isConstant_wholeHelper _ _ t ht
  · exact isConstant_helpers _ _ _ t ht

/-- The statements of an unwrapped scope: the rewritten ones, with the hook and the prelude
put in. -/
theorem statements_unwrap (hinside : Rendering.Inside e s.rendering)
    (hmarkup : s.markup = provide names s.rendering.markup) (h a : Nat) :
    (s.rendering.param.convertReads (unwrap names s h a body)).statements =
      insertAt (h + 1) (s.rendering.setup.map s.rendering.param.convertReads)
        (insertAt a [s.rendering.param.convertReads s.hook] (body.statements.map (rewrite names s.rendering))) := by
  have hexpr : (provide names s.rendering.markup).isExpression = true :=
    isExpression_provide (isExpression_of_inside hinside)
  rw [unwrap, hmarkup, Tree.statements_convertReads_withStatements,
    Tree.statements_mapDown fun u u' hu => isExpression_of_wrapper hexpr hu]
  simp only [insertAt, List.map_append, List.map_take, List.map_drop, List.map_map, List.map_cons, List.map_nil]
  rfl

/-- The statements of a scope in which a wrapper was converted. No statement is lost, put twice or moved past another;
the hook stands behind all that its options read and as high as that allows. -/
theorem convertScope_statements (setting : Setting) (body body' : Tree) (σ : Symbols) (p : Place) (e : Element)
    (hok : convertScope setting body = .ok (body', σ)) (he : StandsAt setting.names body p e) :
    ∃ (r : Rendering) (h a : Nat) (helpers : List Tree),
      Rendering.Inside e r ∧ IsHolder setting.names e body.statements h ∧
      IsHookPlace (hookOptions e.attrs) (body.statements.take h) a ∧
      (∀ t ∈ helpers, IsConstant t) ∧
      (∀ t : Tree, t.Rewritten (rewrite setting.names r t) ∧ t.Rewritten (r.param.convertReads t)) ∧
      body'.statements =
        (body.statements.map (rewrite setting.names r)).take a ++
          [r.param.convertReads (hook (hookOptions e.attrs) e.typeArgs)] ++ helpers ++
          ((body.statements.map (rewrite setting.names r)).take h).drop a ++
          r.setup.map r.param.convertReads ++
          (body.statements.map (rewrite setting.names r)).drop h := by
  obtain ⟨hone, s, hs, hsite⟩ := convertScope_inv hok he
  obtain ⟨hinside, hoptions, hhook, hmarkup⟩ := takeApart_inv hs
  obtain ⟨h, hh⟩ : ∃ h, holder setting.names body.statements = h := ⟨_, rfl⟩
  obtain ⟨a, ha⟩ : ∃ a, hookPlace s.options (body.statements.take h) = a := ⟨_, rfl⟩
  have hholder : IsHolder setting.names e body.statements h := hh ▸ isHolder_holder hone
  have hplace : IsHookPlace s.options (body.statements.take h) a := ha ▸ isHookPlace_hookPlace ..
  obtain ⟨helpers, hhelpers, hstatements⟩ := convertSite_statements setting s body hh ha
  have hah : a ≤ h := Nat.le_trans hplace.le_length (List.length_take_le ..)
  have hlt : h < body.statements.length := by
    obtain ⟨t, -, ht, -⟩ := hholder.holds
    exact (List.getElem?_eq_some_iff.mp ht).1
  refine ⟨s.rendering, h, a, helpers, hinside, hholder, hoptions ▸ hplace, hhelpers, ?_, ?_⟩
  · exact fun t => ⟨rewritten_rewrite setting.names hinside t, Tree.rewritten_convertReads ..⟩
  · rw [hsite] at hstatements
    rw [hstatements, statements_unwrap hinside hmarkup, hhook,
      insertAt_insertAt_insertAt hah (by rw [List.length_map]; exact Nat.le_of_lt hlt)]

/-- `<Formik initialValues={initial}>{(props) => { const label = props.values; return <form/>; }}</Formik>` -/
def labelledForm : Element :=
  let setup := Make.constNamed "label" (Make.member (Make.ident "props") "values")
  let render := Make.arrow [Make.binding "props"] (Make.block [setup, Make.ret (Make.element "form" [] [])])
  { origin := .made, asValue := false, selfClosing := false, name := Make.name "Formik",
    attrs := [Make.exprAttr "initialValues" (Make.ident "initial")], typeArgs := .absent,
    children := [Make.container render], closing := Make.name "Formik" }

/-- `{ const initial = load(); const title = "a"; return <Formik ..>..</Formik>; }` -/
def labelledBody : Tree :=
  Make.block [Make.constNamed "initial" (Make.callNamed "load" []), Make.constNamed "title" (Make.str "a"),
    Make.ret labelledForm.toTree]

/-- The hook goes between `initial`, which its options read, and `title`. -/
theorem labelledBody_statements :
    ∃ body' σ r helpers, convertScope ⟨{}, false⟩ labelledBody = .ok (body', σ) ∧
      body'.statements =
        (labelledBody.statements.map (rewrite {} r)).take 1 ++
          [r.param.convertReads (hook (hookOptions labelledForm.attrs) .absent)] ++ helpers ++
          ((labelledBody.statements.map (rewrite {} r)).take 2).drop 1 ++ r.setup.map r.param.convertReads ++
          (labelledBody.statements.map (rewrite {} r)).drop 2 := by
  have hstands : ∀ t, wrappers {} t = [labelledForm] → ∃ p, StandsAt {} t p labelledForm :=
    fun t ht => mem_wrappers_iff.mp (ht ▸ List.mem_singleton.mpr rfl)
  obtain ⟨p, hp⟩ := hstands labelledBody rfl
  obtain ⟨r, h, a, helpers, -, hholder, hplace, -, -, heq⟩ :=
    convertScope_statements ⟨{}, false⟩ labelledBody _ _ p labelledForm rfl hp
  obtain ⟨q, hq⟩ := hstands (Make.ret labelledForm.toTree) rfl
  obtain rfl : 2 = h := hholder.only 2 _ q labelledForm rfl hq
  obtain rfl : a = 1 := by
    refine Nat.le_antisymm (Nat.not_lt.mp fun hlt => ?_) (Nat.pos_of_ne_zero ?_)
    · obtain rfl : a = 2 := Nat.le_antisymm hplace.le_length hlt
      obtain h | ⟨t, ht, x, hx, hread⟩ := hplace.last
      · cases h
      · cases ht
        obtain rfl := List.mem_singleton.mp hx
        exact absurd hread (by decide)
    · rintro rfl
      exact hplace.behind 0 _ (Nat.zero_le 0) rfl ⟨"initial", by decide, by decide⟩
  exact ⟨_, _, r, helpers, rfl, heq⟩

end FormWrapper

end FormCodemod
