import FormCodemod.Proofs.Convert.Frame
import FormCodemod.Proofs.Names.Wrapper
import FormCodemod.Proofs.Tree.Outermost

/-!
# The grammar of form wrappers

Which scopes the conversion of form wrappers accepts: `FormWrapper.convertScope_ok_iff` puts it in terms of the wrappers
that stand in the scope (`FormWrapper.StandsAt`) and of a grammar for what may be inside one of them
(`Rendering.Inside`). The grammar does not mention how the parts are taken out.

The proofs go along the grammar from the inside out: markup, bodies, functions, children, elements. Each step says that
a part is read exactly if the grammar allows it, and as what it says.
-/

namespace FormCodemod

/-! ## Results and lists of results -/

section Results

variable {α β ε : Type}

theorem error_ne_ok {e : ε} {a : α} : (.error e : Except ε α) ≠ .ok a := nofun

theorem not_error_ok {e : ε} : ¬ ∃ a : α, (.error e : Except ε α) = .ok a := fun ⟨_, h⟩ => error_ne_ok h

theorem map_eq_ok_iff {f : α → β} {x : Except ε α} {b : β} : x.map f = .ok b ↔ ∃ a, x = .ok a ∧ f a = b := by
  cases x with
  | error e => exact iff_of_false error_ne_ok fun ⟨_, h, _⟩ => error_ne_ok h
  | ok a => simp [Except.map]

/-- A list can be related to some list exactly if each of its items can be related to
something. -/
theorem exists_forall₂_iff {R : α → β → Prop} {as : List α} :
    (∃ bs, List.Forall₂ R as bs) ↔ ∀ a ∈ as, ∃ b, R a b := by
  induction as with
  | nil => exact iff_of_true ⟨[], .nil⟩ (List.forall_mem_nil _)
  | cons a as ih =>
      rw [List.forall_mem_cons, ← ih]
      constructor
      · rintro ⟨_, _ | ⟨hb, hbs⟩⟩
        exact ⟨⟨_, hb⟩, _, hbs⟩
      · rintro ⟨⟨b, hb⟩, bs, hbs⟩
        exact ⟨b :: bs, .cons hb hbs⟩

/-- One item of a list passes exactly if it stands between others that do not. -/
theorem filter_eq_singleton_iff {p : α → Bool} {as : List α} {a : α} :
    as.filter p = [a] ↔
      ∃ before after, as = before ++ a :: after ∧ (∀ b ∈ before ++ after, p b = false) ∧ p a = true := by
  constructor
  · intro h
    have hmem : a ∈ as.filter p := h ▸ List.mem_singleton.mpr rfl
    obtain ⟨hmem, hpa⟩ := List.mem_filter.mp hmem
    obtain ⟨before, after, rfl⟩ := List.append_of_mem hmem
    refine ⟨before, after, rfl, ?_, hpa⟩
    rw [List.filter_append, List.filter_cons_of_pos hpa] at h
    have hlength := congrArg List.length h
    simp only [List.length_append, List.length_cons, List.length_nil] at hlength
    have hbefore : before.filter p = [] := List.length_eq_zero_iff.mp (by omega)
    have hafter : after.filter p = [] := List.length_eq_zero_iff.mp (by omega)
    intro b hb
    rw [← Bool.not_eq_true]
    rcases List.mem_append.mp hb with hb | hb
    · exact List.filter_eq_nil_iff.mp hbefore b hb
    · exact List.filter_eq_nil_iff.mp hafter b hb
  · rintro ⟨before, after, rfl, hothers, hpa⟩
    have hnil : ∀ bs : List α, (∀ b ∈ bs, b ∈ before ++ after) → bs.filter p = [] := by
      intro bs hbs
      rw [List.filter_eq_nil_iff]
      intro b hb
      rw [hothers b (hbs b hb)]
      exact Bool.false_ne_true
    rw [List.filter_append, List.filter_cons_of_pos hpa, hnil before fun b => List.mem_append_left _,
      hnil after fun b => List.mem_append_right _]
    rfl

end Results

/-! ## The grammar -/

namespace Rendering

/-- An expression that is the element or fragment `m` in any number of parentheses. -/
inductive IsMarkup : Tree → Tree → Prop
  | element (o : Origin) (selfClosing asValue : Bool) (ts : List Tree) :
      IsMarkup (.markup o (.element selfClosing asValue) ts) (.markup o (.element selfClosing asValue) ts)
  | fragment (o : Origin) (ts : List Tree) : IsMarkup (.markup o .fragment ts) (.markup o .fragment ts)
  | paren (o : Origin) {e m : Tree} (h : IsMarkup e m) : IsMarkup (.expr o .paren [e]) m

/-- Statements of which the last one returns markup, with the ones before it. -/
inductive Returns : List Tree → List Tree → Tree → Prop
  | intro (setup : List Tree) (o : Origin) {e m : Tree} (h : IsMarkup e m) : Returns (setup ++ [.stmt o .ret [e]]) setup m

/-- A function that returns markup, in any number of parentheses, and what it renders. -/
inductive IsFunction : Tree → Rendering → Prop
  | expressionArrow (o : Origin) (isAsync : Bool) (ps : List Tree) {body m : Tree} (tps r : Tree) (h : IsMarkup body m) :
      IsFunction (.expr o (.arrow isAsync) [.list ps, body, tps, r]) ⟨ps.head?.getD .absent, [], m⟩
  | blockArrow (o : Origin) (isAsync : Bool) (ps : List Tree) (bo : Origin) {ss setup : List Tree} {m : Tree} (tps r : Tree)
      (h : Returns ss setup m) :
      IsFunction (.expr o (.arrow isAsync) [.list ps, .stmt bo .block ss, tps, r]) ⟨ps.head?.getD .absent, setup, m⟩
  | function (o : Origin) (name : Tree) (fo : Origin) (isAsync isGenerator : Bool) (ps : List Tree) (bo : Origin)
      {ss setup : List Tree} {m : Tree} (tps r : Tree) (h : Returns ss setup m) :
      IsFunction (.expr o .func [name, .part fo (.function isAsync isGenerator) [.list ps, .stmt bo .block ss, tps, r]])
        ⟨ps.head?.getD .absent, setup, m⟩
  | paren (o : Origin) {e : Tree} {r : Rendering} (h : IsFunction e r) : IsFunction (.expr o .paren [e]) r

/-- What may stand alone inside a wrapper, and what it renders. -/
inductive IsContent : Tree → Rendering → Prop
  | element (o : Origin) (selfClosing asValue : Bool) (ts : List Tree) :
      IsContent (.markup o (.element selfClosing asValue) ts) ⟨.absent, [], .markup o (.element selfClosing asValue) ts⟩
  | fragment (o : Origin) (ts : List Tree) : IsContent (.markup o .fragment ts) ⟨.absent, [], .markup o .fragment ts⟩
  | container (o : Origin) {e : Tree} {r : Rendering} (h : IsFunction e r) : IsContent (.markup o .container [e]) r

/-- All that stands inside a wrapper, but for layout, is one thing, which renders `r`. -/
def Inside (e : Element) (r : Rendering) : Prop :=
  ∃ before c after, e.children = before ++ c :: after ∧ (∀ t ∈ before ++ after, t.isLayout = true) ∧
    c.isLayout = false ∧ IsContent c r

/-- What a wrapper renders is an element or a fragment. -/
theorem Inside.markup {P : Tree → Prop} (helement : ∀ o s b ts, P (.markup o (.element s b) ts))
    (hfragment : ∀ o ts, P (.markup o .fragment ts)) {e : Element} {r : Rendering} (h : Inside e r) : P r.markup := by
  have hmarkup : ∀ {t m : Tree}, IsMarkup t m → P m := by
    intro t m h
    induction h with
    | element o s b ts => exact helement o s b ts
    | fragment o ts => exact hfragment o ts
    | paren o h ih => exact ih
  have hreturns : ∀ {ss setup : List Tree} {m : Tree}, Returns ss setup m → P m := by
    rintro ss setup m ⟨_, o, h⟩
    exact hmarkup h
  obtain ⟨before, c, after, -, -, -, hcontent⟩ := h
  cases hcontent with
  | element o s b ts => exact helement o s b ts
  | fragment o ts => exact hfragment o ts
  | container o h =>
      induction h with
      | expressionArrow o a ps tps ret h => exact hmarkup h
      | blockArrow o a ps bo tps ret h => exact hreturns h
      | function o name fo a g ps bo tps ret h => exact hreturns h
      | paren o h ih => exact ih

/-- What holds of the children of a wrapper holds of its markup and of the statements before it, if it passes from
nodes that declare no component to their children. -/
theorem Inside.below {P : Tree → Prop} (hP : ∀ {t c : Tree}, t.opensScope = false → P t → c ∈ t.children → P c)
    {e : Element} {r : Rendering} (h : Inside e r) (he : ∀ c ∈ e.children, P c) : P r.markup ∧ ∀ t ∈ r.setup, P t := by
  have hmarkup : ∀ {t m : Tree}, IsMarkup t m → P t → P m := by
    intro t m h ht
    induction h with
    | element o s b ts => exact ht
    | fragment o ts => exact ht
    | paren o h ih => exact ih (hP rfl ht (by simp))
  have hreturns : ∀ (bo : Origin) {ss setup : List Tree} {m : Tree}, Returns ss setup m → P (.stmt bo .block ss) →
      P m ∧ ∀ t ∈ setup, P t := by
    rintro bo ss setup m ⟨_, o, h⟩ hss
    have hreturn := hP rfl hss (List.mem_append_right setup (List.mem_singleton.mpr rfl))
    refine ⟨hmarkup h (hP rfl hreturn (List.mem_singleton.mpr rfl)), fun t ht => ?_⟩
    exact hP rfl hss (List.mem_append_left _ ht)
  have hnone : ∀ t ∈ ([] : List Tree), P t := nofun
  obtain ⟨before, c, after, hchildren, -, -, hcontent⟩ := h
  -- the function is the content of a container, perhaps in parentheses
  have hc : P c := he c (by simp [hchildren])
  clear hchildren
  cases hcontent with
  | element o s b ts => exact ⟨hc, hnone⟩
  | fragment o ts => exact ⟨hc, hnone⟩
  | container o h =>
      replace hc := hP rfl hc (List.mem_singleton.mpr rfl)
      induction h with
      | expressionArrow o a ps tps ret h => exact ⟨hmarkup h (hP rfl hc (by simp)), hnone⟩
      | blockArrow o a ps bo tps ret h => exact hreturns bo h (hP rfl hc (by simp))
      | function o name fo a g ps bo tps ret h =>
          have hfunction := hP rfl hc (List.mem_of_getElem? (i := 1) rfl)
          exact hreturns bo h (hP rfl hfunction (by simp))
      | paren o h ih => exact ih (hP rfl hc (List.mem_singleton.mpr rfl))

/-! ## Each part is read exactly as the grammar says -/

variable {param body t m : Tree} {ss : List Tree} {r : Rendering}

/-- An expression is read as markup as the grammar says. -/
theorem markupOf_eq_ok_iff (t : Tree) : markupOf t = .ok m ↔ IsMarkup t m := by
  fun_induction markupOf t with
  | case1 o e ih =>
      rw [ih]
      exact ⟨.paren o, fun h => by cases h; assumption⟩
  | case2 o s b ts =>
      refine ⟨fun h => ?_, fun h => by cases h; rfl⟩
      cases h
      exact .element o s b ts
  | case3 o ts =>
      refine ⟨fun h => ?_, fun h => by cases h; rfl⟩
      cases h
      exact .fragment o ts
  | case4 t hparen helement hfragment =>
      refine iff_of_false error_ne_ok fun h => ?_
      cases h with
      | element o s b ts => exact helement o s b ts rfl
      | fragment o ts => exact hfragment o ts rfl
      | paren o h => exact hparen o _ rfl

theorem map_markupOf_eq_ok_iff {setup : List Tree} :
    (markupOf t).map (fun markup => (⟨param, setup, markup⟩ : Rendering)) = .ok r ↔
      ∃ m, IsMarkup t m ∧ r = ⟨param, setup, m⟩ := by
  simp only [map_eq_ok_iff, markupOf_eq_ok_iff]
  exact exists_congr fun m => and_congr_right fun _ => eq_comm

/-- Statements are read as the grammar says. -/
theorem ofStatements_eq_ok_iff :
    ofStatements param ss = .ok r ↔ ∃ setup m, Returns ss setup m ∧ r = ⟨param, setup, m⟩ := by
  unfold ofStatements
  split
  next o e hlast =>
    obtain ⟨setup, rfl⟩ := List.getLast?_eq_some_iff.mp hlast
    have hreturns : (∃ setup' m, Returns (setup ++ [.stmt o .ret [e]]) setup' m ∧ r = ⟨param, setup', m⟩) ↔
        ∃ m, IsMarkup e m ∧ r = ⟨param, setup, m⟩ := by
      constructor
      · rintro ⟨setup', m, hret, rfl⟩
        generalize hss : setup ++ [Tree.stmt o .ret [e]] = ss at hret
        obtain ⟨_, o', h⟩ := hret
        obtain ⟨rfl, hret⟩ := List.append_inj' hss rfl
        cases hret
        exact ⟨m, h, rfl⟩
      · rintro ⟨m, h, rfl⟩
        exact ⟨setup, m, .intro setup o h, rfl⟩
    rw [hreturns, List.dropLast_concat]
    split
    next habsent =>
      -- `return;` returns nothing
      refine iff_of_false error_ne_ok ?_
      rintro ⟨m, h, -⟩
      cases h <;> simp [Tree.isAbsent] at habsent
    next => exact map_markupOf_eq_ok_iff
  next hlast =>
    refine iff_of_false error_ne_ok ?_
    rintro ⟨setup, m, ⟨_, o, h⟩, -⟩
    exact hlast o _ List.getLast?_concat

theorem not_isMarkup_of_statements? (h : body.statements? = some ss) : ¬ IsMarkup body m := by
  intro hmarkup
  cases hmarkup <;> cases h

theorem isFunction_arrow_iff {o : Origin} {isAsync : Bool} {ps : List Tree} {tps ret : Tree} :
    IsFunction (.expr o (.arrow isAsync) [.list ps, body, tps, ret]) r ↔
      match body.statements? with
      | some ss => ∃ setup m, Returns ss setup m ∧ r = ⟨ps.head?.getD .absent, setup, m⟩
      | none => ∃ m, IsMarkup body m ∧ r = ⟨ps.head?.getD .absent, [], m⟩ := by
  constructor
  · intro h
    cases h with
    | expressionArrow o a ps tps r h =>
        split
        next ss hss => exact absurd h (not_isMarkup_of_statements? hss)
        next => exact ⟨_, h, rfl⟩
    | blockArrow o a ps bo tps r h => exact ⟨_, _, h, rfl⟩
  · split
    next ss hss =>
      obtain ⟨bo, rfl⟩ := Tree.eq_block_of_statements? hss
      rintro ⟨setup, m, h, rfl⟩
      exact .blockArrow o isAsync ps bo tps ret h
    next =>
      rintro ⟨m, h, rfl⟩
      exact .expressionArrow o isAsync ps tps ret h

/-- A render function is read as the grammar says. -/
theorem ofFunction_eq_ok_iff (t : Tree) : ofFunction t = .ok r ↔ IsFunction t r := by
  fun_induction ofFunction t with
  | case1 o e ih =>
      rw [ih]
      exact ⟨.paren o, fun h => by cases h; assumption⟩
  | case2 o a ps body tps ret =>
      rw [isFunction_arrow_iff, ofBody]
      cases body.statements? with
      | some ss => exact ofStatements_eq_ok_iff
      | none => exact map_markupOf_eq_ok_iff
  | case3 o name fo a g ps body tps ret ss hss =>
      obtain ⟨bo, rfl⟩ := Tree.eq_block_of_statements? hss
      rw [ofStatements_eq_ok_iff]
      constructor
      · rintro ⟨setup, m, h, rfl⟩
        exact .function o name fo a g ps bo tps ret h
      · intro h
        cases h
        exact ⟨_, _, by assumption, rfl⟩
  | case4 o name fo a g ps body tps ret hnone =>
      refine iff_of_false error_ne_ok fun h => ?_
      cases h
      cases hnone
  | case5 t hparen harrow hfunc =>
      refine iff_of_false error_ne_ok fun h => ?_
      cases h with
      | expressionArrow o a ps tps ret h => exact harrow o a ps _ tps ret rfl
      | blockArrow o a ps bo tps ret h => exact harrow o a ps _ tps ret rfl
      | function o name fo a g ps bo tps ret h => exact hfunc o name fo a g ps _ tps ret rfl
      | paren o h => exact hparen o _ rfl

/-- The child of a wrapper is read as the grammar says. -/
theorem ofChild_eq_ok_iff (t : Tree) : ofChild t = .ok r ↔ IsContent t r := by
  unfold ofChild
  split
  next o s b ts =>
    refine ⟨fun h => ?_, fun h => by cases h; rfl⟩
    cases h
    exact .element o s b ts
  next o ts =>
    refine ⟨fun h => ?_, fun h => by cases h; rfl⟩
    cases h
    exact .fragment o ts
  next o e =>
    rw [ofFunction_eq_ok_iff]
    exact ⟨.container o, fun h => by cases h; assumption⟩
  next helement hfragment hcontainer =>
    refine iff_of_false error_ne_ok fun h => ?_
    cases h with
    | element o s b ts => exact helement o s b ts rfl
    | fragment o ts => exact hfragment o ts rfl
    | container o h => exact hcontainer o _ rfl

/-- What is inside a wrapper is read as the grammar says. -/
theorem ofElement_eq_ok_iff (e : Element) : ofElement e = .ok r ↔ Inside e r := by
  have hone : Inside e r ↔ ∃ c, e.children.filter (fun c => !c.isLayout) = [c] ∧ IsContent c r := by
    simp only [filter_eq_singleton_iff, Bool.not_eq_false', Bool.not_eq_true']
    constructor
    · rintro ⟨before, c, after, h, hlayout, hc, hcontent⟩
      exact ⟨c, ⟨before, after, h, hlayout, hc⟩, hcontent⟩
    · rintro ⟨c, ⟨before, after, h, hlayout, hc⟩, hcontent⟩
      exact ⟨before, c, after, h, hlayout, hc, hcontent⟩
  rw [hone]
  unfold ofElement
  split
  next c hc =>
    rw [ofChild_eq_ok_iff]
    constructor
    · exact fun h => ⟨c, hc, h⟩
    · rintro ⟨c', hc', h⟩
      obtain rfl := List.singleton_inj.mp (hc.symm.trans hc')
      exact h
  next cs hcs =>
    refine iff_of_false error_ne_ok ?_
    rintro ⟨c, hc, -⟩
    exact hcs c hc

/-- A wrapper renders one thing only. -/
theorem Inside.unique {e : Element} {r r' : Rendering} (h : Inside e r) (h' : Inside e r') : r = r' :=
  Except.ok.inj (((ofElement_eq_ok_iff e).mpr h).symm.trans ((ofElement_eq_ok_iff e).mpr h'))

end Rendering

/-! ## Wrappers in a scope -/

namespace FormWrapper

variable {names : LibraryNames} {body t : Tree} {e : Element} {p : Place}

/-- A wrapper that is converted: bare as the value of an attribute it is not. -/
structure IsWrapper (names : LibraryNames) (e : Element) : Prop where
  tag : e.tag? = some names.formik
  asValue : e.asValue = false

/-- A wrapper at a place of a scope that further components do not own, and that is not inside another wrapper. -/
structure StandsAt (names : LibraryNames) (body : Tree) (p : Place) (e : Element) : Prop where
  reached : body.reaches Tree.opensScope p = true
  here : body.at? p = some e.toTree
  isWrapper : IsWrapper names e
  outside : ∀ q e', q <+: p → q ≠ p → body.at? q = some e'.toTree → ¬ IsWrapper names e'

/-- The rule answers exactly for wrappers. -/
theorem wrapper?_eq_some_iff : wrapper? names t = some e ↔ t = e.toTree ∧ IsWrapper names e := by
  rw [wrapper?, Option.filter_eq_some_iff]
  constructor
  · rintro ⟨helement, hcond⟩
    rw [Bool.and_eq_true, beq_iff_eq, Bool.not_eq_true'] at hcond
    exact ⟨(Tree.toTree_of_element? helement).symm, hcond.1, hcond.2⟩
  · rintro ⟨rfl, htag, hvalue⟩
    simp [htag, hvalue]

theorem wrapper?_eq_none_iff : wrapper? names t = none ↔ ∀ e, t = e.toTree → ¬ IsWrapper names e := by
  rw [Option.eq_none_iff_forall_not_mem]
  refine forall_congr' fun e => ?_
  rw [Option.mem_def, wrapper?_eq_some_iff, not_and]

/-- A wrapper stands where the rule finds it first. -/
theorem standsAt_iff : StandsAt names body p e ↔ body.FindsFirst Tree.opensScope (wrapper? names) p e := by
  constructor
  · rintro ⟨hr, hhere, hw, hout⟩
    refine ⟨hr, ⟨_, hhere, wrapper?_eq_some_iff.mpr ⟨rfl, hw⟩⟩, ?_⟩
    intro q hq hne u hu
    rw [wrapper?_eq_none_iff]
    rintro e' rfl
    exact hout q e' hq hne hu
  · rintro ⟨hr, ⟨u, hu, hw⟩, hfirst⟩
    obtain ⟨rfl, hwrapper⟩ := wrapper?_eq_some_iff.mp hw
    refine ⟨hr, hu, hwrapper, ?_⟩
    intro q e' hq hne hu'
    exact wrapper?_eq_none_iff.mp (hfirst q hq hne _ hu') e' rfl

theorem only_nodes_matter (u : Tree) (h : u.isNode = false) : u.opensScope = false ∧ wrapper? names u = none := by
  cases u with
  | node o k ts => cases h
  | list ts => exact ⟨rfl, rfl⟩
  | absent => exact ⟨rfl, rfl⟩

/-- The wrappers of a scope are those that stand somewhere in it. -/
theorem mem_wrappers_iff : e ∈ wrappers names body ↔ ∃ p, StandsAt names body p e := by
  simp only [standsAt_iff]
  exact Tree.mem_outermost_iff only_nodes_matter

/-- There is at most one wrapper exactly if all stand in the same place. -/
theorem length_wrappers_le_one_iff :
    (wrappers names body).length ≤ 1 ↔
      ∀ p e p' e', StandsAt names body p e → StandsAt names body p' e' → p = p' := by
  simp only [standsAt_iff]
  exact Tree.length_outermost_le_one_iff only_nodes_matter

/-! ## Scopes that are accepted -/

/-- A wrapper comes apart exactly if the grammar accepts what is inside. -/
theorem takeApart_ok_iff (e : Element) : (∃ s, takeApart names e = .ok s) ↔ ∃ r, Rendering.Inside e r := by
  simp only [← Rendering.ofElement_eq_ok_iff, takeApart]
  cases Rendering.ofElement e with
  | error err => exact iff_of_false not_error_ok not_error_ok
  | ok r => exact ⟨fun _ => ⟨r, rfl⟩, fun _ => ⟨_, rfl⟩⟩

/-- A scope is accepted if it holds at most one wrapper and that one comes apart. -/
theorem site?_ok_iff :
    (∃ s, site? names body = .ok s) ↔
      (wrappers names body).length ≤ 1 ∧ ∀ e ∈ wrappers names body, ∃ s, takeApart names e = .ok s := by
  simp only [← exists_forall₂_iff, ← mapM_eq_ok_iff, site?]
  cases hss : (wrappers names body).mapM (takeApart names) with
  | error err => exact iff_of_false not_error_ok fun h => not_error_ok h.2
  | ok ss =>
      rw [(mapM_eq_ok_iff.mp hss).length_eq]
      rcases ss with _ | ⟨s, _ | ⟨s', ss⟩⟩
      · exact iff_of_true ⟨none, rfl⟩ ⟨Nat.zero_le 1, _, rfl⟩
      · exact iff_of_true ⟨some s, rfl⟩ ⟨Nat.le_refl 1, _, rfl⟩
      · exact iff_of_false not_error_ok fun h => absurd h.1 (by simp)

theorem convertScope_ok_iff_site? {setting : Setting} :
    (∃ r, convertScope setting body = .ok r) ↔ ∃ s, site? setting.names body = .ok s := by
  rw [convertScope]
  cases site? setting.names body with
  | error err => exact iff_of_false not_error_ok not_error_ok
  | ok s => cases s <;> exact iff_of_true ⟨_, rfl⟩ ⟨_, rfl⟩

/-- A scope is accepted exactly if at most one wrapper stands in it, and what is inside each of them is in the
grammar. -/
theorem convertScope_ok_iff (setting : Setting) (body : Tree) :
    (∃ r, convertScope setting body = .ok r) ↔
      (∀ p e p' e', StandsAt setting.names body p e → StandsAt setting.names body p' e' → p = p') ∧
        ∀ p e, StandsAt setting.names body p e → ∃ r, Rendering.Inside e r := by
  have hmember : (∀ e ∈ wrappers setting.names body, ∃ s, takeApart setting.names e = .ok s) ↔
      ∀ p e, StandsAt setting.names body p e → ∃ r, Rendering.Inside e r := by
    simp only [mem_wrappers_iff, takeApart_ok_iff]
    exact ⟨fun h p e hs => h e ⟨p, hs⟩, fun h e ⟨p, hs⟩ => h p e hs⟩
  rw [convertScope_ok_iff_site?, site?_ok_iff, length_wrappers_le_one_iff, hmember]

end FormWrapper

end FormCodemod
