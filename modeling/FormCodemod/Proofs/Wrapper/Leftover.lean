import FormCodemod.Proofs.Convert.Settled
import FormCodemod.Proofs.Wrapper.Converted

/-!
# Wrappers that are left

The conversion of form wrappers takes the outermost ones of a scope out, and looks for no other. `convert_leaves` says
what can be left of them in the scopes of a converted module: nothing, if every wrapper of the module stands alone
(`Tree.Alone`), and wrappers are not called like the provider that is put in.

For one scope it says exactly when a wrapper is left: one stood beside the wrapper that was converted, bare as the value
of an attribute, or there was one inside of it, in the markup, in the statements before it or in the options of the
hook.
-/

namespace FormCodemod.FormWrapper

open Observed (Gives)
open FormCodemod.Tree (Alone Settled)

variable {setting : Setting} {names : LibraryNames} {body body' mid t t' M : Tree} {σ : Symbols} {e : Element}
  {r : Rendering} {p : Place} {h a n : Nat} {own attrs : List Tree} {x : String}

/-! ## What a wrapper contributes -/

theorem settled_provide (hx : x ≠ "FormProvider") (hM : M.Settled x n) : (provide names M).Settled x (n + 1) := by
  unfold provide
  split
  · have htag : ∀ attrs, (Make.element "FormProvider" attrs [M]).isTagged x = false :=
      fun attrs => beq_eq_false_iff_ne.mpr fun heq => hx (Option.some.inj heq).symm
    refine Settled.parent (n := n) (htag _) (fun _ => Nat.le_refl _) (Nat.le_succ n) ?_
    simpa [Make.element, Make.exprAttr, Make.attr, Make.container, Make.key, Make.name] using hM
  · exact hM.mono (Nat.le_succ n)

theorem settled_submitHandler (ht : t.Settled x n) : (submitHandler t).Settled x (n + 1) := by
  have hcallee : (if isPlainCallee t = true then t else Make.paren t).Settled x n := by
    split
    · exact ht
    · simpa [Make.paren] using ht
  refine Make.settled_arrow ?_ ?_
  · simp [Make.objectPat]
  · simp [Make.block, Make.exprStmt, Make.methodCall, Make.call, hcallee]

theorem settled_validateHandler (ht : t.Settled x n) : (validateHandler t).Settled x (n + 1) := by
  unfold validateHandler
  refine Make.settled_arrow (by simp [Make.objectPat]) ?_
  split
  · simp [Make.callNamed, Make.call, Make.name]
  · simp [Make.callNamed, Make.call, ht]

/-- The options of the hook nest one level deeper than what the attributes say. -/
theorem settled_hookOptions (hattrs : ∀ a ∈ attrs, a.Settled x n) : (hookOptions attrs).Settled x (n + 1) := by
  rw [hookOptions, Make.settled_object]
  intro t ht
  simp only [List.mem_append, List.mem_map, List.mem_flatMap, Option.mem_toList] at ht
  rcases ht with (⟨v, hv, rfl⟩ | ⟨v, hv, ht⟩) | ⟨v, hv, rfl⟩
  · exact Make.settled_keyValue.mpr ((Attrs.settled_value hattrs hv).mono (Nat.le_succ n))
  · have hvalidate := settled_validateHandler (Attrs.settled_value hattrs hv)
    simp only [List.mem_cons, List.not_mem_nil, or_false] at ht
    rcases ht with rfl | rfl | rfl
    · exact Make.settled_keyValue.mpr hvalidate
    · simp [Make.str]
    · simp [Make.str]
  · exact Make.settled_keyValue.mpr (settled_submitHandler (Attrs.settled_value hattrs hv))

theorem settled_hook {options targs : Tree} (hoptions : options.Settled x n) (htargs : targs.Settled x n) :
    (hook options targs).Settled x n := by
  refine Make.settled_constFrom (by simp [Make.arrayPat]) ?_
  simp [hoptions, htargs]

theorem settled_helpersOf (setting : Setting) (param mid : Tree) :
    ∀ t ∈ helpersOf setting param mid, t.Settled x (n + 1) := by
  intro t ht
  rcases List.mem_append.mp ht with ht | ht
  · exact Capabilities.settled_wholeHelper _ _ t ht
  · exact Capabilities.settled_helpers _ setting formName t ht

/-! ## Scopes in which wrappers stand alone -/

/-- An element with the wrapper's tag that is alone is a wrapper. -/
theorem isSome_wrapper?_of_alone (htag : t.isTagged names.formik = true) (h : t.Alone names.formik) :
    (wrapper? names t).isSome = true := by
  rw [Tree.isTagged, Option.any_eq_true] at htag
  obtain ⟨e, he, htag⟩ := htag
  obtain rfl := Tree.toTree_of_element? he
  have hwrapper : IsWrapper names e := ⟨beq_iff_eq.mp htag, (h e rfl (beq_iff_eq.mp htag)).1⟩
  rw [wrapper?_eq_some_iff.mpr ⟨rfl, hwrapper⟩]
  rfl

/-- The children of a wrapper that is alone are settled, and nest one level less. -/
theorem exists_settled_of_alone (hwrapper : IsWrapper names e) (h : e.toTree.Everywhere (Alone names.formik)) :
    ∃ n, e.toTree.nesting = n + 1 ∧ ∀ c ∈ e.toTree.children, c.Settled names.formik n := by
  refine ⟨Tree.nestingAll e.toTree.children, rfl, fun c hc => ?_⟩
  have hnesting : c.nesting < e.toTree.nesting := Tree.nesting_lt_of_mem rfl hc
  exact ⟨h.child hc, (h.here e rfl hwrapper.tag).2 c hc, Nat.le_of_lt_succ hnesting⟩

theorem rewriteRule_of_not_isNode (u : Tree) (hu : u.isNode = false) : rewriteRule names r u = none := by
  rw [rewriteRule_of_none (only_nodes_matter u hu).2]
  exact Tree.readIn?_of_not_isNode r.param u hu

/-- What the rule finds is the wrapper of the scope or a read. -/
theorem rewriteRule_found (hone : wrappers names body = [e])
    (hfinds : body.FindsFirst Tree.opensScope (rewriteRule names r) p t') (ht : body.at? p = some t) :
    t = e.toTree ∧ t' = r.param.convertReads (provide names r.markup) ∨ r.param.readIn? t = some t' := by
  obtain ⟨u, hu, hrule⟩ := hfinds.found
  rw [ht] at hu
  cases hu
  cases hw : wrapper? names t with
  | none =>
      rw [rewriteRule_of_none hw] at hrule
      exact .inr hrule
  | some e' =>
      -- nothing above is a wrapper, or the rule would have found that
      have hfirst : ∀ q, q <+: p → q ≠ p → ∀ u, body.at? q = some u → wrapper? names u = none := by
        intro q hq hne u hu
        have hnone := congrArg Option.isSome (hfinds.first q hq hne u hu)
        rw [isSome_rewriteRule, Option.isSome_none, Bool.or_eq_false_iff] at hnone
        exact Option.isSome_eq_false_iff.mp hnone.1 |> Option.isNone_iff_eq_none.mp
      have hstands : StandsAt names body p e' := standsAt_iff.mpr ⟨hfinds.reached, ⟨t, ht, hw⟩, hfirst⟩
      have hmem : e' ∈ wrappers names body := mem_wrappers_iff.mpr ⟨p, hstands⟩
      rw [hone] at hmem
      obtain rfl := List.mem_singleton.mp hmem
      rw [rewriteRule_of_wrapper hw] at hrule
      exact .inl ⟨(wrapper?_eq_some_iff.mp hw).1, (Option.some.inj hrule).symm⟩

/-- The rewritten scope holds no wrapper, and nests no deeper, if the one it held was alone. -/
theorem settled_rewrite (hinside : Rendering.Inside e r) (hone : wrappers names body = [e])
    (halone : body.Everywhere (Alone names.formik))
    (hmarkup : (provide names r.markup).Settled names.formik e.toTree.nesting) :
    (rewrite names r body).Settled names.formik body.nesting := by
  rw [rewrite_eq_mapDown hinside]
  refine Tree.settled_mapDown (outline_rewriteRule hinside) rewriteRule_of_not_isNode halone ?_ ?_
  · refine Tree.any_isTagged_of_alone (fun u htag hu => ?_) halone
    rw [isSome_rewriteRule, isSome_wrapper?_of_alone htag hu, Bool.true_or, Bool.or_true]
  · intro p u u' hfinds hu
    rcases rewriteRule_found hone hfinds hu with ⟨rfl, rfl⟩ | hread
    · exact hmarkup.convertReads r.param
    · exact Tree.settled_of_readIn? hread

/-- A scope in which no wrapper stands has none, if all of them are alone. -/
theorem settled_of_no_wrapper (hno : ∀ p e, ¬ StandsAt names body p e) (halone : body.Everywhere (Alone names.formik)) :
    body.Settled names.formik body.nesting := by
  have hnone : wrappers names body = [] :=
    List.eq_nil_iff_forall_not_mem.mpr fun e he => (mem_wrappers_iff.mp he).elim fun p => hno p e
  refine ⟨halone, Tree.any_eq_false_of_outermost hnone ?_, Nat.le_refl _⟩
  refine Tree.any_isTagged_of_alone (fun u htag hu => ?_) halone
  rw [isSome_wrapper?_of_alone htag hu, Bool.or_true]

/-- The statements of a converted scope, by where they come from. -/
theorem Converted.mem_statements (hc : Converted setting body e r h a own mid body') :
    t ∈ body'.statements ↔
      t ∈ helpersOf setting r.param mid ∨ t ∈ r.setup.map r.param.convertReads ∨
        t = r.param.convertReads (hook (hookOptions e.attrs) e.typeArgs) ∨ t ∈ own := by
  rw [hc.body_eq, mem_insertAt, hc.mid_eq, mem_insertAt, mem_insertAt, List.mem_singleton]

/-- If all wrappers of a scope are alone, none is left in it. -/
theorem settled_convertScope (hname : setting.names.formik ≠ "FormProvider")
    (hok : convertScope setting body = .ok (body', σ)) (halone : body.Everywhere (Alone setting.names.formik)) :
    body'.Settled setting.names.formik body.nesting := by
  by_cases hstands : ∃ p e, StandsAt setting.names body p e
  · obtain ⟨p, e, hstands⟩ := hstands
    obtain ⟨hone, -⟩ := convertScope_inv hok hstands
    obtain ⟨r, h, a, own, mid, hc⟩ := exists_converted hok hstands
    have halone' : e.toTree.Everywhere (Alone setting.names.formik) :=
      fun q v hv => halone (p ++ q) v (Tree.at?_append.mpr ⟨_, hstands.here, hv⟩)
    -- what is taken out of the wrapper gets one function or element more around it, and has lost the wrapper itself
    obtain ⟨n, hn, hbelow⟩ := exists_settled_of_alone hstands.isWrapper halone'
    have hle : n + 1 ≤ body.nesting := hn ▸ Tree.nesting_le_of_at? hstands.here
    have hattrs : ∀ a ∈ e.attrs, a.Settled setting.names.formik n :=
      Tree.settled_list.mp (hbelow (.list e.attrs) (by simp [Element.toTree]))
    have htypeArgs : e.typeArgs.Settled setting.names.formik n := hbelow e.typeArgs (by simp [Element.toTree])
    obtain ⟨hmarkup, hsetup⟩ := hc.inside.below (P := Settled setting.names.formik n) (fun hopens ht => ht.child hopens)
      (Tree.settled_list.mp (hbelow (.list e.children) (by simp [Element.toTree])))
    have hown := settled_rewrite hc.inside hone halone (hn ▸ settled_provide hname hmarkup)
    rw [Tree.settled_statements]
    intro t ht
    rcases hc.mem_statements.mp ht with ht | ht | rfl | ht
    · exact (settled_helpersOf (n := n) setting r.param mid t ht).mono hle
    · obtain ⟨u, hu, rfl⟩ := List.mem_map.mp ht
      exact ((hsetup u hu).convertReads r.param).mono (Nat.le_of_lt hle)
    · have hhook := settled_hook (settled_hookOptions hattrs) (htypeArgs.mono (Nat.le_succ n))
      exact (hhook.convertReads r.param).mono hle
    · rw [hc.own_eq] at ht
      exact Tree.settled_statements.mp hown t ht
  · obtain rfl := convertScope_of_none hok fun p e h => hstands ⟨p, e, h⟩
    exact settled_of_no_wrapper (fun p e h => hstands ⟨p, e, h⟩) halone

/-! ## Modules in which wrappers stand alone -/

/-- A scope without a wrapper is left as it is. -/
theorem convertScope_of_holds (hno : body.holds setting.names.formik = false) :
    convertScope setting body = .ok (body, {}) := by
  have hnone : wrappers setting.names body = [] := by
    refine (Tree.Lacks.of_any hno).outermost_eq_nil fun u hu => ?_
    rw [wrapper?_eq_none_iff]
    rintro e rfl hwrapper
    simp [Tree.isTagged, hwrapper.tag] at hu
  simp [convertScope, site?, hnone]
  rfl

def onScope (setting : Setting) (_ : ScopeKind) (body : Tree) : StateT Symbols (Except ConvertError) Tree :=
  match convertScope setting body with
  | .error e => throw (.children e)
  | .ok (body, symbols) => do
      modify (· ++ symbols)
      return body

theorem convert_eq (setting : Setting) (m : Module) : convert setting m = m.forEachScope (onScope setting) := rfl

theorem onScope_inv {k : ScopeKind} {s s' : Symbols} (h : Gives (onScope setting k body) s body' s') :
    ∃ σ, convertScope setting body = .ok (body', σ) := by
  unfold onScope at h
  cases hscope : convertScope setting body with
  | error err =>
      rw [hscope] at h
      cases h
  | ok r =>
      rw [hscope] at h
      cases h
      exact ⟨_, rfl⟩

/-- If all wrappers of a module are alone, none is left in its scopes. -/
theorem treats_onScope (hname : setting.names.formik ≠ "FormProvider") :
    Tree.Treats (onScope setting) (Tree.Everywhere (Alone setting.names.formik))
      fun body => body.holds setting.names.formik = false where
  child halone hc := halone.child hc
  body halone hgives := by
    obtain ⟨σ, hok⟩ := onScope_inv hgives
    have hsettled := settled_convertScope hname hok halone
    exact ⟨hsettled.alone, hsettled.holds, hsettled.nesting⟩
  walked _ hno hwalk := by
    refine (Tree.walk_gives (Tree.walkable_holds fun k body s body' s' hno hgives => ?_) hwalk).2 hno
    obtain ⟨σ, hok⟩ := onScope_inv hgives
    rw [convertScope_of_holds hno] at hok
    cases hok
    rfl

/-! ## What is left in a scope -/

/-- A body holds an element exactly if one of its statements does. -/
theorem holds_statements : body.holds x = true ↔ ∃ t ∈ body.statements, t.holds x = true := by
  unfold Tree.statements Tree.statements?
  split
  next o ss =>
    rw [Tree.holds, Tree.any_node]
    simp [Tree.opensScope, Tree.isComponentFunction, Tree.declaresComponent, Tree.isTagged, Tree.element?, Tree.holds]
  next =>
    simp [Make.ret, Tree.holds, Tree.any, Tree.anyAll, Tree.opensScope, Tree.isComponentFunction, Tree.declaresComponent,
      Tree.isTagged, Tree.element?]

/-- A traversal that does not look into reads comes to a wrapper. -/
def showsWrapper (names : LibraryNames) (p t : Tree) : Bool :=
  t.any (fun u => u.opensScope || p.reads u) fun u => (wrapper? names u).isSome

/-- Something is found in what the items give if an item shows it, given what does not depend on the item. -/
theorem exists_mem_flatMap_iff {ts : List Tree} {give : Tree → List Tree} {shows : Tree → Bool} {found : Tree → Prop}
    {always : Prop} (h : ∀ t ∈ ts, (∃ u ∈ give t, found u) ↔ shows t = true ∧ always) :
    (∃ u ∈ ts.flatMap give, found u) ↔ ts.any shows = true ∧ always := by
  rw [List.any_eq_true]
  constructor
  · rintro ⟨u, hu, hfound⟩
    obtain ⟨t, ht, hu⟩ := List.mem_flatMap.mp hu
    obtain ⟨hshows, halways⟩ := (h t ht).mp ⟨u, hu, hfound⟩
    exact ⟨⟨t, ht, hshows⟩, halways⟩
  · rintro ⟨⟨t, ht, hshows⟩, halways⟩
    obtain ⟨u, hu, hfound⟩ := (h t ht).mpr ⟨hshows, halways⟩
    exact ⟨u, List.mem_flatMap.mpr ⟨t, ht, hu⟩, hfound⟩

/-- What is put in holds an element if the markup does that takes the place of the wrapper. -/
theorem exists_outermost_rewriteRule (t : Tree) :
    (∃ u ∈ t.outermost Tree.opensScope (rewriteRule names r), u.holds x = true) ↔
      showsWrapper names r.param t = true ∧ r.param.keeps x (provide names r.markup) = true := by
  induction t using Tree.ind with
  | node o k ts ih =>
      rw [Tree.outermost_node, showsWrapper, Tree.any_node]
      by_cases hs : (Tree.node o k ts).opensScope = true
      · simp [hs]
      · rw [if_neg hs, (Bool.not_eq_true _).mp hs, Bool.false_or]
        cases hw : wrapper? names (.node o k ts) with
        | some e =>
            -- reads are expressions, so a wrapper is none
            have hread : r.param.reads (.node o k ts) = false := by
              obtain ⟨htree, -⟩ := wrapper?_eq_some_iff.mp hw
              rw [htree, Tree.reads, Option.isSome_eq_false_iff, Option.isNone_iff_eq_none,
                Option.eq_none_iff_forall_not_mem]
              intro t' ht'
              obtain ⟨⟨_, _, _, hexpr⟩, -⟩ := Tree.expr_of_readIn? ht'
              cases hexpr
            rw [rewriteRule_of_wrapper hw]
            simp [hread, Tree.holds_convertReads]
        | none =>
            rw [rewriteRule_of_none hw]
            cases hr : r.param.readIn? (.node o k ts) with
            | some t' => simp [Tree.reads, hr, Tree.holds_of_readIn? hr]
            | none =>
                have hread : r.param.reads (.node o k ts) = false := by
                  rw [Tree.reads, hr]
                  rfl
                rw [hread, Bool.not_false, Bool.true_and, Option.isSome_none, Bool.false_or]
                exact exists_mem_flatMap_iff ih
  | list ts ih =>
      rw [Tree.outermost_list, showsWrapper, Tree.any_list]
      exact exists_mem_flatMap_iff ih
  | absent => simp [Tree.outermost, showsWrapper, Tree.any]

/-- Where the elements in a converted scope come from: from beside the wrapper, or from one
of its parts. -/
theorem Converted.holds_iff (hc : Converted setting body e r h a own mid body') :
    body'.holds x = true ↔
      body.any (fun u => u.opensScope || ((wrapper? setting.names u).isSome || r.param.reads u)) (Tree.isTagged x) = true ∨
      showsWrapper setting.names r.param body = true ∧ r.param.keeps x (provide setting.names r.markup) = true ∨
      r.param.keeps x (hook (hookOptions e.attrs) e.typeArgs) = true ∨ ∃ t ∈ r.setup, r.param.keeps x t = true := by
  have hown : (∃ t ∈ own, t.holds x = true) ↔
      body.any (fun u => u.opensScope || ((wrapper? setting.names u).isSome || r.param.reads u)) (Tree.isTagged x) = true ∨
      showsWrapper setting.names r.param body = true ∧ r.param.keeps x (provide setting.names r.markup) = true := by
    rw [hc.own_eq, ← holds_statements, rewrite_eq_mapDown hc.inside, Tree.holds,
      Tree.any_mapDown (outline_rewriteRule hc.inside) (Tree.isOutlined_isTagged x)]
    simp only [isSome_rewriteRule]
    exact or_congr_right (exists_outermost_rewriteRule body)
  rw [holds_statements, ← or_assoc, ← hown]
  constructor
  · rintro ⟨t, ht, hholds⟩
    rcases hc.mem_statements.mp ht with ht | ht | rfl | ht
    · -- helpers hold no elements
      have hno := (settled_helpersOf (x := x) (n := 0) setting r.param mid t ht).holds
      rw [hholds] at hno
      cases hno
    · obtain ⟨u, hu, rfl⟩ := List.mem_map.mp ht
      rw [Tree.holds_convertReads] at hholds
      exact .inr (.inr ⟨u, hu, hholds⟩)
    · rw [Tree.holds_convertReads] at hholds
      exact .inr (.inl hholds)
    · exact .inl ⟨t, ht, hholds⟩
  · rintro (⟨t, ht, hholds⟩ | hhook | ⟨t, ht, hkeeps⟩)
    · exact ⟨t, hc.mem_statements.mpr (.inr (.inr (.inr ht))), hholds⟩
    · exact ⟨_, hc.mem_statements.mpr (.inr (.inr (.inl rfl))), (Tree.holds_convertReads ..).trans hhook⟩
    · exact ⟨_, hc.mem_statements.mpr (.inr (.inl (List.mem_map_of_mem ht))), (Tree.holds_convertReads ..).trans hkeeps⟩

/-- A wrapper is left in the scopes of a converted module only if in that module one was bare as the value of an
attribute or had another one inside of it, or if wrappers are called like the provider. In a converted scope one is left
exactly if there was one beside the wrapper, as the value of an attribute, or one inside of it. -/
theorem convert_leaves (setting : Setting) :
    (∀ m m' s s', (convert setting m).run s = .ok (m', s') →
      ∀ h ∈ m'.handouts, h.body.holds setting.names.formik = true →
        setting.names.formik = "FormProvider" ∨
        ∃ (p : Place) (e : Element), m.at? p = some e.toTree ∧ e.tag? = some setting.names.formik ∧
          (e.asValue = true ∨ ∃ c ∈ e.toTree.children, c.holds setting.names.formik = true)) ∧
    ∀ body body' σ, convertScope setting body = .ok (body', σ) →
      ((∀ p e, ¬ StandsAt setting.names body p e) → body' = body) ∧
      ∀ p e r, StandsAt setting.names body p e → Rendering.Inside e r →
        (body'.holds setting.names.formik = true ↔
          body.any (fun u => u.opensScope || ((wrapper? setting.names u).isSome || r.param.reads u))
            (Tree.isTagged setting.names.formik) = true ∨
          showsWrapper setting.names r.param body = true ∧
            r.param.keeps setting.names.formik (provide setting.names r.markup) = true ∨
          r.param.keeps setting.names.formik (hook (hookOptions e.attrs) e.typeArgs) = true ∨
          ∃ t ∈ r.setup, r.param.keeps setting.names.formik t = true) := by
  refine ⟨fun m m' s s' hrun => ?_, fun body body' σ hok => ⟨convertScope_of_none hok, fun p e r he hinside => ?_⟩⟩
  · intro h hh hholds
    by_contra hcontra
    rw [not_or] at hcontra
    obtain ⟨hname, hno⟩ := hcontra
    -- where no wrapper is of the two sorts, all of them are alone
    have halone : ∀ t ∈ m.items, t.Everywhere (Alone setting.names.formik) := by
      rintro t ht p _ hp e rfl htag
      obtain ⟨i, hi⟩ := List.mem_iff_getElem?.mp ht
      have hplace : m.at? (i :: p) = some e.toTree := Tree.at?_cons_eq_some.mpr ⟨t, hi, hp⟩
      refine ⟨Bool.eq_false_iff.mpr fun hvalue => hno ⟨_, e, hplace, htag, .inl hvalue⟩, fun c hc => ?_⟩
      exact Bool.eq_false_iff.mpr fun hc' => hno ⟨_, e, hplace, htag, .inr ⟨c, hc, hc'⟩⟩
    have hgives : Gives (convert setting m) s m' s' := hrun
    rw [convert_eq] at hgives
    have hleft := Module.handouts_forEachScope (treats_onScope hname) halone hgives h hh
    rw [hholds] at hleft
    cases hleft
  · obtain ⟨r', h, a, own, mid, hc⟩ := exists_converted hok he
    obtain rfl := hinside.unique hc.inside
    exact hc.holds_iff

/-- `<Formik onSubmit={send}>{() => <p/>}</Formik>` -/
def innerForm : Element :=
  { origin := .made, asValue := false, selfClosing := false, name := Make.name "Formik",
    attrs := [Make.exprAttr "onSubmit" (Make.ident "send")], typeArgs := .absent,
    children := [Make.container (Make.arrow [] (Make.element "p" [] []))], closing := Make.name "Formik" }

/-- `<Formik onSubmit={save}>{() => <form><Formik ..>..</Formik></form>}</Formik>` -/
def outerForm : Element :=
  { innerForm with
    attrs := [Make.exprAttr "onSubmit" (Make.ident "save")]
    children := [Make.container (Make.arrow [] (Make.element "form" [] [innerForm.toTree]))] }

/-- `{ return <Formik ..>..</Formik>; }` with another wrapper inside of it. -/
def nestedBody : Tree := Make.block [Make.ret outerForm.toTree]

/-- `function A() { return <Formik ..>..</Formik>; }` -/
def nestedModule : Module where
  origin := .made
  items := [.stmt .made (.func false)
    [Make.name "A", .part .made (.function false false) [.list [], nestedBody, .absent, .absent]]]

/-- The inner wrapper is left in the component, and no error tells of it. -/
theorem nestedModule_leaves :
    (∃ m' s', (convert ⟨{}, false⟩ nestedModule).run {} = .ok (m', s') ∧
      (∃ h ∈ m'.handouts, h.body.holds "Formik" = true) ∧
      ∃ (p : Place) (e : Element), nestedModule.at? p = some e.toTree ∧ e.tag? = some "Formik" ∧
        (e.asValue = true ∨ ∃ c ∈ e.toTree.children, c.holds "Formik" = true)) ∧
    ∃ body' σ, convertScope ⟨{}, false⟩ nestedBody = .ok (body', σ) ∧ body'.holds "Formik" = true := by
  obtain ⟨hmodule, hscope⟩ := convert_leaves ⟨{}, false⟩
  constructor
  · have hleft : ((convert ⟨{}, false⟩ nestedModule).run {}).toOption.any
        (fun r => r.1.handouts.any fun h => h.body.holds "Formik") = true := by decide +kernel
    cases hrun : (convert ⟨{}, false⟩ nestedModule).run {} with
    | error err =>
        rw [hrun] at hleft
        cases hleft
    | ok r =>
        rw [hrun] at hleft
        obtain ⟨h, hh, hholds⟩ := List.any_eq_true.mp hleft
        exact ⟨r.1, r.2, rfl, ⟨h, hh, hholds⟩, (hmodule _ _ _ _ hrun h hh hholds).resolve_left (by decide)⟩
  · obtain ⟨p, hp⟩ : ∃ p, StandsAt {} nestedBody p outerForm :=
      mem_wrappers_iff.mp (show outerForm ∈ [outerForm] from List.mem_singleton.mpr rfl)
    have hinside : Rendering.Inside outerForm _ := (Rendering.ofElement_eq_ok_iff outerForm).mp rfl
    exact ⟨_, _, rfl, ((hscope nestedBody _ _ rfl).2 p outerForm _ hp hinside).mpr (.inr (.inl ⟨by decide, by decide⟩))⟩

end FormCodemod.FormWrapper
