import FormCodemod.Proofs.Wrapper.Converted

/-!
# Around the wrapper

The conversion of a form wrapper takes names apart that a render function binds. They are in sight inside of the
wrapper only, but the reads of the form state are converted when its markup is already in the component. So what is
around the wrapper stays as it is exactly if nothing there reads as a read of the form state
(`convertScope_outside`): no member of a variable that is called like the parameter, and no variable that is called like
a handler which the parameter took.
-/

namespace FormCodemod.FormWrapper

variable {names : LibraryNames} {t M : Tree} {e : Element} {r : Rendering}

theorem isMarkup_convertReads (p : Tree) (h : t.isMarkup = true) : (p.convertReads t).isMarkup = true := by
  have hnone : p.readIn? t = none := by
    rw [Option.eq_none_iff_forall_not_mem]
    intro t' ht'
    obtain ⟨⟨_, _, _, rfl⟩, -⟩ := Tree.expr_of_readIn? ht'
    cases h
  rw [Tree.convertReads_eq_mapDown, Tree.mapDown_eq_withChildren (Tree.opensScope_of_isMarkup h) hnone]
  unfold Tree.isMarkup at h
  split at h
  · rfl
  · rfl
  · cases h

/-- What is around the wrapper is as it was exactly if no read of the form state stands there. -/
theorem rewrite_eq_fill_iff (h : Rendering.Inside e r) (t : Tree) :
    rewrite names r t = fill names (r.param.convertReads (provide names r.markup)) t ↔
      t.any (fun u => u.opensScope || (wrapper? names u).isSome) r.param.reads = false := by
  have hM := isMarkup_convertReads r.param (isMarkup_of_inside names h)
  have hrule : (fun u => (fillRule names (provide names r.markup) u).map (Tree.mapDown Tree.opensScope r.param.readIn?)) =
      fillRule names (r.param.convertReads (provide names r.markup)) := by
    funext u
    rw [fillRule, Option.map_map, Tree.convertReads_eq_mapDown]
    rfl
  have hsome : ∀ u, (fillRule names (provide names r.markup) u).isSome = (wrapper? names u).isSome :=
    fun u => Option.isSome_map
  rw [rewrite_eq_mapDown h, fill, ← hrule, rewriteRule, Tree.mapDown_andThen_eq_iff]
  · simp only [hsome]
    rfl
  · intro u u' _ hu'
    rw [hrule]
    rw [← Tree.readIn?_mapDown (isMarkup_fillRule hM)] at hu'
    exact Tree.readIn?_ne hu'

/-- The statements that were there stay as they are around the wrapper, but for what reads as a read of the form state
there: that is converted as if it were inside of the render function. -/
theorem convertScope_outside (setting : Setting) (body body' : Tree) (σ : Symbols) (p : Place) (e : Element)
    (hok : convertScope setting body = .ok (body', σ)) (he : StandsAt setting.names body p e) :
    ∃ (r : Rendering) (h a : Nat) (helpers : List Tree) (own : Tree),
      Rendering.Inside e r ∧ IsHolder setting.names e body.statements h ∧
      IsHookPlace (hookOptions e.attrs) (body.statements.take h) a ∧
      body'.statements =
        own.statements.take a ++ [r.param.convertReads (hook (hookOptions e.attrs) e.typeArgs)] ++ helpers ++
          (own.statements.take h).drop a ++ r.setup.map r.param.convertReads ++ own.statements.drop h ∧
      own = body.mapDown Tree.opensScope (fun t =>
        if (wrapper? setting.names t).isSome then some (r.param.convertReads (provide setting.names r.markup))
        else r.param.readIn? t) ∧
      (own = fill setting.names (r.param.convertReads (provide setting.names r.markup)) body ↔
        body.any (fun t => t.opensScope || (wrapper? setting.names t).isSome) r.param.reads = false) := by
  obtain ⟨r, h, a, own, mid, hconv⟩ := exists_converted hok he
  have hrule : rewriteRule setting.names r = fun t =>
      if (wrapper? setting.names t).isSome then some (r.param.convertReads (provide setting.names r.markup))
      else r.param.readIn? t := by
    funext t
    cases hw : wrapper? setting.names t with
    | none => exact rewriteRule_of_none hw
    | some e' => exact rewriteRule_of_wrapper hw
  refine ⟨r, h, a, helpersOf setting r.param mid, rewrite setting.names r body, hconv.inside, hconv.holder,
    hconv.hookPlace, ?_, ?_, rewrite_eq_fill_iff hconv.inside body⟩
  · rw [hconv.statements_eq, hconv.own_eq]
  · rw [rewrite_eq_mapDown hconv.inside, hrule]

/-- `<Formik initialValues={v} onSubmit={save}>{(props) => <p>{props.values.name}</p>}</Formik>` -/
def propsForm : Element :=
  let name := Make.member (Make.member (Make.ident "props") "values") "name"
  { origin := .made, asValue := false, selfClosing := false, name := Make.name "Formik",
    attrs := [Make.exprAttr "initialValues" (Make.ident "v"), Make.exprAttr "onSubmit" (Make.ident "save")],
    typeArgs := .absent,
    children := [Make.container (Make.arrow [Make.binding "props"] (Make.element "p" [] [Make.container name]))],
    closing := Make.name "Formik" }

/-- `{ const v = props.values; return <Formik ..>..</Formik>; }` in a component that is handed `props`. -/
def propsBody : Tree :=
  Make.block [Make.constNamed "v" (Make.member (Make.ident "props") "values"), Make.ret propsForm.toTree]

/-- The component reads `values` off its own `props`, and is made to read those of the form. -/
theorem propsBody_outside :
    ∃ body' σ r, convertScope ⟨{}, false⟩ propsBody = .ok (body', σ) ∧ Rendering.Inside propsForm r ∧
      propsBody.statements.head? = some (Make.constNamed "v" (Make.member (Make.ident "props") "values")) ∧
      body'.statements.head? = some (Make.constNamed "v" (Make.ident "values")) ∧
      propsBody.mapDown Tree.opensScope (fun t =>
        if (wrapper? {} t).isSome then some (r.param.convertReads (provide {} r.markup)) else r.param.readIn? t) ≠
          fill {} (r.param.convertReads (provide {} r.markup)) propsBody := by
  obtain ⟨p, hp⟩ : ∃ p, StandsAt {} propsBody p propsForm :=
    mem_wrappers_iff.mp (show propsForm ∈ [propsForm] from List.mem_singleton.mpr rfl)
  obtain ⟨r, h, a, helpers, own, hinside, -, -, -, rfl, hiff⟩ :=
    convertScope_outside ⟨{}, false⟩ propsBody _ _ p propsForm rfl hp
  refine ⟨_, _, r, rfl, hinside, rfl, rfl, fun heq => ?_⟩
  have hnone := hiff.mp heq
  obtain rfl := hinside.unique ((Rendering.ofElement_eq_ok_iff propsForm).mp rfl)
  revert hnone
  decide

end FormCodemod.FormWrapper
