import FormCodemod.Proofs.Convert.Reads
import FormCodemod.Proofs.Wrapper.Statements

/-!
# A scope with its wrapper converted

`FormWrapper.Converted` ties a scope to what the conversion of its wrapper makes of it: the statements that were there
(`rewrite`), the hook, the render function's own statements and the helpers (`exists_converted`).

Putting the markup in and converting the reads is one traversal (`rewrite_eq_mapDown`), since reads do not see markup.
-/

namespace FormCodemod.FormWrapper

variable {names : LibraryNames} {body body' t t' M : Tree} {e : Element} {r : Rendering}

/-! ## Markup in the place of the wrapper -/

/-- The rule that puts `M` in the place of a wrapper. -/
def fillRule (names : LibraryNames) (M : Tree) (t : Tree) : Option Tree := (wrapper? names t).map fun _ => M

/-- The scope with `M` in the place of its wrapper, and all else as it was. -/
def fill (names : LibraryNames) (M body : Tree) : Tree := body.mapDown Tree.opensScope (fillRule names M)

/-- Only wrappers are filled in for. -/
theorem fillRule_eq_some (h : fillRule names M t = some t') : t' = M ∧ ∃ e, IsWrapper names e ∧ t = e.toTree := by
  obtain ⟨e, he, rfl⟩ := Option.map_eq_some_iff.mp h
  obtain ⟨rfl, hwrapper⟩ := wrapper?_eq_some_iff.mp he
  exact ⟨rfl, e, hwrapper, rfl⟩

theorem outline_of_isMarkup (h : t.isMarkup = true) : t.outline = {} := by
  unfold Tree.isMarkup at h
  split at h
  · rw [Tree.outline_node]
    rfl
  · rw [Tree.outline_node]
    rfl
  · cases h

/-- Wrappers are markup, so that markup takes the place of markup. -/
theorem isMarkup_fillRule (hM : M.isMarkup = true) (t t' : Tree) (h : fillRule names M t = some t') :
    t.isMarkup = true ∧ t'.isMarkup = true := by
  obtain ⟨rfl, e, -, rfl⟩ := fillRule_eq_some h
  exact ⟨rfl, hM⟩

/-- Markup in the place of a wrapper has its outline. -/
theorem outline_fillRule (hM : M.isMarkup = true) (t t' : Tree) (h : fillRule names M t = some t') :
    t'.outline = t.outline := by
  obtain ⟨ht, ht'⟩ := isMarkup_fillRule hM t t' h
  rw [outline_of_isMarkup ht, outline_of_isMarkup ht']

theorem isMarkup_provide (names : LibraryNames) (h : t.isMarkup = true) : (provide names t).isMarkup = true := by
  unfold provide
  split
  · rfl
  · exact h

/-- What stands inside a wrapper is markup, with a provider or without. -/
theorem isMarkup_of_inside (names : LibraryNames) (h : Rendering.Inside e r) : (provide names r.markup).isMarkup = true :=
  isMarkup_provide names (h.markup (P := fun m => m.isMarkup = true) (fun _ _ _ _ => rfl) fun _ _ => rfl)

/-! ## The statements that were there -/

/-- The rule of the conversion: markup for the wrapper, in which reads are converted, and for a read what it becomes. -/
def rewriteRule (names : LibraryNames) (r : Rendering) : Tree → Option Tree :=
  Tree.andThen Tree.opensScope (fillRule names (provide names r.markup)) r.param.readIn?

theorem rewriteRule_of_wrapper (h : wrapper? names t = some e) :
    rewriteRule names r t = some (r.param.convertReads (provide names r.markup)) := by
  rw [rewriteRule, Tree.andThen, fillRule, h, Tree.convertReads_eq_mapDown]
  rfl

theorem rewriteRule_of_none (h : wrapper? names t = none) : rewriteRule names r t = r.param.readIn? t := by
  rw [rewriteRule, Tree.andThen, fillRule, h]
  rfl

theorem isSome_rewriteRule (names : LibraryNames) (r : Rendering) (t : Tree) :
    (rewriteRule names r t).isSome = ((wrapper? names t).isSome || r.param.reads t) := by
  cases h : wrapper? names t with
  | none => rw [rewriteRule_of_none h, Option.isSome_none, Bool.false_or, Tree.reads]
  | some e => rw [rewriteRule_of_wrapper h, Option.isSome_some, Option.isSome_some, Bool.true_or]

/-- The two steps of rewriting are one traversal. -/
theorem rewrite_eq_mapDown (h : Rendering.Inside e r) (t : Tree) :
    rewrite names r t = t.mapDown Tree.opensScope (rewriteRule names r) := by
  have hM := isMarkup_of_inside names h
  rw [rewrite, Tree.convertReads_eq_mapDown]
  refine Tree.mapDown_mapDown (fun u hu => ?_) (fun u _ => Tree.readIn?_mapDown (isMarkup_fillRule hM) u) t
  cases u with
  | node o k ts =>
      rw [Tree.mapDown_node, hu]
      split
      · rfl
      · exact Tree.isOutlined_opensScope (.node o k ts) _ (Tree.map_outline_mapDown (outline_fillRule hM) _ ts)
  | list ts => rfl
  | absent => rfl

/-- What a wrapper or a read becomes has its outline. -/
theorem outline_rewriteRule (h : Rendering.Inside e r) (t t' : Tree) (ht : rewriteRule names r t = some t') :
    t'.outline = t.outline := by
  cases hw : wrapper? names t with
  | none =>
      rw [rewriteRule_of_none hw] at ht
      exact Tree.outline_readIn? ht
  | some e' =>
      rw [rewriteRule_of_wrapper hw] at ht
      cases ht
      obtain ⟨rfl, -⟩ := wrapper?_eq_some_iff.mp hw
      rw [Tree.convertReads_eq_mapDown, Tree.outline_mapDown (fun _ _ => Tree.outline_readIn?),
        outline_of_isMarkup (isMarkup_of_inside names h), outline_of_isMarkup rfl]

/-- Expressions are rewritten to expressions. -/
theorem isExpression_rewriteRule (h : Rendering.Inside e r) (t t' : Tree) (ht : rewriteRule names r t = some t') :
    t.isExpression = true ∧ t'.isExpression = true := by
  cases hw : wrapper? names t with
  | none =>
      rw [rewriteRule_of_none hw] at ht
      obtain ⟨⟨_, _, _, rfl⟩, _, _, _, rfl⟩ := Tree.expr_of_readIn? ht
      exact ⟨rfl, rfl⟩
  | some e' =>
      rw [rewriteRule_of_wrapper hw] at ht
      cases ht
      obtain ⟨rfl, -⟩ := wrapper?_eq_some_iff.mp hw
      have hexpr : (provide names r.markup).isExpression = true := isExpression_provide (isExpression_of_inside h)
      exact ⟨rfl, (Tree.rewritten_convertReads ..).isExpression_eq.trans hexpr⟩

/-- The statements are rewritten one by one. -/
theorem statements_rewrite (h : Rendering.Inside e r) (body : Tree) :
    (rewrite names r body).statements = body.statements.map (rewrite names r) := by
  rw [rewrite_eq_mapDown h, Tree.statements_mapDown (isExpression_rewriteRule h)]
  exact List.map_congr_left fun t _ => (rewrite_eq_mapDown h t).symm

/-! ## All statements -/

/-- The helpers of a scope in which the form state was bound to `param`. -/
def helpersOf (setting : Setting) (param mid : Tree) : List Tree :=
  let uses := mid.unwiredUses setting.names
  let caps := Capabilities.resolve param.takenNames uses (Tree.declaredNames mid.statements)
  Capabilities.wholeHelper uses param.wholeBinding? ++ { caps with fieldset := false }.helpers setting formName

/-- The wrapper `e` of a scope, which renders `r`, was converted. `own` are the statements that were there, `mid` is the
scope before it got its helpers. -/
structure Converted (setting : Setting) (body : Tree) (e : Element) (r : Rendering) (h a : Nat) (own : List Tree)
    (mid body' : Tree) : Prop where
  inside : Rendering.Inside e r
  holder : IsHolder setting.names e body.statements h
  hookPlace : IsHookPlace (hookOptions e.attrs) (body.statements.take h) a
  own_eq : own = (rewrite setting.names r body).statements
  mid_eq : mid.statements =
    insertAt (h + 1) (r.setup.map r.param.convertReads)
      (insertAt a [r.param.convertReads (hook (hookOptions e.attrs) e.typeArgs)] own)
  body_eq : body'.statements = insertAt (a + 1) (helpersOf setting r.param mid) mid.statements

variable {setting : Setting} {σ : Symbols} {p : Place}

/-- A scope in which no wrapper stands is left as it is. -/
theorem convertScope_of_none (hok : convertScope setting body = .ok (body', σ))
    (hno : ∀ p e, ¬ StandsAt setting.names body p e) : body' = body := by
  have hnone : wrappers setting.names body = [] :=
    List.eq_nil_iff_forall_not_mem.mpr fun e he => (mem_wrappers_iff.mp he).elim fun p => hno p e
  unfold convertScope site? at hok
  rw [hnone] at hok
  cases hok
  rfl

/-- If the pass succeeds in a scope with a wrapper, the scope is converted as the wrapper says. -/
theorem exists_converted (hok : convertScope setting body = .ok (body', σ)) (he : StandsAt setting.names body p e) :
    ∃ r h a own mid, Converted setting body e r h a own mid body' := by
  obtain ⟨hone, s, hs, hsite⟩ := convertScope_inv hok he
  obtain ⟨hinside, hoptions, hhook, hmarkup⟩ := takeApart_inv hs
  obtain ⟨h, hh⟩ : ∃ h, FormWrapper.holder setting.names body.statements = h := ⟨_, rfl⟩
  obtain ⟨a, ha⟩ : ∃ a, FormWrapper.hookPlace s.options (body.statements.take h) = a := ⟨_, rfl⟩
  have hholder : IsHolder setting.names e body.statements h := hh ▸ isHolder_holder hone
  have hplace : IsHookPlace s.options (body.statements.take h) a := ha ▸ isHookPlace_hookPlace ..
  have hmid : (s.rendering.param.convertReads (unwrap setting.names s h a body)).statements = _ :=
    statements_unwrap hinside hmarkup h a
  rw [hhook, ← statements_rewrite hinside] at hmid
  refine ⟨s.rendering, h, a, _, s.rendering.param.convertReads (unwrap setting.names s h a body), hinside, hholder,
    hoptions ▸ hplace, rfl, hmid, ?_⟩
  have hfst : (convertSite setting s body).1 = body' := congrArg Prod.fst hsite
  subst hh ha
  rw [← hfst]
  exact Tree.statements_withStatements ..

namespace Converted

variable {h a : Nat} {own : List Tree} {mid : Tree}

theorem length_own (hc : Converted setting body e r h a own mid body') : own.length = body.statements.length := by
  rw [hc.own_eq, statements_rewrite hc.inside, List.length_map]

/-- Where everything ends up. -/
theorem statements_eq (hc : Converted setting body e r h a own mid body') :
    body'.statements =
      own.take a ++ [r.param.convertReads (hook (hookOptions e.attrs) e.typeArgs)] ++ helpersOf setting r.param mid ++
        (own.take h).drop a ++ r.setup.map r.param.convertReads ++ own.drop h := by
  have hah : a ≤ h := Nat.le_trans hc.hookPlace.le_length (List.length_take_le ..)
  have hlt : h < own.length := by
    obtain ⟨t, -, ht, -⟩ := hc.holder.holds
    rw [hc.length_own]
    exact (List.getElem?_eq_some_iff.mp ht).1
  rw [hc.body_eq, hc.mid_eq, insertAt_insertAt_insertAt hah (Nat.le_of_lt hlt)]

end Converted

end FormCodemod.FormWrapper
