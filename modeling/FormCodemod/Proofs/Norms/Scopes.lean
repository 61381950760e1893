import FormCodemod.Convert.Context
import FormCodemod.Convert.FieldHook
import FormCodemod.Convert.FormWrapper
import FormCodemod.Proofs.Names.Hooks
import FormCodemod.Proofs.Names.Wrapper
import FormCodemod.Proofs.Norms.Elements

/-!
# Norms and scopes

What each pass makes of the body of a scope keeps to the norms that the body keeps to: the context hook
(`Context.meets_convertScope`), the field hook (`FieldHook.meets_convertScope`), the form wrapper
(`FormWrapper.meets_convertScope`) and field markup (`FieldMarkup.meets_convertScope`).
-/

namespace FormCodemod

variable {n : Norm} {s : Setting}

/-! ## The context hook -/

namespace Tree

variable {t t' p : Tree} {x : String}

theorem meets_convertHook? (ht : t.Meets n) (h : convertHook? x t = some (t', p)) : t'.Meets n := by
  obtain ⟨o, d, co, callee, args, targs, -, rfl, rfl⟩ := convertHook?_eq_some h
  simp at ht
  simp [ht]

theorem meets_convertHookIn? (ht : t.Meets n) (h : convertHookIn? x t = some (t', p)) : t'.Meets n := by
  obtain ⟨o, kw, dcl, pre, d, d', post, hd, rfl, rfl⟩ := convertHookIn?_eq_some h
  rw [meets_node rfl] at ht ⊢
  exact ⟨ht.1, forall_mem_replace ht.2 (meets_convertHook? (ht.2 d (by simp)) hd)⟩

end Tree

/-- The context pass keeps a scope to every norm that allows the setting. -/
theorem Context.meets_convertScope (hs : n.Allows s) {body : Tree} (h : body.Meets n) : (convertScope s body).Meets n := by
  unfold convertScope
  split
  · exact h
  · next ss hss =>
      split
      · exact h
      · next ss' i p hfirst =>
          obtain ⟨pre, t, t', post, rfl, ht, rfl, -⟩ := mapFirst?_eq_some hfirst
          have hss := h.statements? hss
          have ht' := Tree.meets_convertHookIn? (hss t (by simp)) ht
          -- first the statement with the hook, then the reads in the whole scope, then the helpers
          have hbody : (body.withStatements (pre ++ t' :: post)).Meets n := by
            rw [Tree.meets_withStatements]
            exact forall_mem_replace hss ht'
          have hreads := (Tree.upholds_convertReads p _ hbody).1
          exact hreads.declareHelpers hs _ _ _ _

/-! ## The field hook -/

namespace FieldHook

variable {t t' : Tree} {h : FieldHook} {field form hook : String}

/-- The parts of a hook that end up in made code keep to a norm. -/
structure Meets (n : Norm) (h : FieldHook) : Prop where
  name : h.name.Meets n
  valueType : h.valueType.Meets n

/-- What is read off a field hook meets the norm if its declarator does. -/
theorem meets_ofDeclarator? (ht : t.Meets n) (hh : ofDeclarator? hook t = some h) : h.Meets n := by
  unfold ofDeclarator? at hh
  split at hh
  · next e =>
      split at hh
      · next args targs hcall =>
          cases hh
          simp at ht
          have hmeets := ht.2.callTo? hcall
          simp at hmeets
          obtain ⟨-, hargs, htargs⟩ := hmeets
          exact ⟨(Tree.meets_hereditary n).firstName hargs,
            Tree.holds_getD (fun t ht => htargs.child (List.mem_of_head? ht)) Tree.meets_absent⟩
      · cases hh
  · cases hh

theorem meets_rebind (ht : t.Meets n) : (rebind field form t).Meets n := by
  unfold rebind
  split
  · simp at ht
    simp [ht]
  · exact ht

theorem meets_convertStatement? (ht : t.Meets n) (hh : convertStatement? hook field form t = some (t', h)) :
    t'.Meets n ∧ h.Meets n := by
  obtain ⟨o, kw, dcl, pre, d, post, hof, rfl, rfl, -⟩ := convertStatement?_eq_some hh
  rw [Tree.meets_node rfl] at ht ⊢
  have hd := ht.2 d (by simp)
  exact ⟨⟨ht.1, forall_mem_replace ht.2 (meets_rebind hd)⟩, meets_ofDeclarator? hd hof⟩

/-! ### Declarations -/

theorem meets_fieldMember (field k : String) : (fieldMember field k).Meets n := by simp [fieldMember]

theorem meets_firstError (field : String) : (firstError field).Meets n := by simp [firstError, meets_fieldMember]

theorem meets_metaMember (field k : String) : (metaMember field k).Meets n := by
  unfold metaMember
  split
  · exact meets_firstError field
  · exact meets_fieldMember field k

theorem meets_valueDecls (field : String) (slot : Tree) : ∀ t ∈ valueDecls field slot, t.Meets n := by
  intro t ht
  obtain ⟨e, -, rfl⟩ := List.mem_map.mp ht
  exact Make.meets_constNamed.mpr (meets_fieldMember field e.1)

theorem meets_metaDecls (uses : List Use) (field : String) (slot : Tree) : ∀ t ∈ metaDecls uses field slot, t.Meets n := by
  intro t ht
  unfold metaDecls at ht
  split at ht
  · split at ht
    · obtain rfl := List.mem_singleton.mp ht
      simp [meets_fieldMember, meets_firstError]
    · cases ht
  · obtain ⟨e, -, rfl⟩ := List.mem_map.mp ht
    exact Make.meets_constNamed.mpr (meets_metaMember field e.1)

/-- The type of the value is written out only where functions have types. -/
theorem meets_setValue (hs : n.Allows s) (hh : h.Meets n) (form : String) : (setValue s h form).Meets n := by
  unfold setValue
  split
  · next htyped =>
      have htypes : n.types = true := hs htyped
      have htype : (if h.valueType.isAbsent = true then Make.keywordType "any" else h.valueType).Meets n := by
        split
        · simp [Make.keywordType]
        · exact hh.valueType
      simp [Make.typedParam, Make.doubleNot, htype, htypes, hh.name, Setting.meets_param hs]
  · simp [Make.doubleNot, hh.name, Setting.meets_param hs]

theorem meets_setTouched (hs : n.Allows s) : (setTouched s).Meets n := by simp [setTouched, Setting.meets_param hs]

/-- What is declared for the third place of a hook meets the norm. -/
theorem meets_helperDecls (hs : n.Allows s) (hh : h.Meets n) (form : String) (uses : List Use) (taken : List String)
    (slot : Tree) : ∀ t ∈ (helperDecls s uses taken h form slot).1, t.Meets n := by
  have hvalue := meets_setValue hs hh form
  have htouched : (setTouched s).Meets n := meets_setTouched hs
  intro t ht
  simp only [helperDecls, List.mem_append, List.mem_map, Option.mem_toList] at ht
  rcases ht with (ht | ⟨x, -, rfl⟩) | ⟨x, -, rfl⟩
  · split at ht
    · split at ht
      · obtain rfl := List.mem_singleton.mp ht
        simp [hvalue, htouched]
      · cases ht
    · cases ht
  · exact Make.meets_constNamed.mpr hvalue
  · exact Make.meets_constNamed.mpr htouched

/-! ### Scopes -/

theorem meets_step (hs : n.Allows s) (uses : List Use) {p : Progress} (hp : ∀ t ∈ p.done, t.Meets n) (ht : t.Meets n) :
    ∀ u ∈ (step s uses p t).done, u.Meets n := by
  intro u hu
  unfold step at hu
  dsimp only at hu
  split at hu
  · rcases List.mem_append.mp hu with hu | hu
    · exact hp u hu
    · obtain rfl := List.mem_singleton.mp hu
      exact ht
  · next t' h heq =>
      obtain ⟨ht', hh⟩ := meets_convertStatement? ht heq
      simp only [List.mem_append, List.mem_singleton] at hu
      rcases hu with (((hu | rfl) | hu) | hu) | hu
      · exact hp u hu
      · exact ht'
      · exact meets_valueDecls _ _ u hu
      · exact meets_metaDecls uses _ _ u hu
      · exact meets_helperDecls hs hh _ uses _ _ u hu

/-- Converting the statements of a scope one after the other keeps to the norm. -/
theorem meets_foldl_step (hs : n.Allows s) (uses : List Use) {ss : List Tree} (hss : ∀ t ∈ ss, t.Meets n)
    {p : Progress} (hp : ∀ t ∈ p.done, t.Meets n) : ∀ u ∈ (ss.foldl (step s uses) p).done, u.Meets n := by
  induction ss generalizing p with
  | nil => exact hp
  | cons t ss ih =>
      exact ih (fun u hu => hss u (List.mem_cons_of_mem _ hu)) (meets_step hs uses hp (hss t (List.mem_cons_self ..)))

/-- Calls, also in parentheses, look like any node. -/
theorem look_of_callsSetter {setters : List String} (h : callsSetter setters t = true) : t.look = .other := by
  cases t with
  | node o k ts =>
      cases k with
      | expr k => exact Tree.look_expr
      | _ => simp [callsSetter, Tree.unparen] at h
  | list ts => simp [callsSetter, Tree.unparen] at h
  | absent => simp [callsSetter, Tree.unparen] at h

/-- To drop an await upholds every norm. -/
theorem upholds_dropAwait (setters : List String) (t : Tree) : Tree.Upholds n t (dropAwait setters t) := by
  unfold dropAwait
  split
  · split
    · next hcalls => exact .of_meets Tree.look_expr (look_of_callsSetter hcalls) fun h => by simpa using h
    · exact (Tree.upholds_congruence n).refl _
  · exact (Tree.upholds_congruence n).refl _

/-- The field hook pass keeps a scope to every norm that allows the setting. -/
theorem meets_convertScope (hs : n.Allows s) {body : Tree} (hbody : body.Meets n) : (convertScope s body).Meets n := by
  unfold convertScope
  split
  · exact hbody
  · next ss hss =>
      dsimp only
      have hdone := meets_foldl_step hs body.uses (hbody.statements? hss)
        (p := { done := [], taken := Tree.declaredNames ss, setters := [], count := 0 }) nofun
      have hhooks := (Tree.meets_withStatements (n := n) body).mpr hdone
      exact ((Tree.upholds_congruence n).mapUp (upholds_dropAwait _) _ _ hhooks).1

end FieldHook

/-! ## The form wrapper -/

namespace Rendering

variable {t u param body : Tree} {r : Rendering}

/-- The parts of a rendering that end up in a scope keep to a norm. -/
structure Meets (n : Norm) (r : Rendering) : Prop where
  setup : ∀ t ∈ r.setup, t.Meets n
  markup : r.markup.Meets n
  look : r.markup.look = .other

/-- The markup of a render function meets the norm if the function's expression does. -/
theorem meets_markupOf (ht : t.Meets n) (h : markupOf t = .ok u) : u.Meets n ∧ u.look = .other := by
  fun_induction markupOf t with
  | case1 o e ih => exact ih (by simpa using ht) h
  | case2 o s b ts =>
      cases h
      exact ⟨ht, Tree.look_node ..⟩
  | case3 o ts =>
      cases h
      exact ⟨ht, Tree.look_node ..⟩
  | case4 => cases h

/-- Statements and the markup behind them. -/
theorem meets_map_markupOf {ss : List Tree} (hss : ∀ t ∈ ss, t.Meets n) (ht : t.Meets n)
    (h : ((markupOf t).map fun markup => ({ param, setup := ss, markup } : Rendering)) = .ok r) : r.Meets n := by
  cases hmarkup : markupOf t with
  | error err =>
      rw [hmarkup] at h
      cases h
  | ok markup =>
      rw [hmarkup] at h
      cases h
      obtain ⟨hmeets, hlook⟩ := meets_markupOf ht hmarkup
      exact ⟨hss, hmeets, hlook⟩

theorem meets_ofBody (hbody : body.Meets n) (h : ofBody param body = .ok r) : r.Meets n := by
  unfold ofBody at h
  split at h
  · next ss hss =>
      have hss := hbody.statements? hss
      unfold ofStatements at h
      split at h
      · next o e hlast =>
          split at h
          · cases h
          · have hret := hss _ (List.mem_of_getLast? hlast)
            exact meets_map_markupOf (fun t ht => hss t (List.dropLast_subset ss ht)) (by simpa using hret) h
      · cases h
  · exact meets_map_markupOf (List.forall_mem_nil _) hbody h

theorem meets_ofFunction (ht : t.Meets n) (h : ofFunction t = .ok r) : r.Meets n := by
  fun_induction ofFunction t with
  | case1 o e ih => exact ih (by simpa using ht) h
  | case2 o a ps body tps ret =>
      simp at ht
      exact meets_ofBody ht.2.1 h
  | case3 o name po a g ps body tps ret ss hss =>
      simp at ht
      have hbody : ofBody (ps.head?.getD .absent) body = .ok r := by
        rw [ofBody, hss]
        exact h
      exact meets_ofBody ht.2.2.1 hbody
  | case4 => cases h
  | case5 => cases h

/-- What is inside a wrapper meets the norm if the wrapper does. -/
theorem meets_ofElement {e : Element} (he : e.Meets n) (h : ofElement e = .ok r) : r.Meets n := by
  unfold ofElement at h
  split at h
  · next c hc =>
      have hmem : c ∈ e.children.filter fun c => !c.isLayout := hc ▸ List.mem_singleton.mpr rfl
      have hmeets := he.children c (List.mem_filter.mp hmem).1
      unfold ofChild at h
      split at h
      · cases h
        exact ⟨nofun, hmeets, Tree.look_node ..⟩
      · cases h
        exact ⟨nofun, hmeets, Tree.look_node ..⟩
      · exact meets_ofFunction (by simpa using hmeets) h
      · cases h
  · cases h

end Rendering

namespace FormWrapper

variable {t e : Tree} {attrs : List Tree} {names : LibraryNames}

theorem meets_submitHandler (he : e.Meets n) : (submitHandler e).Meets n := by
  have hcallee : (if isPlainCallee e = true then e else Make.paren e).Meets n := by
    split
    · exact he
    · simpa [Make.paren] using he
  simp [submitHandler, Make.exprStmt, Make.methodCall, hcallee]

theorem meets_validateHandler (he : e.Meets n) : (validateHandler e).Meets n := by
  unfold validateHandler
  dsimp only
  split
  · simp
  · simp [he]

/-- The options of the hook meet the norm if the attributes do. -/
theorem meets_hookOptions (hattrs : ∀ a ∈ attrs, a.Meets n) : (hookOptions attrs).Meets n := by
  have hvalue : ∀ {x e}, (Attrs.value x attrs).toExpr? = some e → e.Meets n :=
    fun he => (Attrs.meets_value hattrs _).toExpr? (Tree.meets_hereditary n).carried he
  rw [hookOptions, Make.meets_object]
  intro t ht
  simp only [List.mem_append, List.mem_map, List.mem_flatMap, Option.mem_toList] at ht
  rcases ht with (⟨e, he, rfl⟩ | ⟨e, he, ht⟩) | ⟨e, he, rfl⟩
  · exact Make.meets_keyValue.mpr (hvalue he)
  · have hvalidate := meets_validateHandler (hvalue he)
    simp only [List.mem_cons, List.not_mem_nil, or_false] at ht
    rcases ht with rfl | rfl | rfl
    · exact Make.meets_keyValue.mpr hvalidate
    · simp
    · simp
  · exact Make.meets_keyValue.mpr (meets_submitHandler (hvalue he))

theorem meets_hook {options targs : Tree} (hoptions : options.Meets n) (htargs : targs.Meets n) :
    (hook options targs).Meets n := by
  simp [hook, Make.const, hoptions, htargs]

/-- The parts of a wrapper keep to a norm, and its markup can take its place. -/
structure Site.Meets (n : Norm) (s : Site) : Prop where
  rendering : s.rendering.Meets n
  hook : s.hook.Meets n
  markup : s.markup.Meets n
  look : s.markup.look = .other

theorem meets_provide (ht : t.Meets n) (hlook : t.look = .other) (names : LibraryNames) :
    (provide names t).Meets n ∧ (provide names t).look = .other := by
  unfold provide
  split
  · exact ⟨Element.meets_made (by simp [Make.exprAttr]) (by simpa using ht), Element.look_made ..⟩
  · exact ⟨ht, hlook⟩

/-- A wrapper comes apart into parts that meet the norm. -/
theorem meets_takeApart {e : Element} {site : Site} (he : e.Meets n) (h : takeApart names e = .ok site) :
    site.Meets n := by
  unfold takeApart at h
  cases hr : Rendering.ofElement e with
  | error err =>
      rw [hr] at h
      cases h
  | ok r =>
      rw [hr] at h
      cases h
      have hr := Rendering.meets_ofElement he hr
      obtain ⟨hmarkup, hlook⟩ := meets_provide hr.markup hr.look names
      exact ⟨hr, meets_hook (meets_hookOptions he.attrs) he.typeArgs, hmarkup, hlook⟩

theorem meets_site? {body : Tree} {site : Site} (hbody : body.Meets n) (h : site? names body = .ok (some site)) :
    site.Meets n := by
  obtain ⟨p, u, e, hu, he, -, hsite⟩ := exists_place_of_site? h
  -- the wrapper stands somewhere in the body, so it keeps to what the body keeps to
  have hmeets := hbody.at? hu
  rw [← Tree.toTree_of_element? he] at hmeets
  exact meets_takeApart (Element.meets_toTree.mp hmeets) hsite

/-- To put such parts into a body keeps it to the norm. -/
theorem meets_unwrap {site : Site} {body : Tree} (hsite : site.Meets n) (hbody : body.Meets n) (names : LibraryNames)
    (held at_ : Nat) : (unwrap names site held at_ body).Meets n := by
  have hrule : ∀ t t' : Tree, (wrapper? names t).map (fun _ => site.markup) = some t' → Tree.Upholds n t t' := by
    intro t t' h
    obtain ⟨e, he, rfl⟩ := Option.map_eq_some_iff.mp h
    have helement := (Option.filter_eq_some_iff.mp he).1
    exact .of_meets (Tree.toTree_of_element? helement ▸ Element.look_toTree) hsite.look fun _ => hsite.markup
  have hmarkup : (body.mapDown Tree.opensScope fun t => (wrapper? names t).map fun _ => site.markup).Meets n :=
    ((Tree.upholds_congruence n).mapDown hrule _ body hbody).1
  rw [unwrap, Tree.meets_withStatements]
  intro t ht
  rcases mem_insertAt.mp ht with ht | ht
  · exact hsite.rendering.setup t ht
  · rcases mem_insertAt.mp ht with ht | ht
    · obtain rfl := List.mem_singleton.mp ht
      exact hsite.hook
    · exact hmarkup.statements t ht

/-- The wrapper pass keeps a scope to every norm that allows the setting. -/
theorem meets_convertScope (hs : n.Allows s) {body body' : Tree} {σ : Symbols} (hbody : body.Meets n)
    (h : convertScope s body = .ok (body', σ)) : body'.Meets n := by
  unfold convertScope at h
  cases hsite : site? s.names body with
  | error err =>
      rw [hsite] at h
      cases h
  | ok site =>
      rw [hsite] at h
      cases site with
      | none =>
          cases h
          exact hbody
      | some site =>
          cases h
          have hunwrap := meets_unwrap (meets_site? hbody hsite) hbody s.names
          exact (Tree.upholds_convertReads _ _ (hunwrap _ _)).1.declareHelpers hs _ _ _ _

end FormWrapper

/-! ## Field markup -/

namespace FieldMarkup

variable {names : LibraryNames} {bindings : List String}

/-- To convert a node upholds every norm. -/
theorem upholds_convertNode (t : Tree) (needs : Needs) : Tree.Upholds n t ((convertNode names bindings t).run needs).1 := by
  obtain ⟨⟨t', needs'⟩, hrun⟩ : ∃ r, (convertNode names bindings t).run needs = r := ⟨_, rfl⟩
  rw [hrun]
  cases convertNode_inv hrun with
  | kept => exact (Tree.upholds_congruence n).refl t
  | message hconverts =>
      refine .of_meets Element.look_toTree Element.look_errorMarkup fun h => ?_
      exact ((Element.meets_toTree.mp h).converts hconverts).errorMarkup
  | element hconverts =>
      refine .of_meets Element.look_toTree Element.look_toTree fun h => ?_
      exact Element.meets_toTree.mpr ((Element.meets_toTree.mp h).converts hconverts)

theorem meets_declareNeeds (needs : Needs) {ss : List Tree} (hss : ∀ t ∈ ss, t.Meets n) :
    ∀ t ∈ (declareNeeds needs ss).1, t.Meets n := by
  intro t ht
  rcases mem_declareNeeds ht with ht | ⟨rfl, -⟩ | rfl
  · exact hss t ht
  · simp [formDecl]
  · simp [Capabilities.fieldsetHelper, Make.methodCall]

/-- The markup pass keeps a scope to every norm. -/
theorem meets_convertScope {body : Tree} (hbody : body.Meets n) : (convertScope names body).1.Meets n := by
  have hupholds : Tree.Upholds n body
      ((body.mapUpM Tree.opensScope (convertNode names (hookBindings names.useField body))).run {}).1 :=
    (Tree.upholds_congruence n).mapUpM upholds_convertNode _ body {}
  have hmarkup := (hupholds hbody).1
  unfold convertScope
  dsimp only
  generalize (body.mapUpM Tree.opensScope (convertNode names (hookBindings names.useField body))).run {} = r at hmarkup ⊢
  obtain ⟨body', needs⟩ := r
  dsimp only at hmarkup ⊢
  split
  · exact (Tree.meets_withStatements _).mpr (meets_declareNeeds _ hmarkup.statements)
  · exact hmarkup

end FieldMarkup

end FormCodemod
