import FormCodemod.Convert.FormWrapper
import FormCodemod.Proofs.Names.Elements
import FormCodemod.Proofs.Names.Scopes

/-!
# Names that the form wrapper puts in

Taking a wrapper apart puts in three of the emitted names: the form's hook always, the schema library's
parser if the wrapper has a schema, and the provider if components are inside. The first two are
ruled out by watching for wrappers (`Watch.of`). The last one is told from the markup at the end, so
until then the symbol is allowed as a tag (`Watch.lax`).
-/

namespace FormCodemod

open Observed (Gives)

variable {w : Watch}

/-- What is watched for the sake of a symbol: for what only wrappers put in, wrappers of that kind, too. -/
def Watch.of (names : LibraryNames) (symbol : String) : Watch where
  symbol := symbol
  tag := if symbol = "useForm" ∨ symbol = "parseWithYup" then some names.formik else none
  attr := if symbol = "parseWithYup" then some "validationSchema" else none

/-! ## Render functions -/

namespace Rendering

/-- The parts of a wrapper's inside are clear, and its markup can take the place of an element. -/
structure Clear (w : Watch) (r : Rendering) : Prop where
  param : r.param.Clear w
  setup : ∀ t ∈ r.setup, t.Clear w
  markup : r.markup.Clear w
  face : r.markup.face = {}

variable {t u param body : Tree} {r : Rendering}

/-- The markup of a render function is clear, and looks like nothing to its parent. -/
theorem clear_markupOf (ht : t.Clear w) (h : markupOf t = .ok u) : u.Clear w ∧ u.face = {} := by
  fun_induction markupOf t with
  | case1 o e ih => exact ih (by simpa using ht) h
  | case2 o s b ts =>
      cases h
      exact ⟨ht, Tree.face_node ..⟩
  | case3 o ts =>
      cases h
      exact ⟨ht, Tree.face_node ..⟩
  | case4 => cases h

/-- A rendering made from statements is clear if they are. -/
theorem clear_ofStatements {ss : List Tree} (hparam : param.Clear w) (hss : ∀ t ∈ ss, t.Clear w)
    (h : ofStatements param ss = .ok r) : r.Clear w := by
  unfold ofStatements at h
  split at h
  · next o e hlast =>
      split at h
      · cases h
      · cases hmarkup : markupOf e with
        | error err =>
            rw [hmarkup] at h
            cases h
        | ok markup =>
            rw [hmarkup] at h
            cases h
            have hret := hss _ (List.mem_of_getLast? hlast)
            obtain ⟨hclear, hface⟩ := clear_markupOf (by simpa using hret) hmarkup
            exact ⟨hparam, fun t ht => hss t (List.dropLast_subset ss ht), hclear, hface⟩
  · cases h

theorem clear_ofBody (hparam : param.Clear w) (hbody : body.Clear w) (h : ofBody param body = .ok r) : r.Clear w := by
  unfold ofBody at h
  split at h
  · next ss hss => exact clear_ofStatements hparam (hbody.statements? hss) h
  · cases hmarkup : markupOf body with
    | error err =>
        rw [hmarkup] at h
        cases h
    | ok markup =>
        rw [hmarkup] at h
        cases h
        obtain ⟨hclear, hface⟩ := clear_markupOf hbody hmarkup
        exact ⟨hparam, nofun, hclear, hface⟩

theorem clear_head {ps : List Tree} (h : ∀ p ∈ ps, p.Clear w) : (ps.head?.getD .absent).Clear w := by
  cases ps with
  | nil => exact Tree.clear_absent
  | cons p ps => exact h p (List.mem_cons_self ..)

theorem clear_ofFunction (ht : t.Clear w) (h : ofFunction t = .ok r) : r.Clear w := by
  fun_induction ofFunction t with
  | case1 o e ih => exact ih (by simpa using ht) h
  | case2 o a ps body tps ret =>
      simp at ht
      exact clear_ofBody (clear_head ht.1) ht.2.1 h
  | case3 o name po a g ps body tps ret ss hss =>
      simp at ht
      exact clear_ofStatements (clear_head ht.2.1) (ht.2.2.1.statements? hss) h
  | case4 => cases h
  | case5 => cases h

/-- What is inside a wrapper is clear if its children are. -/
theorem clear_ofElement {e : Element} (he : ∀ c ∈ e.children, c.Clear w) (h : ofElement e = .ok r) : r.Clear w := by
  unfold ofElement at h
  split at h
  · next c hc =>
      have hmem : c ∈ e.children.filter fun c => !c.isLayout := hc ▸ List.mem_singleton.mpr rfl
      have hclear := he c (List.mem_filter.mp hmem).1
      unfold ofChild at h
      split at h
      · cases h
        exact ⟨Tree.clear_absent, nofun, hclear, Tree.face_node ..⟩
      · cases h
        exact ⟨Tree.clear_absent, nofun, hclear, Tree.face_node ..⟩
      · exact clear_ofFunction (by simpa using hclear) h
      · cases h
  · cases h

end Rendering

/-! ## The hook -/

namespace FormWrapper

variable {t e : Tree} {attrs : List Tree}

/-- The handler around a clear callback is clear. -/
theorem clear_submitHandler (hw : w.symbol ∈ emittedNames) (he : e.Clear w) : (submitHandler e).Clear w := by
  unfold submitHandler
  dsimp only
  split
  · simp [he, ne_symbol hw, emittedNames]
  · simp [he, ne_symbol hw, emittedNames]

/-- The validation of a clear schema is clear unless the symbol is the parser of schemas. -/
theorem clear_validateHandler (hw : w.symbol ∈ emittedNames) (hyup : w.symbol ≠ "parseWithYup") (he : e.Clear w) :
    (validateHandler e).Clear w := by
  unfold validateHandler
  dsimp only
  split
  · simp [hyup.symm, ne_symbol hw, emittedNames]
  · simp [he, hyup.symm, ne_symbol hw, emittedNames]

/-- The options name the schema library's parser only if there is a schema. -/
theorem clear_hookOptions (hw : w.symbol ∈ emittedNames) (hattrs : ∀ a ∈ attrs, a.Clear w)
    (hyup : w.symbol = "parseWithYup" → Attrs.find? "validationSchema" attrs = none) :
    (hookOptions attrs).Clear w := by
  rw [hookOptions, Make.clear_object]
  intro t ht
  simp only [List.mem_append, List.mem_map, List.mem_flatMap, Option.mem_toList] at ht
  rcases ht with (⟨e, he, rfl⟩ | ⟨e, he, ht⟩) | ⟨e, he, rfl⟩
  · exact Make.clear_keyValue.mpr (Tree.Clear.value hattrs he)
  · have hne : w.symbol ≠ "parseWithYup" := by
      intro h
      rw [Attrs.value, hyup h] at he
      cases he
    have hvalidate := clear_validateHandler hw hne (Tree.Clear.value hattrs he)
    simp only [List.mem_cons, List.not_mem_nil, or_false] at ht
    rcases ht with rfl | rfl | rfl
    · exact Make.clear_keyValue.mpr hvalidate
    · simp
    · simp
  · exact Make.clear_keyValue.mpr (clear_submitHandler hw (Tree.Clear.value hattrs he))

theorem clear_hook (hw : w.symbol ∈ emittedNames) (hform : w.symbol ≠ "useForm") {options targs : Tree}
    (hoptions : options.Clear w) (htargs : targs.Clear w) : (hook options targs).Clear w := by
  simp [hook, hoptions, htargs, hform.symm, ne_symbol hw, emittedNames, formName, fieldsName]

/-! ## Wrappers -/

/-- What the wrappers of a scope may put in while they are taken apart: not the form's hook, and the
provider only if the symbol may be a tag. -/
structure Fits (w : Watch) : Prop where
  emitted : w.symbol ∈ emittedNames
  form : w.symbol ≠ "useForm"
  provider : w.symbol = "FormProvider" → w.asTag = true
  /-- Among the elements that must not occur there is no provider. -/
  attr : w.tag = none ∨ w.attr = some "validationSchema"

/-- The parts of a wrapper are clear, and its markup can take its place. -/
structure Site.Clear (w : Watch) (s : Site) : Prop where
  rendering : s.rendering.Clear w
  hook : s.hook.Clear w
  markup : s.markup.Clear w
  face : s.markup.face = {}

/-- Markup stays clear, whether a provider is put around it or not. -/
theorem clear_provide (hw : Fits w) (ht : t.Clear w) (hface : t.face = {}) (names : LibraryNames) :
    (provide names t).Clear w ∧ (provide names t).face = {} := by
  unfold provide
  split
  · refine ⟨Tree.clear_made_element ?_ ?_ ?_ (by simpa using ht), Tree.face_node ..⟩
    · by_cases h : w.symbol = "FormProvider"
      · exact .inr ⟨h.symm, hw.provider h⟩
      · exact .inl fun heq => h heq.symm
    · rcases hw.attr with h | h
      · exact .inl (by rw [h]; exact nofun)
      · exact .inr ⟨_, h, rfl⟩
    · intro a ha
      obtain rfl := List.mem_singleton.mp ha
      refine (Make.clear_attr (by decide)).mpr ?_
      simp [ne_symbol hw.emitted, emittedNames, formName]
  · exact ⟨ht, hface⟩

/-- A wrapper comes apart into clear parts. -/
theorem clear_takeApart (hw : Fits w) {names : LibraryNames} {e : Element} {s : Site} (he : e.toTree.Free w)
    (hyup : w.symbol = "parseWithYup" → Attrs.find? "validationSchema" e.attrs = none)
    (h : takeApart names e = .ok s) : s.Clear w := by
  obtain ⟨-, hattrs, htargs, hchildren⟩ := he.element
  unfold takeApart at h
  cases hr : Rendering.ofElement e with
  | error err =>
      rw [hr] at h
      cases h
  | ok r =>
      rw [hr] at h
      cases h
      have hr := Rendering.clear_ofElement hchildren hr
      obtain ⟨hmarkup, hface⟩ := clear_provide hw hr.markup hr.face names
      exact ⟨hr, clear_hook hw.emitted hw.form (clear_hookOptions hw.emitted hattrs hyup) htargs, hmarkup, hface⟩

theorem ofElement_of_takeApart {names : LibraryNames} {e : Element} {s : Site} (h : takeApart names e = .ok s) :
    Rendering.ofElement e = .ok s.rendering := by
  unfold takeApart at h
  cases hr : Rendering.ofElement e with
  | error err =>
      rw [hr] at h
      cases h
  | ok r =>
      rw [hr] at h
      cases h
      rfl

/-! ## Scopes -/

/-- A run of steps gives results exactly if each step gives the result in its place. -/
theorem mapM_eq_ok_iff {α β ε : Type} {f : α → Except ε β} {as : List α} {bs : List β} :
    as.mapM f = .ok bs ↔ List.Forall₂ (fun a b => f a = .ok b) as bs := by
  induction as generalizing bs with
  | nil =>
      rw [List.mapM_nil, List.forall₂_nil_left_iff]
      exact ⟨fun h => (Except.ok.inj h).symm, fun h => congrArg Except.ok h.symm⟩
  | cons a as ih =>
      rw [List.mapM_cons, List.forall₂_cons_left_iff]
      simp only [← ih]
      cases f a with
      | error e => exact iff_of_false nofun fun ⟨_, _, h, _⟩ => nomatch h
      | ok b =>
          cases as.mapM f with
          | error e => exact iff_of_false nofun fun ⟨_, _, _, h, _⟩ => nomatch h
          | ok bs' =>
              constructor
              · rintro ⟨⟩
                exact ⟨b, bs', rfl, rfl, rfl⟩
              · rintro ⟨_, _, ⟨⟩, ⟨⟩, rfl⟩
                rfl

/-- The wrapper of a scope is one of its elements. -/
theorem exists_place_of_site? {names : LibraryNames} {body : Tree} {s : Site}
    (h : site? names body = .ok (some s)) :
    ∃ p u e, body.at? p = some u ∧ u.element? = some e ∧ e.tag? = some names.formik ∧ takeApart names e = .ok s := by
  unfold site? at h
  cases hss : (wrappers names body).mapM (takeApart names) with
  | error err =>
      rw [hss] at h
      cases h
  | ok ss =>
      rw [hss] at h
      obtain rfl : ss = [s] := by
        cases ss with
        | nil => cases h
        | cons s' ss =>
            cases ss with
            | nil =>
                cases h
                rfl
            | cons => cases h
      obtain ⟨e, he, hs⟩ := forall₂_exists_left (mapM_eq_ok_iff.mp hss) (List.mem_singleton.mpr rfl)
      obtain ⟨p, u, hu, hwrapper⟩ := Tree.exists_of_mem_outermost he
      obtain ⟨helement, hcond⟩ := Option.filter_eq_some_iff.mp hwrapper
      rw [Bool.and_eq_true] at hcond
      exact ⟨p, u, e, hu, helement, beq_iff_eq.mp hcond.1, hs⟩

/-- The wrapper of a scope that is free is free itself. -/
theorem exists_of_site? {names : LibraryNames} {body : Tree} {s : Site} (hbody : body.Free w)
    (h : site? names body = .ok (some s)) :
    ∃ e, e.toTree.Free w ∧ e.tag? = some names.formik ∧ takeApart names e = .ok s := by
  obtain ⟨p, u, e, hu, helement, htag, hs⟩ := exists_place_of_site? h
  refine ⟨e, ?_, htag, hs⟩
  rw [Tree.toTree_of_element? helement]
  intro q v hv
  exact hbody (p ++ q) v (Tree.at?_append.mpr ⟨u, hu, hv⟩)

/-- To put clear parts into a clear body makes a clear body. -/
theorem clear_unwrap (names : LibraryNames) {s : Site} {body : Tree} (hs : s.Clear w) (hbody : body.Clear w)
    (held at_ : Nat) : (unwrap names s held at_ body).Clear w := by
  have hrule : ∀ t t' : Tree, t.Free w → (wrapper? names t).map (fun _ => s.markup) = some t' → Tree.Keeps w t t' := by
    intro t t' _ h
    obtain ⟨e, he, rfl⟩ := Option.map_eq_some_iff.mp h
    have helement := (Option.filter_eq_some_iff.mp he).1
    exact .of_clear (Tree.toTree_of_element? helement ▸ Tree.face_element) hs.face hs.markup
  have hmarkup := (Tree.Keeps.mapDown hrule Tree.opensScope hbody.free).clear hbody
  rw [unwrap, Tree.clear_withStatements]
  intro t ht
  rcases mem_insertAt.mp ht with ht | ht
  · exact hs.rendering.setup t ht
  · rcases mem_insertAt.mp ht with ht | ht
    · obtain rfl := List.mem_singleton.mp ht
      exact hs.hook
    · exact hmarkup.statements t ht

/-- If the symbol does not turn out to be a tag, it does not occur at all. -/
theorem clear_of_hasTag (hw : w.asTag = false) (ht : t.Clear w.lax) (h : hasTag (· == w.symbol) t = false) :
    t.Clear w := by
  refine ⟨fun p u hu => Tree.hits_of_lax hw (ht.free p u hu) ?_, ht.tag⟩
  intro e he heq
  have hnode : u.isNode = true := by
    rw [← Tree.toTree_of_element? he]
    rfl
  have hnone := (Tree.any_eq_false_iff t).mp h p u hu hnode
  rw [he, Option.any_some, heq, Option.any_some] at hnone
  simp at hnone

/-- A scope whose wrapper is taken apart, before helpers are declared. -/
theorem clear_convertReads_unwrap (hw : Fits w) {names : LibraryNames} {e : Element} {s : Site} {body : Tree}
    (he : e.toTree.Free w) (hyup : w.symbol = "parseWithYup" → Attrs.find? "validationSchema" e.attrs = none)
    (hs : takeApart names e = .ok s) (hbody : body.Clear w) (held at_ : Nat) :
    (s.rendering.param.convertReads (unwrap names s held at_ body)).Clear w := by
  have hunwrap := clear_unwrap names (clear_takeApart hw he hyup hs) hbody held at_
  exact (Tree.keeps_convertReads hw.emitted _ hunwrap.free).clear hunwrap

section Symbol

variable {setting : Setting} {symbol : String} {body body' : Tree} {σ σ' : Symbols}

/-- The same for the watch of a symbol, which may be a tag for the time being. -/
theorem clear_convertReads_unwrap_of (hw : symbol ∈ emittedNames) {names : LibraryNames} {e : Element} {s : Site}
    (he : e.toTree.Free (.of names symbol)) (hformik : e.tag? = some names.formik) (hs : takeApart names e = .ok s)
    (hbody : body.Clear (.of names symbol)) (held at_ : Nat)
    (hprovider : symbol = "FormProvider" →
      hasTag (· == "FormProvider") (s.rendering.param.convertReads (unwrap names s held at_ body)) = false) :
    (s.rendering.param.convertReads (unwrap names s held at_ body)).Clear (.of names symbol) := by
  have hbans := he.element.1
  have hform : symbol ≠ "useForm" := by
    rintro rfl
    simp [Tree.bansElement, Watch.of, hformik] at hbans
  have hyup : symbol = "parseWithYup" → Attrs.find? "validationSchema" e.attrs = none := by
    rintro rfl
    simpa [Tree.bansElement, Watch.of, hformik] using hbans
  -- a wrapper stands here, so the symbol is none that is watched for by its wrappers
  have hfits : ∀ b, (symbol = "FormProvider" → b = true) → Fits { Watch.of names symbol with asTag := b } := by
    intro b hb
    refine ⟨hw, hform, hb, ?_⟩
    by_cases hs : symbol = "parseWithYup"
    · exact .inr (if_pos hs)
    · exact .inl (if_neg (not_or.mpr ⟨hform, hs⟩))
  by_cases hp : symbol = "FormProvider"
  · -- the provider may be a tag until the markup is there; then it is known not to be one
    have hclear := he.clear Tree.face_element
    subst hp
    refine clear_of_hasTag rfl ?_ (hprovider rfl)
    exact clear_convertReads_unwrap (hfits true fun _ => rfl) (hclear.lax rfl).free hyup hs (hbody.lax rfl) _ _
  · exact clear_convertReads_unwrap (hfits false fun h => absurd h hp) he hyup hs hbody _ _

/-- The wrapper pass keeps a scope clear of any symbol that it does not collect. -/
theorem clear_convertScope (hw : symbol ∈ emittedNames) (h : convertScope setting body = .ok (body', σ))
    (hσ : symbol ∉ σ.toList) (hbody : body.Clear (.of setting.names symbol)) :
    body'.Clear (.of setting.names symbol) := by
  unfold convertScope at h
  cases hsite : site? setting.names body with
  | error err =>
      rw [hsite] at h
      cases h
  | ok site =>
      rw [hsite] at h
      cases site with
      | none =>
          cases h
          exact hbody
      | some s =>
          cases h
          obtain ⟨e, he, hformik, hs⟩ := exists_of_site? hbody.free hsite
          have hparam := (Rendering.clear_ofElement he.element.2.2.2 (ofElement_of_takeApart hs)).param
          refine Tree.Clear.declareHelpers hw ?_ hparam (Capabilities.names_resolve hw hparam _ _) false setting _ _
          refine clear_convertReads_unwrap_of hw he hformik hs hbody _ _ ?_
          rintro rfl
          rw [← Bool.not_eq_true]
          intro hflag
          -- a provider in the markup is collected
          refine hσ ?_
          show "FormProvider" ∈ (if hasTag _ _ = true then _ else _) ++ _ ++ _
          rw [if_pos hflag]
          simp

/-- The wrappers of a module put in a symbol only if they collect it, or if it was watched for. -/
theorem clear_convert (hw : symbol ∈ emittedNames) {m m' : Module}
    (h : (convert setting m).run σ = .ok (m', σ')) (hσ' : symbol ∉ σ'.toList)
    (hm : m.Clear (.of setting.names symbol)) : m'.Clear (.of setting.names symbol) := by
  refine (Module.clear_forEachScope (P := fun σ => symbol ∉ σ.toList) ?_
    (show Gives (convert setting m) σ m' σ' from h) hσ').2 hm
  intro k body s body' s' hgives hs'
  cases hscope : convertScope setting body with
  | error err =>
      rw [hscope] at hgives
      cases hgives
  | ok r =>
      obtain ⟨body₁, σ₁⟩ := r
      rw [hscope] at hgives
      cases hgives
      rw [Symbols.mem_toList_append, not_or] at hs'
      exact ⟨hs'.1, clear_convertScope hw hscope hs'.2⟩

end Symbol

end FormWrapper

end FormCodemod
