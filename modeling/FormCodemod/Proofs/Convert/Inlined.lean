import FormCodemod.Convert.FieldHook
import FormCodemod.Convert.FormWrapper
import FormCodemod.Proofs.Names.Free

/-!
# Expressions that are put into made functions

The conversion moves three expressions of the user into functions that it makes: the name of a field into the setter of
its value, and the values of `onSubmit` and `validationSchema` into the handlers of the form. The parameters of these
functions always have the same names. `inlined_captured_iff` says what becomes of the references in such an
expression: those that have the name of a parameter are captured, and no others.
-/

namespace FormCodemod

namespace Tree

variable {t v e : Tree} {p : Place} {names : List String}

/-- The expression stands in the tree, and of its free references those are captured that have one of the names. -/
def Captures (t e : Tree) (names : List String) : Prop :=
  ∃ p, t.at? p = some e ∧ ∀ x q, e.FreeAt x q → (t.FreeAt x (p ++ q) ↔ x ∉ names)

/-- The names that are bound on the way to an expression are the ones that capture. -/
theorem captures_of_at? (h : t.at? p = some e) : t.Captures e (t.namesAlong p) :=
  ⟨p, h, fun _ _ hfree => freeAt_append_iff h hfree⟩

/-- Around a tree that captures, nothing changes if nothing more is bound. -/
theorem Captures.within (h : v.Captures e names) (hv : t.at? p = some v) (hno : t.namesAlong p = []) :
    t.Captures e names := by
  obtain ⟨q, he, hcaptures⟩ := h
  refine ⟨p ++ q, at?_append.mpr ⟨v, hv, he⟩, fun x r hfree => ?_⟩
  have hbelow : t.FreeAt x (p ++ (q ++ r)) ↔ v.FreeAt x (q ++ r) := by
    rw [freeAt_append hv, hno]
    exact and_iff_right List.not_mem_nil
  rw [List.append_assoc, hbelow]
  exact hcaptures x r hfree

/-- The value of a property of an object literal. -/
theorem at?_object {props : List Tree} {i : Nat} {k : String} (h : props[i]? = some (Make.keyValue k v)) :
    (Make.object props).at? [0, i, 1] = some v ∧ (Make.object props).namesAlong [0, i, 1] = [] := by
  have hprops : (list props).children[i]? = some (Make.keyValue k v) := h
  constructor
  · exact at?_cons_eq_some.mpr ⟨list props, rfl, at?_cons_eq_some.mpr ⟨_, hprops, rfl⟩⟩
  · show (list props).namesAlong [i, 1] = []
    rw [namesAlong, hprops]
    rfl

/-- An object literal captures what the value of one of its properties does. -/
theorem Captures.property {props : List Tree} {k : String} (h : v.Captures e names)
    (hv : Make.keyValue k v ∈ props) : (Make.object props).Captures e names := by
  obtain ⟨i, hi⟩ := List.mem_iff_getElem?.mp hv
  obtain ⟨hat, hno⟩ := at?_object hi
  exact h.within hat hno

end Tree

open FormCodemod.Tree (Captures captures_of_at?)

namespace FieldHook

/-- The parameters of the setter capture. -/
theorem captures_setValue (s : Setting) (h : FieldHook) (form : String) :
    (setValue s h form).Captures h.name ["value", "shouldValidate"] := by
  have hnames : (setValue s h form).namesAlong [1, 1, 0, 0, 0, 1] = ["value", "shouldValidate"] := by
    -- the parameters are called the same with their types and without
    obtain ⟨names, typed⟩ := s
    cases typed with
    | true => rfl
    | false => rfl
  rw [← hnames]
  exact captures_of_at? rfl

/-- Of the declarations that a hook's setters get, each holds the name of the field or is one that does nothing. -/
theorem captures_helperDecls (s : Setting) (uses : List Use) (taken : List String) (h : FieldHook) (form : String)
    (slot d : Tree) (hd : d ∈ (helperDecls s uses taken h form slot).1) :
    d.Captures h.name ["value", "shouldValidate"] ∨ ∃ x, d = Make.constNamed x (setTouched s) := by
  have hsetter := captures_setValue s h form
  have hdecl : ∀ {x : String} {v : Tree}, v.Captures h.name ["value", "shouldValidate"] →
      (Make.constNamed x v).Captures h.name ["value", "shouldValidate"] :=
    fun hv => hv.within (p := [0, 1]) rfl rfl
  simp only [helperDecls, List.mem_append, List.mem_map] at hd
  rcases hd with (hd | ⟨x, -, rfl⟩) | ⟨x, -, rfl⟩
  · split at hd
    · split at hd
      · obtain rfl := List.mem_singleton.mp hd
        exact .inl (hdecl (hsetter.property (List.mem_cons_self ..)))
      · cases hd
    · cases hd
  · exact .inl (hdecl hsetter)
  · exact .inr ⟨x, rfl⟩

end FieldHook

namespace FormWrapper

variable {attrs : List Tree} {e : Tree}

/-- The submit handler captures the names of its parameters. -/
theorem captures_submitHandler (submit : Tree) : (submitHandler submit).Captures submit ["event", "formData"] := by
  rw [submitHandler]
  split
  · exact captures_of_at? (p := [1, 1, 0, 0]) rfl
  · exact captures_of_at? (p := [1, 1, 0, 0, 0]) rfl

/-- The validation captures the name of its parameter, unless the schema is spelled shorthand. -/
theorem captures_validateHandler {schema : Tree} (h : schema.ident? ≠ some "schema") :
    (validateHandler schema).Captures schema ["formData"] := by
  rw [validateHandler, if_neg fun heq => h (beq_iff_eq.mp heq)]
  exact captures_of_at? (p := [1, 1, 1, 0, 0, 1]) rfl

/-- A schema that is called `schema` is referred to by a shorthand property in its place. -/
theorem freeAt_validateHandler {schema : Tree} (h : schema.ident? = some "schema") :
    (validateHandler schema).FreeAt "schema" [1, 1, 1] := by
  have hprop : (schema.ident? == some "schema") = true := beq_iff_eq.mpr h
  rw [validateHandler, if_pos hprop]
  exact ⟨by decide, _, rfl, by decide⟩

/-- What an attribute says of submission stands in the hook's options, inside the submit
handler. -/
theorem submitHandler_mem_hookOptions (h : (Attrs.value "onSubmit" attrs).toExpr? = some e) :
    ∃ props, hookOptions attrs = Make.object props ∧ Make.keyValue "onSubmit" (submitHandler e) ∈ props := by
  refine ⟨_, rfl, List.mem_append_right _ ?_⟩
  rw [h]
  exact List.mem_singleton.mpr rfl

/-- The schema that an attribute gives stands in the hook's options, inside the validation. -/
theorem validateHandler_mem_hookOptions (h : (Attrs.value "validationSchema" attrs).toExpr? = some e) :
    ∃ props, hookOptions attrs = Make.object props ∧ Make.keyValue "onValidate" (validateHandler e) ∈ props := by
  refine ⟨_, rfl, List.mem_append_left _ (List.mem_append_right _ ?_)⟩
  rw [h]
  exact List.mem_cons_self ..

end FormWrapper

/-- Of the references that are free in an expression that the conversion puts into a made function, those are captured
that have the name of a parameter of that function: `value` and `shouldValidate` in the name of a field, `event` and
`formData` in `onSubmit`, `formData` in `validationSchema`. A schema that is called `schema` stays free. -/
theorem inlined_captured_iff (s : Setting) (uses : List Use) (taken : List String) (h : FieldHook) (form : String)
    (slot : Tree) (attrs : List Tree) :
    ((FieldHook.setValue s h form).Captures h.name ["value", "shouldValidate"] ∧
      ∀ d ∈ (FieldHook.helperDecls s uses taken h form slot).1,
        d.Captures h.name ["value", "shouldValidate"] ∨ ∃ x, d = Make.constNamed x (FieldHook.setTouched s)) ∧
    (∀ e, (Attrs.value "onSubmit" attrs).toExpr? = some e →
      (FormWrapper.hookOptions attrs).Captures e ["event", "formData"]) ∧
    ∀ e, (Attrs.value "validationSchema" attrs).toExpr? = some e →
      (e.ident? ≠ some "schema" → (FormWrapper.hookOptions attrs).Captures e ["formData"]) ∧
      (e.ident? = some "schema" → ∃ p, (FormWrapper.hookOptions attrs).FreeAt "schema" p) := by
  refine ⟨⟨?setter, ?declared⟩, fun e he => ?submit, fun e he => ⟨fun hno => ?validate, fun hyes => ?schema⟩⟩
  case setter => exact FieldHook.captures_setValue s h form
  case declared => exact FieldHook.captures_helperDecls s uses taken h form slot
  case submit =>
    obtain ⟨props, hprops, hmem⟩ := FormWrapper.submitHandler_mem_hookOptions he
    rw [hprops]
    exact (FormWrapper.captures_submitHandler e).property hmem
  case validate =>
    obtain ⟨props, hprops, hmem⟩ := FormWrapper.validateHandler_mem_hookOptions he
    rw [hprops]
    exact (FormWrapper.captures_validateHandler hno).property hmem
  case schema =>
    obtain ⟨props, hprops, hmem⟩ := FormWrapper.validateHandler_mem_hookOptions he
    obtain ⟨i, hi⟩ := List.mem_iff_getElem?.mp hmem
    obtain ⟨hat, hnone⟩ := Tree.at?_object hi
    refine ⟨[0, i, 1] ++ [1, 1, 1], ?_⟩
    rw [hprops, Tree.freeAt_append hat, hnone]
    exact ⟨List.not_mem_nil, FormWrapper.freeAt_validateHandler hyes⟩

/-- `[, , { setValue }] = useField(value)` -/
def valueHook : Tree :=
  .part .made (.declarator false)
    [.pat .made (.array false) [.list [.absent, .absent, Make.objectPat ["setValue"]], .absent],
      Make.callNamed "useField" [Make.ident "value"]]

/-- `onSubmit={v => save(event.id, v)} validationSchema={build(formData)}` -/
def capturedAttrs : List Tree :=
  [Make.exprAttr "onSubmit" <| Make.arrow [Make.binding "v"] <|
      Make.callNamed "save" [Make.member (Make.ident "event") "id", Make.ident "v"],
    Make.exprAttr "validationSchema" (Make.callNamed "build" [Make.ident "formData"])]

/-- A field that is named by a variable `value`, a handler that reads an outer `event` and a schema that is built from an
outer `formData` read the parameters of the made functions afterwards. -/
theorem inlined_names_captured :
    (∃ h, FieldHook.ofDeclarator? "useField" valueHook = some h ∧ h.name.FreeAt "value" [] ∧
      ∃ p, (FieldHook.setValue ⟨{}, false⟩ h "form").at? p = some h.name ∧
        ¬ (FieldHook.setValue ⟨{}, false⟩ h "form").FreeAt "value" p) ∧
    (∃ e, (Attrs.value "onSubmit" capturedAttrs).toExpr? = some e ∧ e.FreeAt "event" [1, 1, 0, 0] ∧
      ∃ p, (FormWrapper.hookOptions capturedAttrs).at? p = some e ∧
        ¬ (FormWrapper.hookOptions capturedAttrs).FreeAt "event" (p ++ [1, 1, 0, 0])) ∧
    ∃ e, (Attrs.value "validationSchema" capturedAttrs).toExpr? = some e ∧ e.FreeAt "formData" [1, 0] ∧
      ∃ p, (FormWrapper.hookOptions capturedAttrs).at? p = some e ∧
        ¬ (FormWrapper.hookOptions capturedAttrs).FreeAt "formData" (p ++ [1, 0]) := by
  have hinlined := fun h => inlined_captured_iff ⟨{}, false⟩ [] [] h "form" .absent capturedAttrs
  refine ⟨⟨_, rfl, ?value, ?_⟩, ⟨_, rfl, ?event, ?_⟩, ⟨_, rfl, ?formData, ?_⟩⟩
  case value => exact ⟨by decide, _, rfl, by decide⟩
  case event => exact ⟨by decide, _, rfl, by decide⟩
  case formData => exact ⟨by decide, _, rfl, by decide⟩
  · obtain ⟨p, hp, hcaptured⟩ := (hinlined _).1.1
    refine ⟨p, hp, fun hfree => ?_⟩
    rw [← List.append_nil p, hcaptured "value" [] ⟨by decide, _, rfl, by decide⟩] at hfree
    exact hfree (List.mem_cons_self ..)
  · obtain ⟨p, hp, hcaptured⟩ := (hinlined default).2.1 _ rfl
    refine ⟨p, hp, fun hfree => ?_⟩
    rw [hcaptured "event" [1, 1, 0, 0] ⟨by decide, _, rfl, by decide⟩] at hfree
    exact hfree (List.mem_cons_self ..)
  · obtain ⟨p, hp, hcaptured⟩ := ((hinlined default).2.2 _ rfl).1 (by decide)
    refine ⟨p, hp, fun hfree => ?_⟩
    rw [hcaptured "formData" [1, 0] ⟨by decide, _, rfl, by decide⟩] at hfree
    exact hfree (List.mem_cons_self ..)

end FormCodemod
