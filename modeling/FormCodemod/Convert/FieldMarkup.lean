import FormCodemod.Convert.Capabilities
import FormCodemod.Convert.Input
import FormCodemod.Convert.Symbols
import FormCodemod.Scope.Walk

/-!
# Field markup

The markup of fields and of the form itself: field components, wired inputs, the form
element and error messages. What the new markup reads, `form` and `fields`, is declared in
the scope if it is not declared there.
-/

namespace FormCodemod

namespace FieldMarkup

/-- What the converted markup of a scope reads. -/
structure Needs where
  fieldset : Bool := false
  form : Bool := false
  inputProps : Bool := false
  deriving DecidableEq, Repr, Inhabited

/-- The name that the first place of a field hook's result is bound to. -/
def hookBinding (hook : String) : Tree → List String
  | .part _ (.declarator _) [.pat _ (.array _) [.list (.pat _ (.binding x _) _ :: _), _], e] =>
      if (e.callTo? hook).isSome then [x] else []
  | _ => []

def hookBindings (hook : String) (body : Tree) : List String :=
  body.collect Tree.opensScope (hookBinding hook)

/-! ### Elements -/

/-- `form.k` -/
def formMember (k : String) : Tree := Make.member (Make.ident formName) k

/-- The attributes of the form element that the form itself gives. -/
def formAttrs : List Tree :=
  [Make.exprAttr "id" (formMember "id"), Make.exprAttr "onSubmit" (formMember "onSubmit"),
    Make.attr "noValidate" .absent]

def isFormAttr (a : Tree) : Bool :=
  a.attrName?.any fun x => x == "id" || x == "onSubmit" || x == "noValidate"

def toForm (e : Element) : Element :=
  { e.rename "form" with attrs := formAttrs ++ e.attrs.filter fun a => !isFormAttr a }

def errorTag? (attrs : List Tree) : Option String :=
  match Attrs.value "component" attrs with
  | .literal tag => some tag
  | .expr e => e.ident?
  | _ => none

/-- The errors of a field, in the tag that was asked for or in a fragment. -/
def errorMarkup (e : Element) : Tree :=
  let name := (Attrs.value "name" e.attrs).unlessBare?.getD (Make.str "field")
  let errors := Make.member (Make.index (Make.ident fieldsName) name) "errors"
  match errorTag? e.attrs with
  | some tag => Make.element tag (Attrs.eraseAll ["name", "component", "render"] e.attrs) [Make.container errors]
  | none => Make.fragment [Make.container errors]

def convertElement (names : LibraryNames) (bindings : List String) (e : Element) : StateM Needs Element := do
  if e.tag? == some names.field then
    modify fun n => { n with fieldset := true, inputProps := true }
    return e.toInput .fieldComponent (.fieldset fieldsName)
  if e.tag? == some names.form then
    modify fun n => { n with form := true }
    return toForm e
  match e.takeBinding? bindings with
  | some (e, x) =>
      modify fun n => { n with inputProps := true }
      return e.toInput .native (.binding (Make.ident x))
  | none =>
      if e.isWiredNative then
        modify fun n => { n with fieldset := true, inputProps := true }
        return e.toInput .native (.fieldset fieldsName)
      match e.convertFieldProps? fieldsName with
      | some e =>
          modify fun n => { n with fieldset := true, inputProps := true }
          return e
      | none => return e

/-- Converts a node whose children are converted. An error message that stands bare as the
value of an attribute is left alone. -/
def convertNode (names : LibraryNames) (bindings : List String) (t : Tree) : StateM Needs Tree := do
  match t.element? with
  | none => return t
  | some e =>
      let e ← convertElement names bindings e
      if e.tag? == some names.errorMessage && !e.asValue then
        modify fun n => { n with fieldset := true }
        return errorMarkup e
      return e.toTree

/-! ### Scopes -/

/-- `const form = useFormMetadata()` -/
def formDecl : Tree := Make.constNamed formName (Make.callNamed "useFormMetadata" [])

/-- Declares what the markup needs and the scope does not declare: the form first, and its
fields behind the declaration of the form. -/
def declareNeeds (n : Needs) (ss : List Tree) : List Tree × Symbols :=
  let needsFieldset := n.fieldset && !Tree.anyDeclares fieldsName ss
  let needsForm := (n.form || needsFieldset) && !Tree.anyDeclares formName ss
  let ss := if needsForm then formDecl :: ss else ss
  let at_ := ((Tree.declarationOf? formName ss).map (· + 1)).getD 0
  let ss := if needsFieldset then insertAt at_ [Capabilities.fieldsetHelper formName] ss else ss
  (ss, { useFormMetadata := needsForm })

/-- Converts the markup of one scope, and tells which names it has to import. -/
def convertScope (names : LibraryNames) (body : Tree) : Tree × Symbols :=
  let bindings := hookBindings names.useField body
  let (body, needs) := (body.mapUpM Tree.opensScope (convertNode names bindings)).run {}
  let symbols : Symbols := { getInputProps := needs.inputProps }
  if needs.fieldset || needs.form then
    let (ss, more) := declareNeeds needs body.statements
    (body.withStatements ss, symbols ++ more)
  else (body, symbols)

def convert (s : Setting) (m : Module) : StateM Symbols Module :=
  m.forEachScope fun _ body => do
    let (body, symbols) := convertScope s.names body
    modify (· ++ symbols)
    return body

end FieldMarkup

end FormCodemod
