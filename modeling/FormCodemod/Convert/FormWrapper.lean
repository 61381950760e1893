import FormCodemod.Convert.Capabilities
import FormCodemod.Convert.Symbols
import FormCodemod.Error
import FormCodemod.Library.Wiring
import FormCodemod.Scope.Walk

/-!
# The form wrapper

`<Formik initialValues onSubmit>{(props) => <form/>}</Formik>` becomes
`const [form, fields] = useForm({...})` in the component's body, and the markup that the
render function returns takes the place of the element.

A component may hold one wrapper (`FormWrapper.sites`). The hook goes as high as it can,
but below what its options read; the render function's own statements stay where the
element was.
-/

namespace FormCodemod

/-- What is inside a wrapper. -/
structure Rendering where
  /-- What the render function calls the form state, absent if it takes no parameter. -/
  param : Tree
  /-- The statements before the markup is returned. -/
  setup : List Tree
  markup : Tree
  deriving Repr, Inhabited

namespace Rendering

def markupOf : Tree → Except ChildrenError Tree
  | .expr _ .paren [e] => markupOf e
  | t@(.markup _ (.element _ _) _) => .ok t
  | t@(.markup _ .fragment _) => .ok t
  | _ => .error .returnsNoMarkup

/-- The body of a render function: a `return` of markup comes last. -/
def ofStatements (param : Tree) (ss : List Tree) : Except ChildrenError Rendering :=
  match ss.getLast? with
  | some (.stmt _ .ret [e]) =>
      if e.isAbsent then .error .endsWithoutReturn
      else (markupOf e).map fun markup => { param, setup := ss.dropLast, markup }
  | _ => .error .endsWithoutReturn

/-- The body of a render function, which may be an expression. -/
def ofBody (param body : Tree) : Except ChildrenError Rendering :=
  match body.statements? with
  | some ss => ofStatements param ss
  | none => (markupOf body).map fun markup => { param, setup := [], markup }

def ofFunction : Tree → Except ChildrenError Rendering
  | .expr _ .paren [e] => ofFunction e
  | .expr _ (.arrow _) [.list ps, body, _, _] => ofBody (ps.head?.getD .absent) body
  | .expr _ .func [_, .part _ (.function _ _) [.list ps, body, _, _]] =>
      match body.statements? with
      | some ss => ofStatements (ps.head?.getD .absent) ss
      | none => .error .noBody
  | _ => .error .noRenderFunction

def ofChild : Tree → Except ChildrenError Rendering
  | t@(.markup _ (.element _ _) _) => .ok { param := .absent, setup := [], markup := t }
  | t@(.markup _ .fragment _) => .ok { param := .absent, setup := [], markup := t }
  | .markup _ .container [e] => ofFunction e
  | _ => .error .noRenderFunction

/-- What is inside a wrapper, which has one child that is not mere layout. -/
def ofElement (e : Element) : Except ChildrenError Rendering :=
  match e.children.filter fun c => !c.isLayout with
  | [c] => ofChild c
  | cs => .error (.childCount cs.length)

end Rendering

namespace FormWrapper

/-! ### The hook -/

/-- Whether an expression can be called as it stands. -/
def isPlainCallee (e : Tree) : Bool :=
  match e.unparen with
  | .expr _ (.ident _) _ => true
  | .expr _ .member _ => true
  | _ => false

/-- `(event, { formData }) => { event.preventDefault(); submit(Object.fromEntries(formData)); }` -/
def submitHandler (submit : Tree) : Tree :=
  let callee := if isPlainCallee submit then submit else Make.paren submit
  let values := Make.methodCall "Object" "fromEntries" [Make.ident "formData"]
  Make.arrow [Make.binding "event", Make.objectPat ["formData"]] <| Make.block
    [Make.exprStmt (Make.methodCall "event" "preventDefault" []), Make.exprStmt (Make.call callee [values])]

/-- `({ formData }) => parseWithYup(formData, { schema })` -/
def validateHandler (schema : Tree) : Tree :=
  let prop := if schema.ident? == some "schema" then Make.name "schema" else Make.keyValue "schema" schema
  Make.arrow [Make.objectPat ["formData"]] <|
    Make.callNamed "parseWithYup" [Make.ident "formData", Make.object [prop]]

def hookOptions (attrs : List Tree) : Tree :=
  let initial := (Attrs.value "initialValues" attrs).toExpr?.toList
  let schema := (Attrs.value "validationSchema" attrs).toExpr?.toList
  let submit := (Attrs.value "onSubmit" attrs).toExpr?.toList
  Make.object <|
    initial.map (Make.keyValue "defaultValue") ++
    schema.flatMap (fun e =>
      [Make.keyValue "onValidate" (validateHandler e), Make.keyValue "shouldValidate" (Make.str "onBlur"),
        Make.keyValue "shouldRevalidate" (Make.str "onInput")]) ++
    submit.map fun e => Make.keyValue "onSubmit" (submitHandler e)

/-- `const [form, fields] = useForm<T>(options)` -/
def hook (options typeArgs : Tree) : Tree :=
  Make.const (Make.arrayPat [formName, fieldsName])
    (.expr .made .call [Make.ident "useForm", .list [options], typeArgs])

/-! ### The element -/

def isCustomTag (names : LibraryNames) (tag : String) : Bool :=
  isComponentName tag && !names.isLibraryTag tag

def hasTag (p : String → Bool) (t : Tree) : Bool :=
  t.any Tree.nowhere fun t => t.element?.any fun e => e.tag?.any p

/-- The markup with a provider around it, if components inside may ask for the form. -/
def provide (names : LibraryNames) (markup : Tree) : Tree :=
  if hasTag (isCustomTag names) markup then
    Make.element "FormProvider" [Make.exprAttr "context" (Make.member (Make.ident formName) "context")]
      [markup]
  else markup

/-- What a wrapper contributes. -/
structure Site where
  rendering : Rendering
  /-- The options of the hook. -/
  options : Tree
  /-- The declaration of the form. -/
  hook : Tree
  /-- What takes the place of the wrapper. -/
  markup : Tree
  deriving Repr, Inhabited

def takeApart (names : LibraryNames) (e : Element) : Except ChildrenError Site := do
  let rendering ← Rendering.ofElement e
  let options := hookOptions e.attrs
  return { rendering, options, hook := hook options e.typeArgs, markup := provide names rendering.markup }

/-- The wrapper that a node is. Bare as the value of an attribute it is not converted. -/
def wrapper? (names : LibraryNames) (t : Tree) : Option Element :=
  t.element?.filter fun e => e.tag? == some names.formik && !e.asValue

def wrappers (names : LibraryNames) (t : Tree) : List Element :=
  t.outermost Tree.opensScope (wrapper? names)

/-- The wrapper of a scope that holds at most one. -/
def site? (names : LibraryNames) (body : Tree) : Except ChildrenError (Option Site) := do
  match ← (wrappers names body).mapM (takeApart names) with
  | [] => return none
  | [s] => return some s
  | ss => throw (.wrapperCount ss.length)

/-! ### Scopes -/

def holder (names : LibraryNames) (ss : List Tree) : Nat :=
  (ss.findIdx? fun s => !(wrappers names s).isEmpty).getD 0

/-- The place of the hook: behind the last statement before the holder that declares a name
the options read. -/
def hookPlace (options : Tree) (before : List Tree) : Nat :=
  let uses := options.uses
  let read (s : Tree) : Bool := s.declared.any fun x => uses.contains (.ref x)
  before.length - before.reverse.findIdx read

/-- The scope with the wrapper's parts in place: its markup, the hook at `at_` and the render
function's own statements in front of the statement that held it. -/
def unwrap (names : LibraryNames) (s : Site) (held at_ : Nat) (body : Tree) : Tree :=
  let body := body.mapDown Tree.opensScope fun t => (wrapper? names t).map fun _ => s.markup
  let ss := body.statements
  body.withStatements <|
    insertAt (held + 1) s.rendering.setup (insertAt at_ [s.hook] ss)

/-- Puts a wrapper's parts into its scope and declares what the scope reads off the form. -/
def convertSite (setting : Setting) (s : Site) (body : Tree) : Tree × Symbols :=
  let held := holder setting.names body.statements
  let at_ := hookPlace s.options (body.statements.take held)
  let param := s.rendering.param
  let body := param.convertReads (unwrap setting.names s held at_ body)
  let uses := body.unwiredUses setting.names
  let caps := Capabilities.resolve param.takenNames uses (Tree.declaredNames body.statements)
  let caps := { caps with fieldset := false }
  let helpers := Capabilities.wholeHelper uses param.wholeBinding? ++ caps.helpers setting formName
  (body.withStatements (insertAt (at_ + 1) helpers body.statements),
    { formProvider := hasTag (· == "FormProvider") body })

/-- Converts the wrapper of one scope, and tells which names it has to import. -/
def convertScope (setting : Setting) (body : Tree) : Except ChildrenError (Tree × Symbols) := do
  match ← site? setting.names body with
  | none => return (body, {})
  | some s => return convertSite setting s body

def convert (setting : Setting) (m : Module) : StateT Symbols (Except ConvertError) Module :=
  m.forEachScope fun _ body =>
    match convertScope setting body with
    | .error e => throw (.children e)
    | .ok (body, symbols) => do
        modify (· ++ symbols)
        return body

end FormWrapper

end FormCodemod
