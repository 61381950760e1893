import FormCodemod.Convert.Setting
import FormCodemod.Scope.Usage
import FormCodemod.Tree.Binding

/-!
# Capabilities of a form

What a scope reads off the form state: values, setters, flags. Before the conversion a
scope gets them from the context hook or from the parameter of a render function; after
it each one that is needed is declared by a helper (`Capabilities.helpers`).

Handlers need no helper: they become members of the form wherever they stand.
-/

namespace FormCodemod

def handlers : List (String × String) :=
  [("handleSubmit", "onSubmit"), ("handleReset", "reset"), ("resetForm", "reset")]

/-- What a scope may read off a whole form state and then use by its own name. -/
def flattened : List String :=
  ["values", "setFieldValue", "setFieldTouched", "isSubmitting", "getFieldProps", "handleChange", "handleBlur"]

/-- The capabilities a scope needs, with the names they go by. -/
structure Capabilities where
  values : Option String := none
  setFieldValue : Option String := none
  setFieldTouched : Option String := none
  isSubmitting : Option String := none
  getFieldProps : Option String := none
  /-- The form's fields are needed. -/
  fieldset : Bool := false
  deriving DecidableEq, Repr, Inhabited

namespace Capabilities

/-- A capability is needed if a pattern took it, or if the scope refers to it by its own
name and does not declare that name. -/
def resolve (taken : Renaming) (uses : List Use) (declared : List String) : Capabilities :=
  let pick (k : String) : Option String :=
    (taken.get? k).or (if uses.contains (.ref k) && !declared.contains k then some k else none)
  { values := pick "values"
    setFieldValue := pick "setFieldValue"
    setFieldTouched := pick "setFieldTouched"
    isSubmitting := pick "isSubmitting"
    getFieldProps := pick "getFieldProps"
    fieldset := (pick "getFieldProps").isSome }

/-- Nothing but the setter of values is needed. -/
def onlySetsValues (c : Capabilities) : Bool :=
  c.setFieldValue.isSome && c.values.isNone && c.setFieldTouched.isNone && c.isSubmitting.isNone &&
    c.getFieldProps.isNone

/-! ### Helpers -/

/-- `const values = form.value` -/
def valuesHelper (form : String) (x : String) : Tree :=
  Make.constNamed x (Make.member (Make.ident form) "value")

def setter (s : Setting) (x : String) (update : Tree) : Tree :=
  Make.constNamed x <|
    Make.arrow
      [s.param "name" "string" false, s.param "value" "any" false, s.param "shouldValidate" "boolean" true]
      (Make.call update
        [Make.object
          [Make.name "name", Make.name "value",
            Make.keyValue "validated" (Make.doubleNot (Make.ident "shouldValidate"))]])

/-- The setter of values. It calls the form itself if nothing else is needed, and else a
variable of its own. -/
def setterHelpers (s : Setting) (form : String) (direct : Bool) (x : String) : List Tree :=
  let update := Make.member (Make.ident form) "update"
  if direct then [setter s x update]
  else [Make.constNamed "update" update, setter s x (Make.ident "update")]

/-- `const fields = form.getFieldset()` -/
def fieldsetHelper (form : String) : Tree :=
  Make.constNamed fieldsName (Make.methodCall form "getFieldset" [])

/-- A setter of touched fields that does nothing. -/
def touchedHelper (s : Setting) (x : String) : Tree :=
  Make.constFrom (.noted "Conform has no touched state; setFieldTouched is a no-op.") (Make.binding x) <|
    Make.arrow [s.param "_" "string" false, s.param "__" "boolean" true] (Make.block [])

def submittingHelper (x : String) : Tree :=
  Make.constFrom (.noted "Conform does not expose a submitting flag; isSubmitting is always false.")
    (Make.binding x) (Make.bool false)

def helpers (c : Capabilities) (s : Setting) (form : String) : List Tree :=
  (c.values.toList.map (valuesHelper form)) ++
  (c.setFieldValue.toList.flatMap (setterHelpers s form c.onlySetsValues)) ++
  (if c.fieldset then [fieldsetHelper form] else []) ++
  (c.setFieldTouched.toList.map (touchedHelper s)) ++
  (c.isSubmitting.toList.map submittingHelper)

/-- `const x = form`, if the scope still refers to `x`. -/
def wholeHelper (uses : List Use) (whole : Option String) : List Tree :=
  match whole with
  | some x => if uses.contains (.ref x) then [Make.constNamed x (Make.ident formName)] else []
  | none => []

end Capabilities

/-! ### Where capabilities come from -/

namespace Tree

def fixedKey? : Tree → Option String
  | .part _ (.key k) _ => some k
  | .expr _ (.str v _) _ => some v
  | _ => none

/-- A key that a pattern takes, and the name it gives it. Nested patterns, defaults of keys
and what is left over do not count. -/
def takenKey? : Tree → Option (String × String)
  | .pat _ .shorthand (.pat _ (.binding x _) _ :: _) => some (x, x)
  | .pat _ .keyValue [k, .pat _ (.binding x _) _] => (fixedKey? k).map (·, x)
  | _ => none

/-- The keys that an object pattern takes, in order. -/
def takenKeys : Tree → List (String × String)
  | .pat _ (.object _) [.list ps, _] => ps.filterMap takenKey?
  | _ => []

/-- What an object pattern calls the keys it takes. -/
def takenNames (p : Tree) : Renaming := p.takenKeys.foldl (fun r e => r.insert e.1 e.2) []

/-- The variable, other than the form, that a pattern binds the whole form state to. -/
def wholeBinding? : Tree → Option String
  | .pat _ (.binding x _) _ => if x == formName then none else some x
  | _ => none

/-! ### Reads of the form state -/

/-- What a read off the form state that `x` holds becomes. -/
def flatRead? (x form : String) (t : Tree) : Option Tree :=
  match t with
  | .expr _ _ _ =>
      match t.memberOf? x with
      | some k =>
          match handlers.lookup k with
          | some member => some (Make.member (Make.ident form) member)
          | none => if flattened.contains k then some (Make.ident k) else none
      | none => none
  | _ => none

/-- `x.values` becomes `values`, `x.handleSubmit` becomes `form.onSubmit`. -/
def flatten (x form : String) (body : Tree) : Tree := body.mapDown opensScope (flatRead? x form)

/-- The handlers that a pattern took: the name each goes by, and the member of the form
that takes its place. Of two handlers with one name the later one counts. -/
def takenHandlers (taken : Renaming) : Renaming :=
  handlers.foldl (fun r h => match taken.get? h.1 with | some x => r.insert x h.2 | none => r) []

/-- The member of the form that takes the place of a handler's name. -/
def handlerRead? (locals : Renaming) (form : String) : Tree → Option Tree
  | .expr _ (.ident x) _ => (locals.get? x).map fun member => Make.member (Make.ident form) member
  | _ => none

def substituteHandlers (taken : Renaming) (form : String) (body : Tree) : Tree :=
  body.mapDown opensScope (handlerRead? (takenHandlers taken) form)

/-- The scope with reads of the form state converted, where `p` is the pattern that the form
state was bound to. -/
def convertReads (p body : Tree) : Tree :=
  let body := match p.wholeBinding? with
    | some x => body.flatten x formName
    | none => body
  body.substituteHandlers p.takenNames formName

end Tree

end FormCodemod
