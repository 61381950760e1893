import FormCodemod.Library.Wiring

/-!
# Inputs

A field component, or a native input that is wired to the form, becomes an element with
`{...getInputProps(field, options)}`. It loses the wiring and gains the spread and an `id`;
what else it had is kept, in order.

* `Element.toInput` converts an element as a whole;
* `Element.convertFieldProps?` converts an element that spreads `getFieldProps(...)`;
* `Element.takeBinding?` takes the spread of a field hook's result off an element.
-/

namespace FormCodemod

/-- What an input is made from. -/
inductive InputKind
  /-- The library's field component, which says what its tag becomes. -/
  | fieldComponent
  /-- Any other element, which keeps its tag. -/
  | native
  deriving DecidableEq, Repr, Inhabited

/-- Where the field that `getInputProps` is handed comes from. -/
inductive FieldSource
  /-- The member of this variable that goes by the field's name. -/
  | fieldset (x : String)
  /-- The field itself. -/
  | binding (e : Tree)
  deriving Repr, Inhabited

/-- The name of a field: as an expression, and as text if it is fixed. -/
structure FieldName where
  expr : Tree
  text? : Option String
  deriving Repr, Inhabited

namespace FieldName

def fixed (s : String) : FieldName := { expr := Make.str s, text? := some s }

/-- The name that an attribute says; a bare attribute says none. -/
def ofValue? : AttrValue → Option FieldName
  | .literal s => some (fixed s)
  | .expr e => some { expr := e, text? := none }
  | .bare => none
  | .absent => none

def ofRead? (attr : Tree) : Option FieldName :=
  match attr.attrValue with
  | .markup _ .container [e] => (e.memberOf? "values").map fixed
  | _ => none

end FieldName

/-- `{...getInputProps(field, { options })}` -/
def Make.inputProps (field : Tree) (options : List Tree) : Tree :=
  Make.spread (Make.callNamed "getInputProps" [field, Make.object options])

namespace Attrs

def unwired (attrs : List Tree) : List Tree := attrs.filter fun a => !a.isStrippedAttr

def eraseAll (xs : List String) (attrs : List Tree) : List Tree := xs.foldl (fun as x => erase x as) attrs

/-- The name of the field an input is for. A field component says it by `name`; else it is
the `id`, else the key of the value that is shown, else `"field"`. -/
def inputName (kind : InputKind) (attrs : List Tree) : FieldName :=
  let kept := unwired attrs
  let byName := if kind == .fieldComponent then FieldName.ofValue? (value "name" kept) else none
  ((byName.or (FieldName.ofValue? (value "id" kept))).or
    ((find? "value" attrs).bind FieldName.ofRead?)).getD (.fixed "field")

/-- Whether an input is disabled, if that is said: any text but `"false"` counts as yes. -/
def disabled? (attrs : List Tree) : Option Tree :=
  match value "disabled" attrs with
  | .absent => none
  | .bare => some (Make.bool true)
  | .literal s => some (Make.bool (s != "false"))
  | .expr e => some e

def inputOptions (attrs : List Tree) : List Tree :=
  let type := (value "type" attrs).unlessBare?.getD (Make.str "text")
  [Make.keyValue "type" type] ++
    ((value "placeholder" attrs).unlessBare?.map (Make.keyValue "placeholder")).toList ++
    ((disabled? attrs).map (Make.keyValue "disabled")).toList

/-- The `id` of an input: its own, or one made from the field's name. -/
def inputId (name : FieldName) (attrs : List Tree) : Tree :=
  (find? "id" attrs).getD (Make.stringAttr "id" (name.text?.getD "field-id"))

/-- The tag a field component asks for by `as`, or else by `component`. -/
def inputTag (attrs : List Tree) : String :=
  match ((find? "as" attrs).or (find? "component" attrs)).map AttrValue.ofAttr with
  | some (.literal tag) => tag
  | some (.expr e) => e.ident?.getD "input"
  | _ => "input"

/-- `innerRef={r}` becomes `ref={r}`. -/
def toRef : Tree → Tree
  | .markup o .attr [_, v] => .markup o .attr [.part o (.key "ref") [], v]
  | t => t

/-- The attributes that end up in the options or in the `id`. -/
def inputAttrs : List String := ["name", "type", "placeholder", "disabled", "id"]

/-- The attributes that only a field component has. -/
def fieldAttrs : List String := ["as", "component", "validate", "innerRef"]

def inputRest (kind : InputKind) (attrs : List Tree) : List Tree :=
  let rest := eraseAll inputAttrs (unwired attrs)
  match kind with
  | .native => rest
  | .fieldComponent => eraseAll fieldAttrs rest ++ ((find? "innerRef" rest).map toRef).toList

end Attrs

namespace Element

def content (e : Element) : List Tree := e.children.filter fun c => !c.isLayout

/-- The element, closing itself if it has no content. -/
def settle (e : Element) : Element :=
  if e.content.isEmpty then { e with selfClosing := true, children := [], closing := .absent }
  else { e with selfClosing := false, closing := if e.closing.isAbsent then e.name else e.closing }

def toInput (kind : InputKind) (source : FieldSource) (e : Element) : Element :=
  let name := Attrs.inputName kind e.attrs
  let kept := Attrs.unwired e.attrs
  let field := match source with
    | .fieldset x => Make.index (Make.ident x) name.expr
    | .binding b => b
  let e' := match kind with
    | .native => e
    | .fieldComponent => e.rename (Attrs.inputTag kept)
  settle
    { e' with
      attrs := Make.inputProps field (Attrs.inputOptions kept) :: Attrs.inputId name kept ::
        Attrs.inputRest kind e.attrs }

/-! ### Spreads -/

/-- What takes the place of a spread of `getFieldProps(...)`. -/
def fieldProps? (fieldset : String) (type a : Tree) : Option (Tree × Unit) :=
  match a.spread?.bind Tree.fieldPropsArgs? with
  | none => none
  | some args =>
      let name := (args.head?.map Tree.fieldName).getD (Make.str "field")
      some (Make.inputProps (Make.index (Make.ident fieldset) name) [Make.keyValue "type" type], ())

/-- Converts the spread of `getFieldProps(...)` of an element that has one. Its `type` moves
into the options. -/
def convertFieldProps? (fieldset : String) (e : Element) : Option Element :=
  let type := (Attrs.value "type" e.attrs).toExpr?.getD (Make.str "text")
  (mapFirst? (fieldProps? fieldset type) e.attrs).map fun r => { e with attrs := Attrs.erase "type" r.1 }

/-- The name that a spread spreads, if it is one of `xs`. -/
def spreadOf? (xs : List String) (a : Tree) : Option String :=
  (a.spread?.bind Tree.ident?).filter xs.contains

/-- An element without the first spread of one of the names, and that name. -/
def takeBinding? (xs : List String) (e : Element) : Option (Element × String) :=
  (e.attrs.findSome? (spreadOf? xs)).map fun x =>
    ({ e with attrs := e.attrs.eraseP fun a => (spreadOf? xs a).isSome }, x)

end Element

end FormCodemod
