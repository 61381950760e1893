import FormCodemod.Library.Names
import FormCodemod.Scope.Usage

/-!
# Wired inputs

How an input hangs together with the form before the conversion: through handlers and
values of the form in its attributes, through the library's own field component, or
through a spread of `getFieldProps(...)`.
-/

namespace FormCodemod

def nativeInputs : List String := ["input", "select", "textarea"]

/-- Names that mark a click handler as mere bookkeeping of touched fields. -/
def touchHandlers : List String := ["handleBlur", "onBlur", "setTouched", "setFieldTouched"]

namespace Tree

/-! ### Attributes -/

/-- The object and key of a member, in a chain and as a target too. -/
def memberParts? : Tree → Option (Tree × Tree)
  | .expr _ .member [obj, k] => some (obj, k)
  | .expr _ (.chainMember _) [obj, k] => some (obj, k)
  | .pat _ .memberTarget [obj, k] => some (obj, k)
  | _ => none

/-- A name of the form's handlers, used or bound, or a read of the form's values. -/
def isWire (t : Tree) : Bool :=
  match t with
  | .expr _ (.ident x) _ => x == "handleChange" || x == "handleBlur"
  | .part _ (.name x) _ => x == "handleChange" || x == "handleBlur"
  | .pat _ (.binding x _) _ => x == "handleChange" || x == "handleBlur"
  | t =>
      match t.memberParts? with
      | some (obj, k) =>
          obj.ident? == some "values" ||
            k.key?.any fun k => k == "handleChange" || k == "handleBlur" || k == "values"
      | none => false

/-- An attribute that points at the form's state. -/
def isWiredAttr (a : Tree) : Bool :=
  (a.attrName?.any fun x => x == "onChange" || x == "onBlur" || x == "value") &&
    a.attrValue.any nowhere isWire

def readsTouch (t : Tree) : Bool :=
  match t.memberParts? with
  | some (_, .part _ (.key k) _) => touchHandlers.contains k
  | _ => false

def isIndex : Tree → Bool
  | .part _ .index _ => true
  | _ => false

/-- Whether an attribute's value has to do with touched fields. -/
def mentionsTouch (a : Tree) : Bool :=
  (touchHandlers.any fun h => a.attrValue.refersTo h) || a.attrValue.any isIndex readsTouch

def isStrippedAttr (a : Tree) : Bool :=
  match a.attrName? with
  | some x => x == "onChange" || x == "onBlur" || x == "value" || (x == "onClick" && a.mentionsTouch)
  | none => false

/-! ### Names of fields -/

def nameProperty? : Tree → Option Tree
  | .prop _ .keyValue [.part _ (.key "name") _, v] => some v
  | .part o (.name "name") _ => some (.expr o (.ident "name") [])
  | _ => none

/-- The field's name that an argument gives: `"email"`, `x` or `{ name: "email" }`. The dots
of a spread are ignored. -/
def fieldName (arg : Tree) : Tree :=
  let e := arg.spread?.getD arg
  match e.unparen with
  | .expr _ .object [.list ps] => (ps.findSome? nameProperty?).getD e
  | _ => e

/-! ### Spreads -/

def isFieldPropsGetter (t : Tree) : Bool :=
  match t.unparen with
  | .expr _ (.ident x) _ => x == "getFieldProps"
  | .expr _ .member [_, k] => k.key? == some "getFieldProps"
  | _ => false

def fieldPropsArgs? (t : Tree) : Option (List Tree) :=
  match t.unparen with
  | .expr _ .call [callee, .list args, _] => if callee.isFieldPropsGetter then some args else none
  | _ => none

def isFieldPropsSpread (a : Tree) : Bool := a.spread?.any fun e => e.fieldPropsArgs?.isSome

end Tree

/-! ### Elements -/

namespace Element

def isWiredNative (e : Element) : Bool :=
  (e.tag?.any nativeInputs.contains) && e.attrs.any Tree.isWiredAttr

/-- An element that becomes an input with a spread of `getInputProps(...)`. -/
def isConvertedInput (names : LibraryNames) (e : Element) : Bool :=
  e.tag? == some names.field || e.isWiredNative

/-- The place of a spread of `getFieldProps(...)` among the attributes. -/
def fieldPropsSpread? (e : Element) : Option Nat := e.attrs.findIdx? Tree.isFieldPropsSpread

end Element

/-- Leaves out the attributes that converted inputs lose. -/
def Skip.wiring (names : LibraryNames) : Skip :=
  { wired := Element.isConvertedInput names, strip := Tree.isStrippedAttr }

namespace Tree

/-- The uses of names that are left when inputs have lost their wiring. -/
def unwiredUses (names : LibraryNames) (t : Tree) : List Use := t.usesWith (.wiring names)

def readsFields (names : LibraryNames) (t : Tree) : Bool :=
  match t.element? with
  | some e =>
      e.tag? == some names.field || e.tag? == some names.errorMessage || e.isWiredNative ||
        e.fieldPropsSpread?.isSome
  | none => false

/-- Whether a scope renders markup that reads from the form's fields. -/
def rendersFields (names : LibraryNames) (body : Tree) : Bool := body.any opensScope (readsFields names)

end Tree

end FormCodemod
