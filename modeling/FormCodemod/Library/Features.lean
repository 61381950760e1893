import FormCodemod.Library.Wiring

/-!
# Features in use

What a module uses of the form library, and whether it is written with types. Both are
read off the module before anything is changed.
-/

namespace FormCodemod

/-- Which features of the library a module uses. -/
structure Features where
  formik : Bool := false
  validationSchema : Bool := false
  useField : Bool := false
  useFormikContext : Bool := false
  field : Bool := false
  fieldPropsSpread : Bool := false
  deriving DecidableEq, Repr, Inhabited

namespace Module

def any (m : Module) (p : Tree → Bool) : Bool := Tree.anyAll Tree.nowhere p m.items

def anyElement (m : Module) (p : Element → Bool) : Bool := m.any fun t => t.element?.any p

def calls (m : Module) (x : String) : Bool := m.any fun t => t.calleeName? == some x

end Module

namespace Features

/-- The features a module uses. A name counts for the first thing it stands for. -/
def ofModule (names : LibraryNames) (m : Module) : Features :=
  { formik := m.anyElement fun e => e.tag? == some names.formik
    validationSchema := m.anyElement fun e =>
      e.tag? == some names.formik && (Attrs.find? "validationSchema" e.attrs).isSome
    useField := m.calls names.useField
    useFormikContext := names.useFormikContext != names.useField && m.calls names.useFormikContext
    field := names.field != names.formik && m.anyElement fun e => e.tag? == some names.field
    fieldPropsSpread := m.anyElement fun e => e.fieldPropsSpread?.isSome }

end Features

/-- Nodes that only a module with types has. -/
def Tree.isTypeSyntax : Tree → Bool
  | .part _ .typeAnn _ => true
  | .part _ .typeArgs _ => true
  | .part _ .typeParams _ => true
  | .stmt _ (.interface _) _ => true
  | .stmt _ (.typeAlias _) _ => true
  | .stmt _ (.enum _ _) _ => true
  | .expr _ .asType _ => true
  | _ => false

def Module.isTyped (m : Module) : Bool := m.any Tree.isTypeSyntax

end FormCodemod
