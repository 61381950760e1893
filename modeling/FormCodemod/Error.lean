/-!
# Errors

Why a conversion may fail.
-/

namespace FormCodemod

/-- Why the children of a form wrapper cannot be converted. -/
inductive ChildrenError
  /-- The render function returns something else than markup. -/
  | returnsNoMarkup
  /-- The render function does not end in a `return` of something. -/
  | endsWithoutReturn
  /-- The render function is only a signature. -/
  | noBody
  /-- The one child is neither a render function nor markup. -/
  | noRenderFunction
  /-- There is not exactly one child. -/
  | childCount (n : Nat)
  /-- A component holds more than one wrapper. -/
  | wrapperCount (n : Nat)
  deriving DecidableEq, Repr, Inhabited

/-- Why a conversion fails. -/
inductive ConvertError
  /-- The source cannot be read. -/
  | parse
  /-- A form wrapper's children have no supported shape. -/
  | children (e : ChildrenError)
  deriving DecidableEq, Repr, Inhabited

def ChildrenError.message : ChildrenError → String
  | returnsNoMarkup => "the render function must return JSX"
  | endsWithoutReturn => "the render function must end by returning JSX"
  | noBody => "the render function has no body"
  | noRenderFunction => "children must be a render function or a single element"
  | childCount n => s!"expected exactly one child, found {n}"
  | wrapperCount n => s!"found {n} <Formik> elements in one component"

def ConvertError.message : ConvertError → String
  | parse => "failed to parse source"
  | children e => "unsupported <Formik> children: " ++ e.message

end FormCodemod
