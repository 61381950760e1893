/-!
# Options

The knobs of a conversion.
-/

namespace FormCodemod

/-- The knobs of a conversion. -/
structure Options where
  /-- The library to convert from. -/
  sourceModule : String := "formik"
  /-- The library to convert to. -/
  targetModule : String := "@conform-to/react"
  /-- The library that validates with a schema. -/
  yupModule : String := "@conform-to/yup"
  /-- Whether made functions have types; if it is not said, the module decides. -/
  typescript : Option Bool := none
  deriving DecidableEq, Repr, Inhabited

end FormCodemod
