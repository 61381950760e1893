import FormCodemod.Library.Names
import FormCodemod.Tree.Make

/-!
# The setting of a conversion

What all parts of a conversion look at, and the names they agree on.
-/

namespace FormCodemod

/-- What every part of a conversion looks at. -/
structure Setting where
  names : LibraryNames
  /-- Made functions have typed parameters. -/
  typed : Bool
  deriving Repr, Inhabited

def formName : String := "form"

def fieldsName : String := "fields"

namespace Setting

/-- A parameter with a type written as one word, where functions have types. -/
def param (s : Setting) (x type : String) (optional : Bool) : Tree :=
  if s.typed then Make.typedParam x (Make.keywordType type) optional else Make.binding x

end Setting

end FormCodemod
