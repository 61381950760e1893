import FormCodemod.Tree.Basic
import FormCodemod.Tree.Shape
import FormCodemod.Text.Fresh

/-!
# The names of the form library

What a module calls the exports of the form library. A name that is not imported keeps
that of the export, so a module that gets one from elsewhere is converted too.
-/

namespace FormCodemod

/-- An import, taken apart. -/
structure ImportDecl where
  origin : Origin
  typeOnly : Bool
  phase : String
  specifiers : List Tree
  source : Tree
  attributes : Tree
  deriving Repr, Inhabited

namespace ImportDecl

def toTree (d : ImportDecl) : Tree :=
  .item d.origin (.importDecl d.typeOnly d.phase) [.list d.specifiers, d.source, d.attributes]

def sourceName (d : ImportDecl) : String := (d.source.string?).getD ""

end ImportDecl

namespace Tree

def import? : Tree → Option ImportDecl
  | .item origin (.importDecl typeOnly phase) [.list specifiers, source, attributes] =>
      some { origin, typeOnly, phase, specifiers, source, attributes }
  | _ => none

/-- The text of a name on the far side of an import. -/
def farText : Tree → Option String
  | .part _ (.name x) _ => some x
  | .expr _ (.str v _) _ => some v
  | _ => none

/-- What a specifier in braces imports, and the name it gives it. -/
def namedSpecifier? : Tree → Option (String × String)
  | .item _ (.importNamed _) [.part _ (.name near) _, far] => some ((farText far).getD near, near)
  | _ => none

def importedName? : Tree → Option String
  | .item _ .importDefault _ => some "default"
  | t => (namedSpecifier? t).map (·.1)

/-- `* as n` -/
def isStarSpecifier : Tree → Bool
  | .item _ .importStar _ => true
  | _ => false

end Tree

/-- What a module calls the exports of the form library. -/
structure LibraryNames where
  formik : String := "Formik"
  form : String := "Form"
  field : String := "Field"
  errorMessage : String := "ErrorMessage"
  useField : String := "useField"
  useFormikContext : String := "useFormikContext"
  /-- Every name that is imported from the library by name. -/
  aliases : Renaming := []
  deriving DecidableEq, Repr, Inhabited

namespace LibraryNames

/-- The names that imports of `source` give to what they import; the last one counts. -/
def aliasesIn (source : String) (items : List Tree) : Renaming :=
  let specs := items.flatMap fun t =>
    match t.import? with
    | some d => if d.sourceName == source then d.specifiers.filterMap Tree.namedSpecifier? else []
    | none => []
  specs.foldl (fun r s => r.insert s.1 s.2) []

/-- The names of a module that uses the library `source`. -/
def ofModule (source : String) (m : Module) : LibraryNames :=
  let aliases := aliasesIn source m.items
  let pick (x : String) : String := (aliases.get? x).getD x
  { formik := pick "Formik"
    form := pick "Form"
    field := pick "Field"
    errorMessage := pick "ErrorMessage"
    useField := pick "useField"
    useFormikContext := pick "useFormikContext"
    aliases }

/-- Tags of the library; any other capitalized tag is a component of the module's own. -/
def isLibraryTag (n : LibraryNames) (tag : String) : Bool :=
  tag == n.formik || tag == n.form || tag == n.field || tag == n.errorMessage || tag == "FieldArray"

end LibraryNames

end FormCodemod
