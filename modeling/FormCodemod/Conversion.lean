import FormCodemod.Convert.Context
import FormCodemod.Convert.FieldHook
import FormCodemod.Convert.FieldMarkup
import FormCodemod.Convert.Fieldset
import FormCodemod.Convert.FormWrapper
import FormCodemod.Convert.Imports
import FormCodemod.Layout.Tidy

/-!
# The conversion

`convert` takes the text of one file to the text of the converted file. A file that does
not mention the form library comes back as it is, unread. Otherwise it is read, converted
as a module (`Module.convert`), printed and tidied.
-/

namespace FormCodemod

/-! ### Mention of the library -/

def isQuote (c : Char) : Bool := c == '\x27' || c == '\x22'

def rest? : List Char → List Char → Option (List Char)
  | [], cs => some cs
  | _ :: _, [] => none
  | w :: ws, c :: cs => if w == c then rest? ws cs else none

def hasQuoted (word : List Char) : List Char → Bool
  | [] => false
  | c :: cs => (isQuote c && ((rest? word cs).any fun r => r.head?.any isQuote)) || hasQuoted word cs

/-- Whether the text holds `word` as a word of its own, where `before` is the character
before the text. -/
def hasWord (word : List Char) : Option Char → List Char → Bool
  | _, [] => false
  | before, c :: cs =>
      (!before.any Text.isWord && ((rest? word (c :: cs)).any fun r => !r.head?.any Text.isWord)) ||
        hasWord word (some c) cs

/-- Whether a text mentions the form library: its name in quotes, or its context hook. -/
def mentionsLibrary (o : Options) (text : String) : Bool :=
  hasQuoted o.sourceModule.toList text.toList || hasWord "useFormikContext".toList none text.toList

/-! ### Modules -/

namespace Module

/-- The names and the kind of code of a module, read before anything is changed. -/
def setting (o : Options) (m : Module) : Setting :=
  { names := .ofModule o.sourceModule m, typed := o.typescript.getD m.isTyped }

def convertMarkup (s : Setting) (m : Module) : StateT Symbols (Except ConvertError) Module := do
  let m ← FormWrapper.convert s m
  let (m, symbols) := (FieldMarkup.convert s m).run (← get)
  set symbols
  return m

def convert (o : Options) (m : Module) : Except ConvertError Module := do
  let s := m.setting o
  let plan := ImportPlan.ofFeatures (.ofModule s.names m)
  let m := Context.convert s m
  let place := m.importPlace? o.sourceModule
  let m := (m.removeImports o.sourceModule).insertImports o plan s.names.aliases place
  let m := FieldHook.convert s m
  let (m, symbols) ← (convertMarkup s m).run {}
  let m := Fieldset.normalize m
  return m.ensureImports o.targetModule symbols.toList [] place

end Module

/-! ### Files -/

def convert (o : Options) (text : String) : Except ConvertError String :=
  if mentionsLibrary o text then
    match Source.read? text with
    | none => .error .parse
    | some s => (s.module.convert o).map fun m => Layout.tidy (m.print s.comments)
  else .ok text

end FormCodemod
