import FormCodemod.Library.Features
import FormCodemod.Options.Basic
import FormCodemod.Tree.Traversal

/-!
# Imports

The imports of the form library go away (`Module.removeImports`), and what the converted
module needs is imported instead (`Module.ensureImports`), merged into an import that is
there or in an import of its own.
-/

namespace FormCodemod

namespace Tree

def importsFrom (source : String) (t : Tree) : Bool := t.import?.any fun d => d.sourceName == source

def isImport (t : Tree) : Bool := t.import?.isSome

end Tree

/-! ### What to import -/

/-- The exports of the target library that a module needs from the start. -/
structure ImportPlan where
  symbols : List String
  /-- The schema library is needed too. -/
  yupBridge : Bool
  deriving DecidableEq, Repr, Inhabited

def ImportPlan.ofFeatures (f : Features) : ImportPlan :=
  { symbols :=
      (if f.formik then ["useForm"] else []) ++ (if f.useField then ["useField"] else []) ++
        (if f.useFormikContext then ["useFormMetadata"] else []) ++
        (if f.field || f.fieldPropsSpread then ["getInputProps"] else [])
    yupBridge := f.formik && f.validationSchema }

namespace Imports

/-- The exports of the target library in the order in which a new import lists them. -/
def canonicalOrder : List String := ["useForm", "useField", "useFormMetadata", "getInputProps", "FormProvider"]

/-- The symbols without repetition, the known ones first and in their order. -/
def ordered (symbols : List String) : List String :=
  canonicalOrder.filter symbols.contains ++
    (symbols.filter fun s => !canonicalOrder.contains s).eraseDups

def specifier (aliases : Renaming) (symbol : String) : Tree :=
  Make.importSpecifier symbol ((aliases.get? symbol).getD symbol)

def provides (specifiers : List Tree) (symbol : String) : Bool :=
  specifiers.any fun s => s.importedName? == some symbol

/-- The specifiers with one for the symbol, if there was none. -/
def addSpecifier (aliases : Renaming) (specifiers : List Tree) (symbol : String) : List Tree :=
  if provides specifiers symbol then specifiers else specifiers ++ [specifier aliases symbol]

end Imports

namespace ImportDecl

/-- An import that names can be added to: it is not of types only and has no `* as n`. -/
def isOpen (d : ImportDecl) : Bool := !d.typeOnly && !d.specifiers.any Tree.isStarSpecifier

def add (d : ImportDecl) (aliases : Renaming) (symbols : List String) : ImportDecl :=
  { d with specifiers := symbols.foldl (Imports.addSpecifier aliases) d.specifiers }

end ImportDecl

/-- The import of the library that an item is, with the symbols that it lacks. -/
def Tree.mergeImport? (source : String) (aliases : Renaming) (symbols : List String) (t : Tree) :
    Option (Tree × Unit) :=
  match t.import? with
  | some d => if d.sourceName == source && d.isOpen then some ((d.add aliases symbols).toTree, ()) else none
  | none => none

namespace Module

def afterImports (m : Module) : Nat := m.items.length - m.items.reverse.findIdx Tree.isImport

/-- The place of the first import of the library. -/
def importPlace? (source : String) (m : Module) : Option Nat := m.items.findIdx? (Tree.importsFrom source)

def removeImports (source : String) (m : Module) : Module :=
  { m with items := m.items.filter fun t => !t.importsFrom source }

/-- The module with the symbols imported from the library. They join an import of it that is
there; a new one goes to `place`, or behind the last import. -/
def ensureImports (source : String) (symbols : List String) (aliases : Renaming) (place : Option Nat)
    (m : Module) : Module :=
  if symbols.isEmpty then m
  else
    match mapFirst? (Tree.mergeImport? source aliases symbols) m.items with
    | some (items, _) => { m with items }
    | none =>
        let decl := Make.importDecl source ((Imports.ordered symbols).map (Imports.specifier aliases))
        { m with items := insertAt (place.getD m.afterImports) [decl] m.items }

/-- The module with the imports of a plan. -/
def insertImports (o : Options) (plan : ImportPlan) (aliases : Renaming) (place : Option Nat)
    (m : Module) : Module :=
  let m := if plan.yupBridge then m.ensureImports o.yupModule ["parseWithYup"] aliases place else m
  m.ensureImports o.targetModule plan.symbols aliases place

end Module

end FormCodemod
