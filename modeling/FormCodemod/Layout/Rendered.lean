import FormCodemod.Layout.Writer
import FormCodemod.Text.Quoted

/-!
# Rendered nodes

Printing goes bottom up: every node is turned into a `Rendered` that holds its printer and
those of its children. The layout of a kind is then a function of its rendered children
and not recursive (`Layout.Types`, `Layout.Expressions`, ...).

A rendered node prints in two ways. `bare` is the node with the comments in front of it;
`print` also prints what follows where the node stands on its own: the comments behind an
expression or pattern, the end of the line behind a statement.
-/

namespace FormCodemod

/-- A node ready to be printed. -/
inductive Rendered
  | mk (tree : Tree) (bare print : Printer) (items : List Rendered)

namespace Rendered

def tree : Rendered → Tree
  | mk t _ _ _ => t

/-- Prints the node and the comments in front of it. -/
def bare : Rendered → Printer
  | mk _ p _ _ => p

/-- Prints the node as it stands among others. -/
def print : Rendered → Printer
  | mk _ _ p _ => p

def items : Rendered → List Rendered
  | mk _ _ _ rs => rs

def origin (r : Rendered) : Origin := r.tree.origin

def isPresent (r : Rendered) : Bool := !r.tree.isAbsent

/-- Prints `before`, the node and `after`, if the node is there. -/
def around (before : String) (r : Rendered) (after : String) : Printer :=
  if r.isPresent then Printer.lit before ++ r.print ++ Printer.lit after else Printer.nothing

/-- The printers of a group, one per item. -/
def each (r : Rendered) : List Printer := r.items.map print

/-- Prints the node as an item of a list with separators, where the comments behind an item
stand in front of the separator. -/
def listed (r : Rendered) : Printer := r.print ++ Printer.trailingTight r.origin

/-- The printers of a group whose items have separators between them, one per item. -/
def eachListed (r : Rendered) : List Printer := r.items.map listed

/-- The same for patterns that are only parts of another one, or of a signature, and so do
not stand on their own. -/
def eachPart (r : Rendered) : List Printer := r.items.map fun r => r.bare ++ Printer.trailingTight r.origin

end Rendered

namespace Layout

open Printer

/-! ### Shapes that many kinds share -/

/-- `: T`, if there is a type. -/
def ofType (t : Rendered) : Printer := t.around ": " ""

/-- `(a, b)` -/
def params (ps : Rendered) : Printer := parens (commas ps.eachListed)

def signatureParams (ps : Rendered) : Printer := parens (commas ps.eachPart)

/-- `{ a, b }` on one line, `{}` around nothing. -/
def braced (ps : List Printer) : Printer :=
  if ps.isEmpty then lit "\x7b\x7d" else lit "\x7b " ++ commas ps ++ lit " \x7d"

/-- A string: its own text, or quoted if it was made. -/
def stringText (value : String) (raw : Option String) : String := raw.getD (Text.quoted value)

/-- The pieces of a template with the holes between them. -/
def templateText : List Printer → List Printer → Printer
  | q :: qs, h :: hs => q ++ lit "$\x7b" ++ h ++ lit "\x7d" ++ templateText qs hs
  | qs, _ => seq qs

/-- A template between backquotes. -/
def templateOf (holes quasis : Rendered) : Printer :=
  lit "`" ++ templateText quasis.each holes.each ++ lit "`"

end Layout

end FormCodemod
