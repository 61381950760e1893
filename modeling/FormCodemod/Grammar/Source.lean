import FormCodemod.Grammar.Items

/-!
# Source files

Ties the grammar together and reads a whole file. `productions n` recurs at most `n`
levels deep; each level but a few reads a token, so a depth proportional to the length of
the input is never exhausted.
-/

namespace FormCodemod

open Grammar Grammar.Parser

namespace Grammar

/-- The grammar down to a depth. -/
def productions : Nat → Productions
  | 0 =>
      { assignment := fun _ => fail
        unary := fun _ => fail
        operators := fun _ _ _ => fail
        leftSide := fun _ => fail
        construction := fun _ => fail
        pattern := fun _ => fail
        type := fun _ => fail
        element := fun _ => fail
        statement := fun _ _ => fail
        moduleItem := fun _ => fail }
  | n + 1 =>
      { assignment := fun ctx c => assignmentExpr (productions n) ctx c
        unary := fun ctx c => unaryExpr (productions n) ctx c
        operators := fun ctx least left c => operatorsFrom (productions n) ctx least left c
        leftSide := fun ctx c => leftSideExpr (productions n) ctx c
        construction := fun ctx c => newExpr (productions n) ctx c
        pattern := fun ctx c => anyPattern (productions n) ctx c
        type := fun ctx c => anyType (productions n) ctx c
        element := fun ctx c => openElement (productions n) ctx ((productions n).element ctx) c
        statement := fun ctx declares c => anyStatement (productions n) ctx declares c
        moduleItem := fun ctx c => anyItem (productions n) ctx c }

/-- A depth that no source of this length exhausts. -/
def depthFor (length : Nat) : Nat := 8 * length + 64

/-- The line with `#!` that a file may begin with, and what follows it. -/
def splitInterpreter : List Char → Option String × List Char
  | '#' :: '!' :: cs =>
      let line := cs.takeWhile fun c => !Text.isNewline c
      (some (String.ofList line), cs.drop line.length)
  | cs => (none, cs)

/-- The items of a file that begins with the line `interpreter`, if there is one. A file
without tokens has its place at the start. -/
def sourceFile (g : Productions) (interpreter : Option String) : Parser Module := do
  let lo ← if interpreter.isSome then pure 0 else if ← atEnd then prevHi else lo
  let items ← listUntil atEnd (g.moduleItem {})
  let hi ← prevHi
  return { origin := .source lo hi, items, interpreter }

end Grammar

/-- A file that was read: its tree and the comments beside it. -/
structure Source where
  module : Module
  comments : Comments
  deriving Repr, Inhabited

namespace Source

def read? (text : String) : Option Source :=
  let input := text.toList
  let g := productions (depthFor input.length)
  let (interpreter, rest) := splitInterpreter input
  match sourceFile g interpreter (Cursor.start (input.length - rest.length) rest) with
  | (some module, c) => some { module, comments := c.comments }
  | (none, _) => none

end Source

end FormCodemod
