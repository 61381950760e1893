import FormCodemod.Layout.Source
import FormCodemod.Tree.Traversal

/-!
# Tidying

A last cleanup of printed text that touches white space only:

* a space in front of the `/>` of an element without children;
* an empty line behind the last import;
* an empty line behind a block that ends at the left margin.

Where the elements end is found by reading the text again, so that a `/>` inside a string
or a comment stays as it is; text that cannot be read keeps its tags.
-/

namespace FormCodemod.Layout

open Text

/-! ### Tags -/

def selfClosingEnd : Tree → List Nat
  | .markup (.source _ hi) (.element true _) _ => [hi]
  | _ => []

/-- The offsets behind the elements without children of a file. -/
def selfClosingEnds (m : Module) : List Nat := Tree.collectAll Tree.nowhere selfClosingEnd m.items

/-- Puts a space before each `/>` that ends at one of the offsets `ends`. `before` is the
character before the input and `pos` the offset of the input. -/
def spaceTagsFrom (ends : List Nat) : Option Char → Nat → List Char → List Char
  | _, _, [] => []
  | before, pos, c :: cs =>
      let isEnd := c == '/' && cs.head? == some '>' && ends.contains (pos + 2)
      let isTight := before.any fun b => !isBlank b
      if isEnd && isTight then ' ' :: c :: spaceTagsFrom ends (some c) (pos + 1) cs
      else c :: spaceTagsFrom ends (some c) (pos + 1) cs

/-- `<a/>` becomes `<a />`. -/
def spaceTags (text : String) : String :=
  match Source.read? text with
  | none => text
  | some s => String.ofList (spaceTagsFrom (selfClosingEnds s.module) none 0 text.toList)

/-! ### Lines -/

/-- Drops the carriage return that a line ends with. -/
def chomp (l : List Char) : List Char :=
  if l.getLast? == some '\r' then l.dropLast else l

/-- The lines of a text, given the line so far in reverse. A line ends in a line feed, with
or without a carriage return before it; what follows the last one is a line if it is not
empty. -/
def linesFrom : List Char → List Char → List (List Char)
  | [], [] => []
  | acc, [] => [acc.reverse]
  | acc, c :: cs => if c == '\n' then chomp acc.reverse :: linesFrom [] cs else linesFrom (c :: acc) cs

def linesOf (cs : List Char) : List (List Char) := linesFrom [] cs

/-- A line that is an import from start to end. -/
def isImportLine (l : List Char) : Bool :=
  "import ".toList.isPrefixOf l && (trimEnd l).getLast? == some ';'

def isBlankLine (l : List Char) : Bool := l.all isBlank

/-- A line that begins with a closing brace. -/
def closesBlock (l : List Char) : Bool := l.head? == some '\x7d'

/-- A line that ends a block at the left margin and opens no other. -/
def endsBlock (l : List Char) : Bool := closesBlock l && (trimEnd l).getLast? != some '\x7b'

/-- Whether an empty line is due between two lines; `isLastImport` tells whether the first
one is the last import. -/
def wantsGap (isLastImport : Bool) (l next : List Char) : Bool :=
  !isBlankLine next && (isLastImport || (endsBlock l && !closesBlock next))

/-- The lines with the empty ones put in. -/
def spaceLines : List (List Char) → List (List Char)
  | [] => []
  | [l] => [l]
  | l :: next :: ls =>
      let isLastImport := isImportLine l && !(next :: ls).any isImportLine
      if wantsGap isLastImport l next then l :: [] :: spaceLines (next :: ls)
      else l :: spaceLines (next :: ls)

/-- The lines as text, each with its end. -/
def unlines (ls : List (List Char)) : List Char := ls.flatMap fun l => l ++ ['\n']

/-- The cleanup of lines. A text always ends in a line end. -/
def tidyLines (cs : List Char) : List Char :=
  let out := unlines (spaceLines (linesOf cs))
  if out.isEmpty then ['\n'] else out

def tidy (text : String) : String := String.ofList (tidyLines (spaceTags text).toList)

end FormCodemod.Layout
