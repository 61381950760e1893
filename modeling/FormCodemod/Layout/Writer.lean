import FormCodemod.Tree.Basic
import FormCodemod.Tree.Comments

/-!
# The writer

Printing is a composition of `Printer`s, functions that add text to a `Writer`. A line is
indented when its first text arrives, four spaces to a level, so that an empty line has
none, and ending a line twice ends it once. The writer also holds the comments that are
still to be printed.
-/

namespace FormCodemod

/-- What has been printed, and how to go on. -/
structure Writer where
  /-- The text so far, latest piece first. -/
  pieces : List String := []
  level : Nat := 0
  atLineStart : Bool := true
  comments : Comments := {}
  deriving Inhabited

/-- Adds to what has been printed. -/
def Printer := Writer → Writer

namespace Writer

def indentText : Nat → String
  | 0 => ""
  | n + 1 => "    " ++ indentText n

def write (w : Writer) (s : String) : Writer :=
  if s.isEmpty then w
  else if w.atLineStart then
    { w with pieces := s :: indentText w.level :: w.pieces, atLineStart := false }
  else { w with pieces := s :: w.pieces }

/-- Ends the current line, if anything is on it. -/
def endLine (w : Writer) : Writer :=
  if w.atLineStart then w else { w with pieces := "\n" :: w.pieces, atLineStart := true }

def text (w : Writer) : String := String.join w.pieces.reverse

/-- Prints one comment; a line comment ends its line. -/
def comment (w : Writer) (spaced : Bool) (c : Comment) : Writer :=
  let w := if spaced then w.write " " else w
  if c.isBlock then (((w.write "/*").write c.text).write "*/").write " "
  else ((w.write "//").write c.text).endLine

end Writer

namespace Printer

instance : Append Printer := ⟨fun p q w => q (p w)⟩

instance : Inhabited Printer := ⟨id⟩

def nothing : Printer := fun w => w

def lit (s : String) : Printer := fun w => w.write s

def space : Printer := lit " "

def line : Printer := fun w => w.endLine

def indented (p : Printer) : Printer := fun w =>
  let w' := p { w with level := w.level + 1 }
  { w' with level := w.level }

/-- Prints one after the other. -/
def seq (ps : List Printer) : Printer := fun w => ps.foldl (fun w p => p w) w

def sepBy (sep : Printer) : List Printer → Printer
  | [] => nothing
  | [p] => p
  | p :: q :: ps => p ++ sep ++ sepBy sep (q :: ps)

/-- On one line, with commas between. -/
def commas (ps : List Printer) : Printer := sepBy (lit ", ") ps

def when (b : Bool) (p : Printer) : Printer := if b then p else nothing

/-- A word and a space, if `b`. -/
def word (b : Bool) (s : String) : Printer := when b (lit (s ++ " "))

def parens (p : Printer) : Printer := lit "(" ++ p ++ lit ")"

/-- One to a line between braces, which stand on two lines even around nothing. -/
def lines (ps : List Printer) : Printer :=
  lit "\x7b" ++ line ++ indented (sepBy line ps) ++ line ++ lit "\x7d"

/-! ### Comments -/

def comments (spaced : Bool) (cs : List Comment) : Printer := fun w =>
  cs.foldl (fun w c => w.comment spaced c) w

def leadingAt (pos : Nat) : Printer := fun w =>
  comments false (w.comments.leadingAt pos) { w with comments := w.comments.dropLeading pos }

def trailingAt (pos : Nat) : Printer := fun w =>
  comments true (w.comments.trailingAt pos) { w with comments := w.comments.dropTrailing pos }

def leading : Origin → Printer
  | .source lo _ => leadingAt lo
  | .noted text => comments false [⟨false, " " ++ text⟩]
  | .made => nothing

def trailing : Origin → Printer
  | .source _ hi => trailingAt hi
  | _ => nothing

/-- Prints the comments behind an item of a list, which stand right behind it. -/
def trailingTight : Origin → Printer
  | .source _ hi => fun w =>
      comments false (w.comments.trailingAt hi) { w with comments := w.comments.dropTrailing hi }
  | _ => nothing

/-- Prints `p` as if no comment stood behind the node; those that do are still to be
printed. -/
def keepingTrailing (o : Origin) (p : Printer) : Printer :=
  match o with
  | .source _ hi => fun w =>
      let kept := w.comments.trailingAt hi
      let w' := p { w with comments := w.comments.dropTrailing hi }
      { w' with comments := w'.comments.addTrailing hi kept }
  | _ => p

/-- Prints the comments that lead `n` characters before a node. -/
def leadingBefore (n : Nat) : Origin → Printer
  | .source lo _ => if n ≤ lo then leadingAt (lo - n) else nothing
  | _ => nothing

/-- Whether comments lead the last character of a node, its closing brace. -/
def leadsClosing (w : Writer) : Origin → Bool
  | .source _ hi => !(w.comments.leadingAt (hi - 1)).isEmpty
  | _ => false

/-- Prints the comments in front of the last character of a node. -/
def leadingClosing : Origin → Printer
  | .source _ hi => leadingAt (hi - 1)
  | _ => nothing

end Printer

end FormCodemod
