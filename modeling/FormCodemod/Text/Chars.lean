import FormCodemod.Text.Letter

/-!
# Character classes

The classes of characters the grammar, the text cleanup and the quick check of a file
need. They differ in small ways, so each is named for its use:

* `isBlank` decides whether text is white space only;
* `isSpace` and `isNewline` separate the tokens of a source file;
* `isNameStart` and `isNamePart` make up identifiers;
* `isWord` decides where a word ends.
-/

namespace FormCodemod.Text

/-- White space of any kind, line ends included. -/
def isBlank (c : Char) : Bool :=
  let n := c.toNat
  (9 ≤ n && n ≤ 13) || n == 0x20 || n == 0x85 || n == 0xA0 || n == 0x1680 ||
    (0x2000 ≤ n && n ≤ 0x200A) || n == 0x2028 || n == 0x2029 || n == 0x202F || n == 0x205F ||
    n == 0x3000

/-- The characters that end a line of source text. -/
def isNewline (c : Char) : Bool :=
  c == '\n' || c == '\r' || c.toNat == 0x2028 || c.toNat == 0x2029

/-- White space between tokens that does not end a line. -/
def isSpace (c : Char) : Bool :=
  let n := c.toNat
  n == 9 || n == 11 || n == 12 || n == 0x20 || n == 0x85 || n == 0xA0 || n == 0xFEFF || n == 0x1680 ||
    (0x2000 ≤ n && n ≤ 0x200A) || n == 0x202F || n == 0x205F || n == 0x3000

/-- Characters an identifier may begin with: the letters but for one that is shaped like a
sign, and a few more. -/
def isNameStart (c : Char) : Bool :=
  let n := c.toNat
  if n < 0x80 then c.isAlpha || c == '_' || c == '$'
  else (inRanges letterRanges n && n != 0x2E2F) || n == 0x2118 || n == 0x212E || n == 0x309B || n == 0x309C ||
    n == 0x1885 || n == 0x1886

def enclosingMarks : List (Nat × Nat) :=
  [(0x488, 0x489), (0x1ABE, 0x1ABE), (0x20DD, 0x20E0), (0x20E2, 0x20E4), (0xA670, 0xA672)]

/-- Connecting punctuation and joiners, which make words and names alike. -/
def connectors : List (Nat × Nat) :=
  [(0x200C, 0x200D), (0x203F, 0x2040), (0x2054, 0x2054), (0xFE33, 0xFE34), (0xFE4D, 0xFE4F),
    (0xFF3F, 0xFF3F)]

/-- Dots and digits that may stand in a name. -/
def nameDots : List (Nat × Nat) :=
  [(0xB7, 0xB7), (0x387, 0x387), (0x1369, 0x1371), (0x19DA, 0x19DA), (0x30FB, 0x30FB), (0xFF65, 0xFF65)]

/-- Letters in circles and squares, which make words but no names. -/
def framedLetters : List (Nat × Nat) :=
  [(0x24B6, 0x24E9), (0x1F130, 0x1F149), (0x1F150, 0x1F169), (0x1F170, 0x1F189)]

def isNamePart (c : Char) : Bool :=
  let n := c.toNat
  if n < 0x80 then c.isAlphanum || c == '_' || c == '$'
  else isNameStart c || (inRanges markRanges n && !inRanges enclosingMarks n) ||
    inRanges connectors n || inRanges nameDots n

/-- Characters of a word: letters, marks, digits, connecting punctuation and joiners, but
neither `$` nor `-`. -/
def isWord (c : Char) : Bool :=
  let n := c.toNat
  if n < 0x80 then c.isAlphanum || c == '_'
  else inRanges letterRanges n || inRanges markRanges n || inRanges connectors n ||
    inRanges framedLetters n

def isDigit (c : Char) : Bool := '0' ≤ c && c ≤ '9'

def isHexDigit (c : Char) : Bool := isDigit c || ('a' ≤ c && c ≤ 'f') || ('A' ≤ c && c ≤ 'F')

def hexValue (c : Char) : Nat :=
  if isDigit c then c.toNat - '0'.toNat
  else if 'a' ≤ c && c ≤ 'f' then c.toNat - 'a'.toNat + 10
  else c.toNat - 'A'.toNat + 10

def hexNumber (cs : List Char) : Nat := cs.foldl (fun n c => n * 16 + hexValue c) 0

def charOf? (n : Nat) : Option Char :=
  if h : n.isValidChar then some (Char.ofNatAux n h) else none

def trim (cs : List Char) : List Char :=
  ((cs.dropWhile isBlank).reverse.dropWhile isBlank).reverse

def trimEnd (cs : List Char) : List Char := (cs.reverse.dropWhile isBlank).reverse

end FormCodemod.Text
