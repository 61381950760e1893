import FormCodemod.Text.Chars

/-!
# Tokens

The tokens of a source file and the functions that read one off the front of the input.
Every reader returns the token with what follows it. Which token stands at a place may
depend on the grammar: a slash may divide or open a regular expression, text between
tags is one token, a template is read piece by piece. The grammar asks for the reader it
needs.
-/

namespace FormCodemod.Grammar

open FormCodemod.Text

inductive Token
  /-- An identifier or a keyword. -/
  | word (text : String)
  | num (raw : String)
  | bigint (raw : String)
  | str (value raw : String)
  | punct (text : String)
  | regex (raw : String)
  /-- A name inside a tag, which may hold hyphens. -/
  | tagName (text : String)
  /-- The bracket that ends a tag. -/
  | tagEnd
  /-- Text between tags. -/
  | text
  /-- A piece of a template. -/
  | quasi
  | eof
  /-- Text that is no token. -/
  | bad
  deriving DecidableEq, Repr, Inhabited

/-! ### Names -/

def nameText (cs : List Char) : List Char := cs.takeWhile isNamePart

/-- A name inside a tag goes on over hyphens. -/
def tagNameText (cs : List Char) : List Char := cs.takeWhile fun c => isNamePart c || c == '-'

/-- Words with a meaning of their own wherever they stand, three of which the grammar also
takes for identifiers: `let`, `yield` and `await`. -/
def keywords : List String :=
  ["break", "case", "catch", "class", "const", "continue", "debugger", "default", "delete", "do", "else",
    "export", "extends", "false", "finally", "for", "function", "if", "import", "in", "instanceof", "let",
    "new", "null", "return", "super", "switch", "this", "throw", "true", "try", "typeof", "var", "void",
    "while", "with", "yield", "await"]

def isKeyword (s : String) : Bool := keywords.contains s

/-- Words that are identifiers, but do not name what is declared. -/
def setAside : List String :=
  ["enum", "implements", "interface", "package", "private", "protected", "public"]

/-! ### Numbers -/

/-- Splits off a run of digits and separators. -/
def digitRun (p : Char → Bool) (cs : List Char) : List Char := cs.takeWhile fun c => p c || c == '_'

/-- An exponent in front of the input, or nothing. Its digits may be missing, which
`exponentOk` finds out. -/
def exponentText (cs : List Char) : List Char :=
  match cs with
  | e :: s :: rest =>
      if e == 'e' || e == 'E' then
        if s == '+' || s == '-' then e :: s :: digitRun isDigit rest
        else e :: digitRun isDigit (s :: rest)
      else []
  | [e] => if e == 'e' || e == 'E' then [e] else []
  | [] => []

def exponentOk (cs : List Char) : Bool := cs.isEmpty || cs.any isDigit

def fractionText (cs : List Char) : List Char :=
  match cs with
  | '.' :: rest => '.' :: digitRun isDigit rest
  | _ => []

def numberToken (make : String → Token) (text rest : List Char) : Token × List Char :=
  match rest with
  | c :: _ =>
      if isNameStart c then (.bad, rest) else (make (String.ofList text), rest)
  | [] => (make (String.ofList text), rest)

def radixToken (p : Char → Bool) (mark : List Char) (cs : List Char) : Token × List Char :=
  let ds := digitRun p cs
  let rest := cs.drop ds.length
  if !ds.any p then (.bad, rest)
  else
    match rest with
    | 'n' :: rest => numberToken .bigint (mark ++ ds ++ ['n']) rest
    | _ => numberToken .num (mark ++ ds) rest

/-- Digits that a zero leads and that stand for a number in base eight. -/
def isOctal (ds : List Char) : Bool :=
  ds.head? == some '0' && ds.length > 1 && ds.all fun c => c != '8' && c != '9'

/-- A number in base ten, or one in base eight that has no mark. The latter ends with its
digits. -/
def decimalToken (cs : List Char) : Token × List Char :=
  let whole := digitRun isDigit cs
  let rest := cs.drop whole.length
  match rest with
  | 'n' :: rest => numberToken .bigint (whole ++ ['n']) rest
  | _ =>
      if isOctal whole then numberToken .num whole rest
      else
        let frac := fractionText rest
        let rest := rest.drop frac.length
        let expo := exponentText rest
        let rest := rest.drop expo.length
        if exponentOk expo then numberToken .num (whole ++ frac ++ expo) rest else (.bad, rest)

def readNumber (cs : List Char) : Token × List Char :=
  match cs with
  | '0' :: 'x' :: rest => radixToken isHexDigit ['0', 'x'] rest
  | '0' :: 'X' :: rest => radixToken isHexDigit ['0', 'X'] rest
  | '0' :: 'b' :: rest => radixToken (fun c => c == '0' || c == '1') ['0', 'b'] rest
  | '0' :: 'B' :: rest => radixToken (fun c => c == '0' || c == '1') ['0', 'B'] rest
  | '0' :: 'o' :: rest => radixToken (fun c => '0' ≤ c && c ≤ '7') ['0', 'o'] rest
  | '0' :: 'O' :: rest => radixToken (fun c => '0' ≤ c && c ≤ '7') ['0', 'O'] rest
  | _ => decimalToken cs

/-! ### Strings -/

/-- Reads at most `n` hexadecimal digits and skips the separators among them: the digits and
what follows. -/
def hexDigits : Nat → List Char → List Char × List Char
  | 0, cs => ([], cs)
  | n + 1, c :: cs =>
      if c == '_' then hexDigits (n + 1) cs
      else if isHexDigit c then
        let (ds, rest) := hexDigits n cs
        (c :: ds, rest)
      else ([], c :: cs)
  | _, [] => ([], [])

/-- The characters of an escape with a number. Half of a surrogate pair is no character: the
escape then stands for its own text, `raw`, and `rest` is what follows that. -/
def escapedChars (ds : List Char) (after raw rest : List Char) : Option (List Char × List Char) :=
  let n := hexNumber ds
  if ds.isEmpty || n > 0x10FFFF then none
  else
    match charOf? n with
    | some c => some ([c], after)
    | none => some (raw, rest)

/-- Reads what follows the backslash and the `u` of an escape: the characters it stands for
and the rest of the input. -/
def readUnicodeEscape (cs : List Char) : Option (List Char × List Char) :=
  match cs with
  | '\x7b' :: r =>
      let (ds, after) := hexDigits r.length r
      let text := (r.take 6).takeWhile (· != '\x7d')
      match escapedChars ds after ("\\u\x7b".toList ++ text ++ ['\x7d']) (r.drop text.length) with
      | some (es, '\x7d' :: rest) => some (es, rest)
      | _ => none
  | r =>
      let (ds, after) := hexDigits 4 r
      if ds.length != 4 then none
      else escapedChars ds after ("\\u".toList ++ r.take 4) (r.drop 4)

/-- Reads what follows the backslash of an escape: the characters it stands for and the
rest of the input. -/
def readEscape (cs : List Char) : Option (List Char × List Char) :=
  match cs with
  | [] => none
  | 'n' :: r => some (['\n'], r)
  | 'r' :: r => some (['\r'], r)
  | 't' :: r => some (['\t'], r)
  | 'b' :: r => some (['\x08'], r)
  | 'v' :: r => some (['\x0b'], r)
  | 'f' :: r => some (['\x0c'], r)
  | '\r' :: '\n' :: r => some ([], r)
  | 'x' :: r =>
      let (ds, rest) := hexDigits 2 r
      if ds.length == 2 then (charOf? (hexNumber ds)).map fun c => ([c], rest) else none
  | 'u' :: r => readUnicodeEscape r
  | c :: r =>
      if isNewline c then some ([], r)
      else if '0' ≤ c && c ≤ '7' then
        let most := if c ≤ '3' then 3 else 2
        let ds := ((c :: r).take most).takeWhile fun d => '0' ≤ d && d ≤ '7'
        (charOf? (ds.foldl (fun n d => n * 8 + (d.toNat - '0'.toNat)) 0)).map fun e =>
          ([e], (c :: r).drop ds.length)
      else some ([c], r)

/-- Reads a string up to its closing quote, with a bound on the number of steps: the
value, in reverse, and what follows. A string that is not closed ends with its line. -/
def readStringWithin (quote : Char) : Nat → List Char → List Char → Option (List Char × List Char)
  | 0, _, _ => none
  | _, acc, [] => some (acc, [])
  | n + 1, acc, c :: cs =>
      if c == quote then some (acc, cs)
      else if c == '\\' then
        match readEscape cs with
        | some (es, rest) => readStringWithin quote n (es.reverse ++ acc) rest
        | none => none
      else if c == '\n' || c == '\r' then some (acc, c :: cs)
      else readStringWithin quote n (c :: acc) cs

def readString (cs : List Char) : Token × List Char :=
  match cs with
  | q :: body =>
      match readStringWithin q (body.length + 1) [] body with
      | some (value, rest) =>
          (.str (String.ofList value.reverse) (String.ofList (cs.take (cs.length - rest.length))), rest)
      | none => (.bad, body)
  | [] => (.bad, cs)

/-! ### Regular expressions -/

/-- Reads a regular expression behind its opening slash: its text in reverse, the closing
slash included. -/
def readRegexBody : Bool → List Char → List Char → Option (List Char × List Char)
  | _, _, [] => none
  | inClass, acc, c :: cs =>
      if isNewline c then none
      else if c == '\\' then
        match cs with
        | d :: rest => if isNewline d then none else readRegexBody inClass (d :: c :: acc) rest
        | [] => none
      else if c == '[' then readRegexBody true (c :: acc) cs
      else if c == ']' then readRegexBody false (c :: acc) cs
      else if c == '/' && !inClass then some (c :: acc, cs)
      else readRegexBody inClass (c :: acc) cs

def readRegex (cs : List Char) : Token × List Char :=
  match cs with
  | '/' :: body =>
      match readRegexBody false ['/'] body with
      | some (acc, rest) =>
          let flags := if rest.head?.any isNameStart then nameText rest else []
          (.regex (String.ofList (acc.reverse ++ flags)), rest.drop flags.length)
      | none => (.bad, cs)
  | _ => (.bad, cs)

/-! ### Templates -/

/-- Reads a piece of a template: its text and what follows, which begins with the closing
backquote or with the mark of a substitution. -/
def readQuasi : List Char → List Char → Option (List Char × List Char)
  | _, [] => none
  | acc, '\\' :: c :: cs => readQuasi (c :: '\\' :: acc) cs
  | acc, '$' :: '\x7b' :: cs => some (acc.reverse, '$' :: '\x7b' :: cs)
  | acc, c :: cs => if c == '\x60' then some (acc.reverse, c :: cs) else readQuasi (c :: acc) cs

/-- A backslash and digits that stand for a character in base eight, which templates do not
know; zero alone is none. -/
def startsOctalEscape : List Char → Bool
  | '0' :: d :: _ => '0' ≤ d && d ≤ '7'
  | c :: _ => '1' ≤ c && c ≤ '7'
  | [] => false

/-- Whether every escape of a template's piece is one that a template may hold. -/
def escapesOk : Nat → List Char → Bool
  | 0, _ => true
  | _, [] => true
  | n + 1, '\\' :: cs =>
      match readEscape cs with
      | some (_, rest) => !startsOctalEscape cs && escapesOk n rest
      | none => false
  | n + 1, _ :: cs => escapesOk n cs

/-! ### Punctuation -/

def punctuators : List (List Char) :=
  [">>>=", "...", "===", "!==", "**=", "<<=", ">>=", ">>>", "&&=", "||=", "??=", "=>", "==", "!=", "<=",
    ">=", "&&", "||", "??", "?.", "++", "--", "+=", "-=", "*=", "/=", "%=", "&=", "|=", "^=", "<<", ">>",
    "**", "\x7b", "\x7d", "(", ")", "[", "]", ";", ",", "<", ">", "+", "-", "*", "/", "%", "&", "|", "^",
    "!", "~", "?", ":", "=", ".", "@", "`", "#"].map String.toList

/-- The punctuator in front of the input. A question mark and a point are two tokens when a
digit follows. -/
def readPunctuator (cs : List Char) : Token × List Char :=
  let fits (p : List Char) : Bool :=
    p.isPrefixOf cs && !(p == ['?', '.'] && ((cs.drop 2).head?).any isDigit)
  match punctuators.find? fits with
  | some p => (.punct (String.ofList p), cs.drop p.length)
  | none => (.bad, cs.drop 1)

/-! ### Names with escapes -/

/-- Reads a name in which escapes stand for the characters they mean, with a bound on the
number of characters: its text, in reverse, and what follows. -/
def readWordWithin : Nat → List Char → List Char → Option (List Char × List Char)
  | 0, acc, cs => some (acc, cs)
  | _, acc, [] => some (acc, [])
  | n + 1, acc, '\\' :: cs =>
      match cs with
      | 'u' :: r =>
          match readUnicodeEscape r with
          | some (es, rest) => readWordWithin n (es.reverse ++ acc) rest
          | none => none
      | _ => none
  | n + 1, acc, c :: cs => if isNamePart c then readWordWithin n (c :: acc) cs else some (acc, c :: cs)

def readWord (cs : List Char) : Token × List Char :=
  let w := nameText cs
  let rest := cs.drop w.length
  if rest.head? == some '\\' then
    match readWordWithin cs.length [] cs with
    | some (acc, rest) =>
        let s := String.ofList acc.reverse
        (if isKeyword s then .bad else .word s, rest)
    | none => (.bad, rest.drop 1)
  else (.word (String.ofList w), rest)

/-! ### One token -/

def readToken (cs : List Char) : Token × List Char :=
  match cs with
  | [] => (.eof, [])
  | c :: rest =>
      if isNameStart c || c == '\\' then readWord cs
      else if isDigit c then readNumber cs
      else if c == '\x22' || c == '\x27' then readString cs
      else if c == '.' && rest.head?.any isDigit then decimalToken cs
      else readPunctuator cs

/-! ### What may follow -/

/-- Binary operators: a line comment behind one belongs to what follows. -/
def binaryPuncts : List String :=
  ["==", "!=", "===", "!==", "<", "<=", ">", ">=", "<<", ">>", ">>>", "+", "-", "*", "/", "%", "|", "^",
    "&", "||", "&&", "**", "??"]

/-- Whether a line comment on the same line belongs to this token. -/
def Token.keepsLineComment : Token → Bool
  | .punct s => !binaryPuncts.contains s
  | _ => true

/-- Whether a block comment on the same line belongs to this token. -/
def Token.keepsBlockComment : Token → Bool
  | .word s => !isKeyword s
  | .punct s => s == ";" || s == "\x7b" || s == "\x7d" || s == "$\x7b"
  | .num _ | .bigint _ | .str _ _ | .regex _ | .text => true
  | _ => false

end FormCodemod.Grammar
