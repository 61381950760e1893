import FormCodemod.Text.Chars

/-!
# Quoted strings

How a string made by a conversion is written. Strings read from a file keep their own text
and do not come here.
-/

namespace FormCodemod.Text

def hexDigit (n : Nat) : Char := if n < 10 then Char.ofNat (48 + n) else Char.ofNat (87 + n)

/-- How one character stands between quotes, where `quote` is the quote in use and `next`
the character behind it. -/
def escapeChar (quote : Char) (next : Option Char) (c : Char) : List Char :=
  if c == quote || c == '\\' then ['\\', c]
  else if c == '\n' then ['\\', 'n']
  else if c == '\r' then ['\\', 'r']
  else if c == '\x0b' then ['\\', 'v']
  else if c == '\x08' then ['\\', 'b']
  else if c == '\x0c' then ['\\', 'f']
  else if c == '\x00' then
    if next.any isDigit then "\\x00".toList else ['\\', '0']
  else if c.toNat == 0x2028 then "\\u2028".toList
  else if c.toNat == 0x2029 then "\\u2029".toList
  else if c.toNat == 0xFEFF then "\\uFEFF".toList
  else if c.toNat < 0x20 && c != '\t' then
    ['\\', 'x', hexDigit (c.toNat / 16), hexDigit (c.toNat % 16)]
  else [c]

/-- Four hexadecimal digits in front of a text that stand for half of a surrogate pair. -/
def startsSurrogate (cs : List Char) : Bool :=
  let ds := cs.take 4
  ds.length == 4 && ds.all isHexDigit && 0xD800 ≤ hexNumber ds && hexNumber ds ≤ 0xDFFF

/-- Whether the text behind a backslash makes it the escape of half of a surrogate pair,
which no other text can stand for. -/
def escapesSurrogate : List Char → Bool
  | 'u' :: '\x7b' :: cs => startsSurrogate cs
  | 'u' :: cs => startsSurrogate cs
  | _ => false

/-- The characters of a string as they stand between quotes. -/
def escape (quote : Char) : List Char → List Char
  | [] => []
  | c :: cs =>
      if c == '\\' && escapesSurrogate cs then c :: escape quote cs
      else escapeChar quote cs.head? c ++ escape quote cs

/-- Double quotes, unless the text holds more double than single quotes. -/
def quoteFor (cs : List Char) : Char :=
  if cs.count '\x27' < cs.count '\x22' then '\x27' else '\x22'

def quoted (s : String) : String :=
  let q := quoteFor s.toList
  String.ofList (q :: escape q s.toList ++ [q])

end FormCodemod.Text
