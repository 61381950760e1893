import FormCodemod.Options.Error

/-!
# Scanning options

The text of the options is scanned byte by byte, because places in messages count bytes. A
problem is reported either where the scanner stands (`Scanner.fail`) or at the byte it is
looking at (`Scanner.failPeek`).
-/

namespace FormCodemod

/-- A place in the text of the options. -/
structure OptionsInput where
  rest : List UInt8
  line : Nat := 1
  column : Nat := 0
  deriving Repr, Inhabited

def OptionsInput.advance (i : OptionsInput) (b : UInt8) (rest : List UInt8) : OptionsInput :=
  if b == 10 then { rest, line := i.line + 1, column := 0 }
  else { rest, line := i.line, column := i.column + 1 }

/-- The character with the code of a byte. -/
def byteChar (b : UInt8) : Char := Char.ofNat b.toNat

abbrev Scanner := StateT OptionsInput (Except OptionsError)

namespace Scanner

variable {α : Type}

def fail (p : OptionsProblem) : Scanner α := do
  let i ← get
  throw ⟨p, i.line, i.column⟩

def peek : Scanner (Option Char) := return (← get).rest.head?.map byteChar

def next : Scanner (Option Char) := do
  let i ← get
  match i.rest with
  | [] => return none
  | b :: rest =>
      set (i.advance b rest)
      return some (byteChar b)

def eat : Scanner Unit := do
  let _ ← next

def failPeek (p : OptionsProblem) : Scanner α := do
  eat
  fail p

def remaining : Scanner Nat := return (← get).rest.length

/-! ### Runs of bytes -/

/-- Steps over bytes while `p` holds, at most `n` of them, and returns them in order. -/
def takeWithin (p : Char → Bool) : Nat → Scanner (List Char)
  | 0 => return []
  | n + 1 => do
      match ← peek with
      | some c => if p c then eat; return c :: (← takeWithin p n) else return []
      | none => return []

/-- Steps over bytes while `p` holds. -/
def takeWhile (p : Char → Bool) : Scanner (List Char) := do takeWithin p (← remaining)

def isBlank (c : Char) : Bool := c == ' ' || c == '\n' || c == '\t' || c == '\r'

/-- Steps over white space and looks at the next byte. -/
def peekToken : Scanner (Option Char) := do
  let _ ← takeWhile isBlank
  peek

def word : List Char → Scanner Unit
  | [] => return ()
  | w :: ws => do
      match ← next with
      | none => fail .endInValue
      | some c => if c == w then word ws else fail .noIdent

/-! ### Strings -/

def hexEscape : Scanner Nat := do
  let ds := [← next, ← next, ← next, ← next]
  if ds.any Option.isNone then fail .endInString
  else
    let cs := ds.filterMap id
    if cs.all Text.isHexDigit then return Text.hexNumber cs else fail .badEscape

/-- The byte behind the first half of a surrogate pair has to be this one. -/
def pairByte (c : Char) : Scanner Unit := do
  match ← peek with
  | none => fail .endInString
  | some d => if c == d then eat else failPeek .endOfEscape

def unicodeEscape : Scanner Char := do
  let n ← hexEscape
  if 0xDC00 ≤ n && n ≤ 0xDFFF then fail .loneSurrogate
  else if 0xD800 ≤ n && n ≤ 0xDBFF then
    pairByte '\\'
    pairByte 'u'
    let k ← hexEscape
    if 0xDC00 ≤ k && k ≤ 0xDFFF then return Char.ofNat (0x10000 + (n - 0xD800) * 0x400 + (k - 0xDC00))
    else fail .loneSurrogate
  else return Char.ofNat n

/-- The character that an escape of one letter stands for. -/
def letterEscape? (c : Char) : Option Char :=
  match c with
  | 'b' => some '\x08'
  | 'f' => some '\x0c'
  | 'n' => some '\n'
  | 'r' => some '\r'
  | 't' => some '\t'
  | '\\' => some '\\'
  | '/' => some '/'
  | c => if c == '\x22' then some c else none

def escape : Scanner Char := do
  match ← next with
  | none => fail .endInString
  | some 'u' => unicodeEscape
  | some c =>
      match letterEscape? c with
      | some d => return d
      | none => fail .badEscape

/-- The bytes of a string behind its opening quote, at most `n` of its parts. -/
def stringWithin : Nat → Scanner (List UInt8)
  | 0 => return []
  | n + 1 => do
      match ← next with
      | none => fail .endInString
      | some c =>
          if c == '\x22' then return []
          else if c == '\\' then
            let d ← escape
            return d.toString.toUTF8.toList ++ (← stringWithin n)
          else if c.toNat < 0x20 then fail .controlCharacter
          else return c.toNat.toUInt8 :: (← stringWithin n)

def string : Scanner String := do
  let bytes ← stringWithin ((← remaining) + 1)
  return (String.fromUTF8? ⟨bytes.toArray⟩).getD ""

def skipEscape : Scanner Unit := do
  match ← next with
  | none => fail .endInString
  | some 'u' => let _ ← hexEscape
  | some c => if (letterEscape? c).isSome then return () else fail .badEscape

/-- Steps over a string behind its opening quote, at most `n` of its parts. -/
def skipStringWithin : Nat → Scanner Unit
  | 0 => return ()
  | n + 1 => do
      match ← peek with
      | none => fail .endInString
      | some c =>
          if c == '\x22' then eat
          else if c == '\\' then eat; skipEscape; skipStringWithin n
          else if c.toNat < 0x20 then fail .controlCharacter
          else eat; skipStringWithin n

def skipString : Scanner Unit := do skipStringWithin ((← remaining) + 1)

end Scanner

end FormCodemod
