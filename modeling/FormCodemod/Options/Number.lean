import FormCodemod.Options.Scanner

/-!
# Numbers in options

No option is a number, but a message shows one that stands where it should not, and the
numbers of unknown fields are stepped over. A number that is too long for a word is a
double; its digits are gathered in a word as long as they fit and scaled in one step.
-/

namespace FormCodemod.Scanner

def wordLimit : Nat := 0xffffffffffffffff

def digit (c : Char) : Nat := c.toNat - '0'.toNat

def powerOfTen (n : Nat) : Float := Float.ofScientific 1 false n

/-- `x * 10 ^ e`, or nothing if it is too large; steps of `10 ^ 308` at most, `n` of them. -/
def scale : Nat → Float → Int → Option Float
  | 0, x, _ => some x
  | n + 1, x, e =>
      if 0 ≤ e then
        if e ≤ 308 then
          let y := x * powerOfTen e.toNat
          if y.isInf then none else some y
        else if x == 0.0 then some x
        else none
      else if -308 ≤ e then some (x / powerOfTen (-e).toNat)
      else if x == 0.0 then some x
      else scale n (x / powerOfTen 308) (e + 308)

/-- The double with these digits and this exponent. -/
def floatOf (positive : Bool) (digits : Nat) (e : Int) : Scanner FoundValue := do
  match scale 8 digits.toUInt64.toFloat e with
  | some x => return .float (if positive then x else -x).toBits
  | none => fail .numberTooLarge

/-- The digits of an exponent behind its first, at most `n` of them. Nothing is returned for
one that is too large. -/
def exponentWithin : Nat → Nat → Scanner (Option Nat)
  | 0, e => return some e
  | n + 1, e => do
      match ← peek with
      | some c =>
          if Text.isDigit c then
            eat
            let e' := e * 10 + digit c
            if 0x7fffffff < e' then return none else exponentWithin n e'
          else return some e
      | none => return some e

def exponentPart (positive : Bool) (digits : Nat) (start : Int) : Scanner FoundValue := do
  eat
  let sign ← peek
  if sign == some '+' || sign == some '-' then eat
  match ← next with
  | none => fail .endInValue
  | some c =>
      if !Text.isDigit c then fail .badNumber
      else
        match ← exponentWithin (← remaining) (digit c) with
        | some e => floatOf positive digits (if sign == some '-' then start - e else start + e)
        | none =>
            if digits != 0 && sign != some '-' then fail .numberTooLarge
            else
              let _ ← takeWhile Text.isDigit
              return .float (if positive then (0.0 : Float) else -0.0).toBits

/-- A number behind its digits: an exponent, or the end. -/
def afterDigits (positive : Bool) (digits : Nat) (e : Int) : Scanner FoundValue := do
  match ← peek with
  | some 'e' | some 'E' => exponentPart positive digits e
  | _ => floatOf positive digits e

/-- The digits behind the point, at most `n` of them, as long as they fit in a word: the
digits, the exponent, and whether there was room for all of them. -/
def fractionWithin : Nat → Nat → Int → Scanner (Nat × Int × Bool)
  | 0, m, e => return (m, e, true)
  | n + 1, m, e => do
      match ← peek with
      | some c =>
          if Text.isDigit c then
            if wordLimit < m * 10 + digit c then return (m, e, false)
            else eat; fractionWithin n (m * 10 + digit c) (e - 1)
          else return (m, e, true)
      | none => return (m, e, true)

def fractionPart (positive : Bool) (digits : Nat) (start : Int) : Scanner FoundValue := do
  eat
  let (m, e, fits) ← fractionWithin (← remaining) digits start
  if !fits then
    let _ ← takeWhile Text.isDigit
    afterDigits positive m e
  else if e == start then
    match ← peek with
    | some _ => failPeek .badNumber
    | none => fail .endInValue
  else afterDigits positive m e

/-- A whole number, or the rest of one that goes on. -/
def afterWhole (positive : Bool) (digits : Nat) : Scanner FoundValue := do
  match ← peek with
  | some '.' => fractionPart positive digits 0
  | some 'e' | some 'E' => exponentPart positive digits 0
  | _ =>
      if positive then return .integer digits
      else if digits == 0 || 0x8000000000000000 < digits then return .float (-digits.toUInt64.toFloat).toBits
      else return .integer (-(digits : Int))

/-- A number whose digits do not fit in a word, from the first that does not. -/
def longWhole (positive : Bool) (digits : Nat) : Scanner FoundValue := do
  let more ← takeWhile Text.isDigit
  match ← peek with
  | some '.' => fractionPart positive digits more.length
  | _ => afterDigits positive digits more.length

/-- The digits of a whole number, at most `n` of them, as long as they fit in a word. -/
def wholeWithin (positive : Bool) : Nat → Nat → Scanner FoundValue
  | 0, m => afterWhole positive m
  | n + 1, m => do
      match ← peek with
      | some c =>
          if Text.isDigit c then
            if wordLimit < m * 10 + digit c then longWhole positive m
            else eat; wholeWithin positive n (m * 10 + digit c)
          else afterWhole positive m
      | none => afterWhole positive m

def number (positive : Bool) : Scanner FoundValue := do
  match ← next with
  | none => fail .endInValue
  | some '0' =>
      if (← peek).any Text.isDigit then failPeek .badNumber else afterWhole positive 0
  | some c => if Text.isDigit c then wholeWithin positive (← remaining) (digit c) else fail .badNumber

/-! ### Stepping over numbers -/

def skipExponent : Scanner Unit := do
  eat
  let sign ← peek
  if sign == some '+' || sign == some '-' then eat
  match ← next with
  | some c => if Text.isDigit c then let _ ← takeWhile Text.isDigit else fail .badNumber
  | none => fail .badNumber

def skipMaybeExponent : Scanner Unit := do
  match ← peek with
  | some 'e' | some 'E' => skipExponent
  | _ => return ()

def skipNumber : Scanner Unit := do
  match ← next with
  | some '0' => if (← peek).any Text.isDigit then failPeek .badNumber
  | some c => if Text.isDigit c then let _ ← takeWhile Text.isDigit else fail .badNumber
  | none => fail .badNumber
  if (← peek) == some '.' then
    eat
    let ds ← takeWhile Text.isDigit
    if ds.isEmpty then failPeek .badNumber
  skipMaybeExponent

end FormCodemod.Scanner
