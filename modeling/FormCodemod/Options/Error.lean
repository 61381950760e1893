import FormCodemod.Decimal.Shortest
import FormCodemod.Text.Shown

/-!
# Errors in options

What can be wrong with the text of the options, and where it shows.
-/

namespace FormCodemod

/-- A value that stands where another kind of value is due. -/
inductive FoundValue
  | null
  | bool (b : Bool)
  | integer (n : Int)
  /-- A double, by its bits. -/
  | float (bits : UInt64)
  | string (s : String)
  | list
  | object
  deriving DecidableEq, Repr, Inhabited

/-- What is wrong with the text of the options. -/
inductive OptionsProblem
  | endInValue
  | endInObject
  | endInList
  | endInString
  | noValue
  | noIdent
  | noColon
  | noObjectEnd
  | noListEnd
  | keyNotString
  | trailingComma
  | trailingCharacters
  | badNumber
  | numberTooLarge
  | badEscape
  | endOfEscape
  | loneSurrogate
  | controlCharacter
  /-- A value of another kind than the expected one. -/
  | wrongType (found : FoundValue) (expected : String)
  /-- A field is given twice. -/
  | duplicate (field : String)
  deriving DecidableEq, Repr, Inhabited

/-- A problem and its place: lines count from one, columns count bytes. -/
structure OptionsError where
  problem : OptionsProblem
  line : Nat
  column : Nat
  deriving DecidableEq, Repr, Inhabited

def FoundValue.message : FoundValue → String
  | null => "null"
  | bool b => "boolean `" ++ (if b then "true" else "false") ++ "`"
  | integer n => "integer `" ++ toString n ++ "`"
  | float bits => "floating point `" ++ Decimal.text bits ++ "`"
  | string s => "string " ++ Text.shown s
  | list => "sequence"
  | object => "map"

def OptionsProblem.message : OptionsProblem → String
  | endInValue => "EOF while parsing a value"
  | endInObject => "EOF while parsing an object"
  | endInList => "EOF while parsing a list"
  | endInString => "EOF while parsing a string"
  | noValue => "expected value"
  | noIdent => "expected ident"
  | noColon => "expected `:`"
  | noObjectEnd => "expected `,` or `\x7d`"
  | noListEnd => "expected `,` or `]`"
  | keyNotString => "key must be a string"
  | trailingComma => "trailing comma"
  | trailingCharacters => "trailing characters"
  | badNumber => "invalid number"
  | numberTooLarge => "number out of range"
  | badEscape => "invalid escape"
  | endOfEscape => "unexpected end of hex escape"
  | loneSurrogate => "lone leading surrogate in hex escape"
  | controlCharacter => "control character (\\u0000-\\u001F) found while parsing a string"
  | wrongType found expected => "invalid type: " ++ found.message ++ ", expected " ++ expected
  | duplicate field => "duplicate field `" ++ field ++ "`"

def OptionsError.message (e : OptionsError) : String :=
  "invalid options: " ++ e.problem.message ++ " at line " ++ toString e.line ++ " column " ++ toString e.column

end FormCodemod
