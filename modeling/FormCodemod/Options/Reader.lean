import FormCodemod.Options.Basic
import FormCodemod.Options.Number

/-!
# Reading options

The options are an object with the fields by name, or a list with the fields in order. A
field that is missing keeps its default, a field of an unknown name is stepped over, and a
field may not be given twice.
-/

namespace FormCodemod

namespace Scanner

variable {α : Type}

/-- Another kind of value is due than the one in front. -/
def failType (c : Char) (expected : String) : Scanner α := do
  match c with
  | 'n' => eat; word "ull".toList; fail (.wrongType .null expected)
  | 't' => eat; word "rue".toList; fail (.wrongType (.bool true) expected)
  | 'f' => eat; word "alse".toList; fail (.wrongType (.bool false) expected)
  | '-' => eat; fail (.wrongType (← number false) expected)
  | '[' => fail (.wrongType .list expected)
  | '\x7b' => fail (.wrongType .object expected)
  | c =>
      if Text.isDigit c then fail (.wrongType (← number true) expected)
      else if c == '\x22' then eat; fail (.wrongType (.string (← string)) expected)
      else failPeek .noValue

/-! ### Values -/

def stringValue : Scanner String := do
  match ← peekToken with
  | none => fail .endInValue
  | some c => if c == '\x22' then eat; string else failType c "a string"

/-- The value of a field that is a truth value, or nothing. -/
def boolValue? : Scanner (Option Bool) := do
  match ← peekToken with
  | none => fail .endInValue
  | some 'n' => eat; word "ull".toList; return none
  | some 't' => eat; word "rue".toList; return some true
  | some 'f' => eat; word "alse".toList; return some false
  | some c => failType c "a boolean"

/-! ### Values of unknown fields -/

/-- What an opened value is. -/
inductive Frame
  | list
  | object
  deriving DecidableEq, Repr, Inhabited

/-- Steps over a value without parts, or into a list or object. -/
def skipStart : Scanner (Option Frame) := do
  match ← peekToken with
  | none => fail .endInValue
  | some 'n' => eat; word "ull".toList; return none
  | some 't' => eat; word "rue".toList; return none
  | some 'f' => eat; word "alse".toList; return none
  | some '-' => eat; skipNumber; return none
  | some '[' => eat; return some .list
  | some '\x7b' => eat; return some .object
  | some c =>
      if Text.isDigit c then skipNumber; return none
      else if c == '\x22' then eat; skipString; return none
      else failPeek .noValue

def skipKey : Scanner Unit := do
  match ← peekToken with
  | none => fail .endInObject
  | some c => if c == '\x22' then eat; skipString else failPeek .keyNotString
  match ← peekToken with
  | none => fail .endInObject
  | some ':' => eat
  | some _ => failPeek .noColon

def Frame.closedBy : Frame → Char → Bool
  | .list, c => c == ']'
  | .object, c => c == '\x7d'

/-- Closes frames up to one that goes on with another value, with a bound on their number;
`comma` tells whether a comma may follow. -/
def skipEnds : Nat → Bool → List Frame → Scanner (List Frame)
  | 0, _, fs => return fs
  | _, _, [] => return []
  | n + 1, comma, f :: fs => do
      match ← peekToken with
      | none => fail (match f with | .list => .endInList | .object => .endInObject)
      | some c =>
          if comma && c == ',' then eat; return f :: fs
          else if f.closedBy c then eat; skipEnds n true fs
          else if comma then failPeek (match f with | .list => .noListEnd | .object => .noObjectEnd)
          else return f :: fs

/-- Steps over the values that the open frames still ask for, with a bound on their number. -/
def skipWithin : Nat → List Frame → Scanner Unit
  | 0, _ => return ()
  | n + 1, fs => do
      let opened ← skipStart
      let fs' ← match opened with
        | some f => skipEnds ((← remaining) + 1) false (f :: fs)
        | none => skipEnds ((← remaining) + 1) true fs
      match fs' with
      | [] => return ()
      | .list :: _ => skipWithin n fs'
      | .object :: _ => skipKey; skipWithin n fs'

def skipValue : Scanner Unit := do skipWithin ((← remaining) + 1) []

/-! ### Fields -/

/-- The fields as far as they have been read. -/
structure Fields where
  sourceModule : Option String := none
  targetModule : Option String := none
  yupModule : Option String := none
  typescript : Option (Option Bool) := none

/-- The options, with defaults for the fields that were not read. -/
def Fields.toOptions (f : Fields) : Options :=
  let d : Options := {}
  { sourceModule := f.sourceModule.getD d.sourceModule
    targetModule := f.targetModule.getD d.targetModule
    yupModule := f.yupModule.getD d.yupModule
    typescript := f.typescript.getD d.typescript }

/-- A field is given twice. The place is behind the name, and behind the object if it ends
there. -/
def failDuplicate (x : String) : Scanner α := do
  if (← peekToken) == some '\x7d' then eat
  fail (.duplicate x)

def colon : Scanner Unit := do
  match ← peekToken with
  | none => fail .endInObject
  | some ':' => eat
  | some _ => failPeek .noColon

/-- The value of a field that was not read before. -/
def once {β : Type} (x : String) (old : Option β) (value : Scanner β) : Scanner (Option β) := do
  if old.isSome then failDuplicate x
  else
    colon
    return some (← value)

/-- Reads the value of the field called `x`. -/
def fieldNamed (f : Fields) (x : String) : Scanner Fields := do
  match x with
  | "sourceModule" => return { f with sourceModule := ← once x f.sourceModule stringValue }
  | "targetModule" => return { f with targetModule := ← once x f.targetModule stringValue }
  | "yupModule" => return { f with yupModule := ← once x f.yupModule stringValue }
  | "typescript" => return { f with typescript := ← once x f.typescript boolValue? }
  | _ =>
      colon
      skipValue
      return f

/-- Whether another field follows; steps over the comma in front of it. -/
def hasField (first : Bool) : Scanner Bool := do
  match ← peekToken with
  | none => fail .endInObject
  | some '\x7d' => return false
  | some c =>
      if first then
        if c == '\x22' then return true else failPeek .keyNotString
      else if c == ',' then
        eat
        match ← peekToken with
        | none => fail .endInValue
        | some '\x7d' => failPeek .trailingComma
        | some d => if d == '\x22' then return true else failPeek .keyNotString
      else failPeek .noObjectEnd

/-- The fields of an object, at most `n` of them. -/
def fieldsWithin : Nat → Bool → Fields → Scanner Fields
  | 0, _, f => return f
  | n + 1, first, f => do
      if ← hasField first then
        eat
        let x ← string
        fieldsWithin n false (← fieldNamed f x)
      else return f

/-- The end of an object or list: its bracket has been seen or other things follow. -/
def closeObject : Scanner Unit := do
  match ← peekToken with
  | none => fail .endInObject
  | some '\x7d' => eat
  | some ',' => failPeek .trailingComma
  | some _ => failPeek .trailingCharacters

/-- Whether another element follows; steps over the comma in front of it. -/
def hasElement (first : Bool) : Scanner Bool := do
  match ← peekToken with
  | none => fail .endInList
  | some ']' => return false
  | some c =>
      if first then return true
      else if c == ',' then
        eat
        match ← peekToken with
        | none => fail .endInValue
        | some ']' => failPeek .trailingComma
        | some _ => return true
      else failPeek .noListEnd

def element {β : Type} (first : Bool) (value : Scanner β) : Scanner (Option β) := do
  if ← hasElement first then return some (← value) else return none

def elements : Scanner Fields := do
  let sourceModule ← element true stringValue
  let targetModule ← element sourceModule.isNone stringValue
  let yupModule ← element sourceModule.isNone stringValue
  let typescript ← element sourceModule.isNone boolValue?
  return { sourceModule, targetModule, yupModule, typescript }

def closeList : Scanner Unit := do
  match ← peekToken with
  | none => fail .endInList
  | some ']' => eat
  | some ',' =>
      eat
      if (← peekToken) == some ']' then failPeek .trailingComma else failPeek .trailingCharacters
  | some _ => failPeek .trailingCharacters

def options : Scanner Options := do
  let fields ← match ← peekToken with
    | none => fail .endInValue
    | some '[' => do
        eat
        let fs ← elements
        closeList
        pure fs
    | some '\x7b' => do
        eat
        let fs ← fieldsWithin ((← remaining) + 1) true {}
        closeObject
        pure fs
    | some c => failType c "struct ConvertOptions"
  match ← peekToken with
  | none => return fields.toOptions
  | some _ => failPeek .trailingCharacters

end Scanner

namespace Options

def read (text : String) : Except OptionsError Options :=
  (Scanner.options.run { rest := text.toUTF8.toList }).map (·.1)

end Options

end FormCodemod
