import FormCodemod.Grammar.Cursor

/-!
# Productions

The grammar is recursive: an expression holds statements and types, and those hold
expressions. `Productions` is the record of the places where it recurs. Every function
of the grammar takes the productions of what it may hold and calls them one level
deeper; `Grammar.Source` ties the knot, with a depth that the length of the input bounds.
So no function of the grammar is recursive by itself, and each can be read alone.
-/

namespace FormCodemod.Grammar

open Grammar.Parser

/-- The productions the grammar recurs through. -/
structure Productions where
  /-- An expression without a comma at its top. -/
  assignment : Context → Parser Tree
  /-- An operand with its operators in front. -/
  unary : Context → Parser Tree
  /-- A left side and the binary operators behind it that bind tighter than the given
  precedence. -/
  operators : Context → Nat → Tree → Parser Tree
  /-- An operand with the members and calls behind it. -/
  leftSide : Context → Parser Tree
  /-- `new`, with what is constructed and the arguments. -/
  construction : Context → Parser Tree
  /-- What a declaration or a parameter binds, without type and default. -/
  pattern : Context → Parser Tree
  type : Context → Parser Tree
  /-- An element or fragment. It ends on its last bracket and not behind it, because what
  follows depends on where the element stands. -/
  element : Context → Parser Tree
  /-- A statement; `declares` tells whether it may be any declaration. -/
  statement : Context → (declares : Bool) → Parser Tree
  /-- A statement, import or export. -/
  moduleItem : Context → Parser Tree

variable (g : Productions) (ctx : Context)

/-- An optional child: there if `here` says so. -/
def maybe (here : Parser Bool) (p : Parser Tree) : Parser Tree := do
  if ← here then p else return .absent

def expression : Parser Tree := do
  let lo ← lo
  let first ← g.assignment ctx
  if ← isPunct "," then
    let rest ← repeatFrom [first] fun acc => do
      if ← eat "," then return some ((← g.assignment ctx) :: acc)
      return none
    return .expr (← since lo) .seq rest.reverse
  else return first

def stringLiteral : Parser Tree := do
  match ← token with
  | .str value raw =>
      let o ← here
      bump
      return .expr o (.str value (some raw)) []
  | _ => fail

/-- An identifier that names a thing without being an expression. -/
def nameOf (p : Parser String) : Parser Tree := do
  let o ← here
  return .part o (.name (← p)) []

/-- The pieces of a template, each substitution read by `hole`: the substitutions and the
texts around them. The cursor stands on the opening backquote and ends behind the closing
one. -/
def templateParts (checked : Bool) (hole : Parser Tree) : Parser (List Tree × List Tree) := do
  ensure (← isPunct "`")
  let out ← repeatFrom (([] : List Tree), ([] : List Tree), false) fun (holes, quasis, done) => do
    if done then return none
    let c ← get
    match readQuasi [] c.rest with
    | none => fail
    | some (text, rest) =>
        ensure (!checked || escapesOk text.length text)
        let lo := c.hi
        let hi := c.hi + text.length
        let quasi := Tree.part (.source lo hi) (.quasi (String.ofList text)) []
        let closing := rest.head? == some '\x60'
        let width := if closing then 1 else 2
        set { c with
          token := .punct (if closing then "`" else "$\x7b")
          lo := hi
          hi := hi + width
          prevHi := hi
          here := rest
          rest := rest.drop width }
        bump
        if closing then return some (holes, quasi :: quasis, true)
        let e ← hole
        ensure (← isPunct "\x7d")
        return some (e :: holes, quasi :: quasis, false)
  return (out.1.reverse, out.2.1.reverse)

/-- Stands for an expression that is missing where the cursor is. -/
def missing : Parser Tree := return .expr (← here) .invalid []

/-- The key of a property: a name, a string, a number, or expressions in brackets. -/
def propertyKey : Parser Tree := do
  let o ← here
  match ← token with
  | .word s => bump; return .part o (.key s) []
  | .str value raw => bump; return .expr o (.str value (some raw)) []
  | .num raw => bump; return .expr o (.num raw) []
  | .bigint raw => bump; return .expr o (.bigint raw) []
  | .punct "[" =>
      let lo ← lo
      bump
      let e ← expression g ctx.withIn
      expect "]"
      return .part (← since lo) .computed [e]
  | .bad => bump; fail
  | _ => fail

def privateKey : Parser Tree := do
  let lo ← lo
  expect "#"
  ensure ((← prevHi) == (← Parser.lo))
  let s ← anyWord
  return .part (← since lo) (.privateKey s) []

def memberKey : Parser Tree := do
  if ← isPunct "#" then privateKey else propertyKey g ctx

/-! ### Modifiers -/

/-- Whether a token may begin what a modifier stands in front of. -/
def followsModifier : Token → Bool
  | .word _ | .str _ _ | .num _ | .bigint _ => true
  | .punct s => ["[", "\x7b", "*", "...", "#"].contains s
  | _ => false

/-- Steps over one of these words if it is a modifier of what follows it on its line. -/
def eatModifier (words : List String) : Parser (Option String) := do
  match ← token with
  | .word s =>
      let c ← peekCursor
      if words.contains s && followsModifier c.token && !c.newline then
        bump
        return some s
      else return none
  | _ => return none

/-- Steps over a word that would make a constructor's parameter a field, where it says
nothing. -/
def eatAccess : Parser Unit := do
  let follows : Bool :=
    match ← peek with
    | .word _ => true
    | .punct s => s == "\x7b" || s == "["
    | _ => false
  if follows then
    let _ ← eatModifier ["public", "protected", "private", "readonly"]

end FormCodemod.Grammar
