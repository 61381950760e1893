import FormCodemod.Grammar.Token
import FormCodemod.Tree.Comments
import FormCodemod.Tree.Basic

/-!
# The cursor

A cursor stands on one token of the source. Moving it forward skips white space and
comments and hangs the comments off the tokens around them:

* a comment on a line of its own leads the token behind it;
* a comment on the line of the token before it trails that token, if the token is of a
  kind that keeps comments; otherwise it leads the token behind it;
* a block comment in front of a semicolon always trails;
* what is left at the end of the file trails the last token;
* a block comment that is not closed runs to the end of the file and is lost.

The marks `<!--`, and `-->` at the start of a line, open line comments, too.

`Parser` is the type of the grammar's functions: they move a cursor and return what they
read, or fail. One that fails leaves the cursor where it could not go on, because the
grammar takes up some faulty texts from there.
-/

namespace FormCodemod.Grammar

open FormCodemod.Text

/-- A place in the source, on a token. -/
structure Cursor where
  token : Token
  /-- The offset the token starts at. -/
  lo : Nat
  /-- The offset behind the token. -/
  hi : Nat
  /-- Whether a line ends between the token before and this one. -/
  newline : Bool
  /-- The offset behind the token before. -/
  prevHi : Nat
  /-- The input from the token on. -/
  here : List Char
  /-- The input behind the token. -/
  rest : List Char
  comments : Comments
  deriving Repr, Inhabited

/-! ### White space and comments -/

structure Gap where
  /-- The offset of the token behind the gap. -/
  pos : Nat
  /-- The input behind the gap. -/
  input : List Char
  newline : Bool
  /-- Comments of the token before, latest first. -/
  trailing : List Comment := []
  /-- Comments of the token behind, latest first. -/
  leading : List Comment := []

/-- Splits a block comment off behind its opening mark: the text and the rest. -/
def blockText : List Char → List Char → Option (List Char × List Char)
  | _, [] => none
  | acc, '*' :: '/' :: cs => some (acc.reverse, cs)
  | acc, c :: cs => blockText (c :: acc) cs

/-- The text behind the mark that opens a line comment, and the mark's length. -/
def lineComment? (newline : Bool) : List Char → Option (Nat × List Char)
  | '/' :: '/' :: cs => some (2, cs)
  | '<' :: '!' :: '-' :: '-' :: cs => some (4, cs)
  | '-' :: '-' :: '>' :: cs => if newline then some (3, cs) else none
  | _ => none

/-- Steps over a line comment, given what follows its mark and the mark's length. -/
def skipLineComment (prev : Token) (g : Gap) (mark : Nat) (cs : List Char) : Gap :=
  let text := cs.takeWhile fun c => !isNewline c
  let comment : Comment := ⟨false, String.ofList text⟩
  let g' := { g with pos := g.pos + mark + text.length, input := cs.drop text.length }
  if g.newline || !prev.keepsLineComment then { g' with leading := comment :: g.leading }
  else { g' with trailing := comment :: g.trailing }

/-- Steps over white space and comments, with a bound on the number of steps. `prev` is the
token before the gap. -/
def skipWithin (prev : Token) : Nat → Gap → Gap
  | 0, g => g
  | n + 1, g =>
    match lineComment? g.newline g.input with
    | some (mark, cs) => skipWithin prev n (skipLineComment prev g mark cs)
    | none =>
      match g.input with
      | '/' :: '*' :: cs =>
          match blockText [] cs with
          | none => { g with pos := g.pos + 2 + cs.length, input := [] }
          | some (text, rest) =>
              let comment : Comment := ⟨true, String.ofList text⟩
              let blanks := rest.takeWhile fun c => isSpace c || isNewline c
              let after := rest.drop blanks.length
              let g' := { g with
                pos := g.pos + 4 + text.length + blanks.length
                input := after
                newline := g.newline || text.any isNewline || blanks.any isNewline }
              if (g.newline || !prev.keepsBlockComment) && after.head? != some ';' then
                skipWithin prev n { g' with leading := comment :: g.leading }
              else skipWithin prev n { g' with trailing := comment :: g.trailing }
      | c :: cs =>
          if isNewline c then skipWithin prev n { g with pos := g.pos + 1, input := cs, newline := true }
          else if isSpace c then skipWithin prev n { g with pos := g.pos + 1, input := cs }
          else g
      | [] => g

def gapAt (prev : Token) (pos : Nat) (input : List Char) (newline : Bool) : Gap :=
  skipWithin prev (input.length + 1) { pos, input, newline }

namespace Cursor

def after (prev : Token) (pos : Nat) (input : List Char) (newline : Bool) (comments : Comments) : Cursor :=
  let g := gapAt prev pos input newline
  let (token, rest) := readToken g.input
  let comments := comments.addTrailing pos g.trailing.reverse
  let comments :=
    match token with
    | .eof =>
        if pos == 0 then comments.addLeading 0 g.leading.reverse
        else comments.addTrailing pos g.leading.reverse
    | _ => comments.addLeading g.pos g.leading.reverse
  { token, rest, comments
    lo := g.pos
    hi := g.pos + (g.input.length - rest.length)
    newline := g.newline
    prevHi := pos
    here := g.input }

/-- The cursor on the first token of a source, whose text begins at offset `pos`. -/
def start (pos : Nat) (input : List Char) : Cursor := after .eof pos input true {}

def next (c : Cursor) : Cursor := after c.token c.hi c.rest false c.comments

def reread (c : Cursor) (read : List Char → Token × List Char) : Cursor :=
  let (token, rest) := read c.here
  { c with token, rest, hi := c.lo + (c.here.length - rest.length) }

end Cursor

/-! ### Parsers -/

/-- A function of the grammar: moves the cursor and returns what it read, or fails. -/
def Parser (α : Type) : Type := Cursor → Option α × Cursor

namespace Parser

variable {α : Type}

instance : Monad Parser where
  pure a := fun c => (some a, c)
  bind p f := fun c =>
    match p c with
    | (some a, c') => f a c'
    | (none, c') => (none, c')

instance : MonadStateOf Cursor Parser where
  get := fun c => (some c, c)
  set c := fun _ => (some (), c)
  modifyGet f := fun c => ((some (f c).1), (f c).2)

instance : Inhabited (Parser α) := ⟨fun c => (none, c)⟩

def fail : Parser α := fun c => (none, c)

/-- Runs `p`; if it fails, the cursor goes back to where it was. -/
def attempt (p : Parser α) : Parser (Option α) := fun c =>
  match p c with
  | (some a, c') => (some (some a), c')
  | (none, _) => (some none, c)

/-- Runs `p`; if it fails, the cursor stays where `p` could not go on. -/
def recover (p : Parser α) : Parser (Option α) := fun c =>
  match p c with
  | (some a, c') => (some (some a), c')
  | (none, c') => (some none, c')

/-- Runs `p`, or `q` from the same place if `p` fails. If both do, it is `p` that tells
where. -/
def orElse (p q : Parser α) : Parser α := fun c =>
  match p c with
  | (some a, c') => (some a, c')
  | (none, c') =>
      match q c with
      | (some a, c'') => (some a, c'')
      | (none, _) => (none, c')

/-- Whether `p` would succeed with the answer yes. The cursor stays. -/
def looking (p : Parser Bool) : Parser Bool := fun c => (some ((p c).1.getD false), c)

/-- `step` from `a` on until it has no more to say, at most `n` times. -/
def iterate (step : α → Parser (Option α)) : Nat → α → Parser α
  | 0, _ => fail
  | n + 1, a => do
      match ← step a with
      | some a => iterate step n a
      | none => return a

/-- `step` from `a` on until it has no more to say. Every step that goes on reads a token,
so the length of the input bounds their number. -/
def repeatFrom (a : α) (step : α → Parser (Option α)) : Parser α := fun c =>
  iterate step (c.here.length + 2) a c

/-! ### The current token -/

def token : Parser Token := return (← get).token

def peek : Parser Token := return (← get).next.token

def peekCursor : Parser Cursor := return (← get).next

def bump : Parser Unit := modify Cursor.next

def lo : Parser Nat := return (← get).lo

def prevHi : Parser Nat := return (← get).prevHi

def newline : Parser Bool := return (← get).newline

def atEnd : Parser Bool := return (← token) == .eof

/-- The origin of a node that began at `lo` and has just been read. -/
def since (lo : Nat) : Parser Origin := return .source lo (← prevHi)

def here : Parser Origin := return .source (← get).lo (← get).hi

def ensure (b : Bool) : Parser Unit := if b then pure () else fail

/-- Goes on behind a fault: text that is no token is skipped. -/
def skipBad : Parser Unit := do
  if (← token) == .bad then bump

/-! ### Punctuation and words -/

def isPunct (s : String) : Parser Bool := return (← token) == .punct s

def isOneOf (ss : List String) : Parser Bool := do
  match ← token with
  | .punct s => return ss.contains s
  | _ => return false

def isWord (s : String) : Parser Bool := return (← token) == .word s

def eat (s : String) : Parser Bool := do
  if ← isPunct s then bump; return true
  else return false

def eatWord (s : String) : Parser Bool := do
  if ← isWord s then bump; return true
  else return false

def expect (s : String) : Parser Unit := do ensure (← eat s)

def expectWord (s : String) : Parser Unit := do ensure (← eatWord s)

def anyWord : Parser String := do
  match ← token with
  | .word s => bump; return s
  | _ => fail

/-- Whether a statement may end here, with a semicolon or without. -/
def atStatementEnd : Parser Bool := do
  match ← token with
  | .punct s => return s == ";" || s == "\x7d" || (← newline)
  | .eof => return true
  | _ => newline

def eatSemicolon : Parser Bool := do
  if ← eat ";" then return true else atStatementEnd

def semicolon : Parser Unit := do ensure (← eatSemicolon)

/-- One `>`, even where the token goes on. -/
def closeAngle : Parser Unit := do
  match ← token with
  | .punct s =>
      ensure (s.toList.head? == some '>')
      modify fun c => (c.reread fun cs => (.punct ">", cs.drop 1)).next
  | _ => fail

/-- Whether the current token begins with `>`. -/
def isCloseAngle : Parser Bool := do
  match ← token with
  | .punct s => return s.toList.head? == some '>'
  | _ => return false

/-- One `<`, even where the token goes on. -/
def openAngle : Parser Unit := do
  match ← token with
  | .punct s =>
      ensure (s == "<" || s == "<<")
      modify fun c => (c.reread fun cs => (.punct "<", cs.drop 1)).next
  | _ => fail

/-- Whether type arguments may begin here. -/
def isOpenAngle : Parser Bool := isOneOf ["<", "<<"]

/-! ### Lists -/

/-- `item`s separated by commas up to, and not over, the token `stop`; a comma may stand
at the end. -/
def commaList (stop : Parser Bool) (item : Parser α) : Parser (List α) := do
  let out ← repeatFrom (([] : List α), false) fun (acc, done) => do
    if done || (← stop) then return none
    let a ← item
    if ← eat "," then return some (a :: acc, false)
    else return some (a :: acc, true)
  return out.1.reverse

/-- `item`s up to, and not over, the token `stop`. -/
def listUntil (stop : Parser Bool) (item : Parser α) : Parser (List α) := do
  let out ← repeatFrom ([] : List α) fun acc => do
    if ← stop then return none
    return some ((← item) :: acc)
  return out.reverse

/-- `item`s up to the closing brace or the end of the input, and over the brace. -/
def listInBraces (item : Parser α) : Parser (List α) := do
  expect "\x7b"
  let out ← listUntil (return (← isPunct "\x7d") || (← atEnd)) item
  let _ ← eat "\x7d"
  return out

end Parser

/-! ### Context -/

/-- What the grammar is in the middle of. -/
structure Context where
  /-- The word `in` is an operator here. -/
  includeIn : Bool := false
  /-- The word `yield` begins an expression. -/
  inGenerator : Bool := false
  /-- The word `await` is no identifier. -/
  inAsync : Bool := false
  /-- A conditional expression is being read. -/
  inConditional : Bool := false
  /-- A colon behind a parenthesis belongs to a conditional expression. -/
  awaitsColon : Bool := false
  /-- A type may not be conditional here. -/
  noConditional : Bool := false
  /-- What is declared lives elsewhere. -/
  inDeclare : Bool := false
  /-- The parameters of a function are being read. -/
  inParams : Bool := false
  /-- The head of a loop is being read. -/
  inLoopHead : Bool := false
  /-- The place where an arrow function may begin. -/
  arrowAt : Option Nat := none
  deriving Repr, Inhabited

namespace Context

/-- The same, where the word `in` is an operator. -/
def withIn (ctx : Context) : Context := { ctx with includeIn := true }

/-- Inside brackets no conditional expression waits for its colon. -/
def inBrackets (ctx : Context) : Context := { ctx with includeIn := true, awaitsColon := false }

def inFunction (ctx : Context) (isAsync isGenerator : Bool) : Context :=
  { ctx with inAsync := isAsync, inGenerator := isGenerator, awaitsColon := false, inParams := false }

end Context

namespace Parser

/-! ### Identifiers -/

def isName : Token → Bool
  | .word s => !isKeyword s
  | _ => false

def isReference (ctx : Context) : Token → Bool
  | .word s => (!isKeyword s && !setAside.contains s) || (s == "await" && !ctx.inAsync)
  | _ => false

/-- A name that is bound: an identifier, or one of the keywords that may also be bound. -/
def boundName : Parser String := do
  match ← token with
  | .word s =>
      ensure (!isKeyword s || ["let", "yield", "await", "this"].contains s)
      bump
      return s
  | _ => fail

end Parser

end FormCodemod.Grammar
