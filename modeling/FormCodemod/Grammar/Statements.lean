import FormCodemod.Grammar.Expressions

/-!
# Statements and declarations

Some faulty statements are read in spite of their fault: what stands between the end of a
variable declaration and the next end of a statement is skipped, a condition without its
closing parenthesis governs an invalid expression, a handler without a `try` is one itself.
-/

namespace FormCodemod.Grammar

open Grammar.Parser

variable (g : Productions) (ctx : Context)

/-! ### Variables -/

/-- Whether the cursor stands on the word between a loop's variables and its collection. -/
def atLoopWord : Parser Bool := return (← isWord "of") || (← isWord "in")

/-- One declared pattern with what it is set to. A pattern that takes something apart has to
say what, unless it is constant, lives elsewhere or belongs to a loop over a collection. -/
def declarator (kw : String) (inLoop : Bool) : Parser Tree := do
  let lo ← lo
  ensure (kw == "var" || !(← isWord "let"))
  let p ← g.pattern ctx
  let definite ← if isBinding p then eat "!" else pure false
  let p := withType false (← typeAnn? g ctx) p
  let e ←
    if inLoop && (← atLoopWord) then pure .absent
    else if ← eat "=" then g.assignment ctx
    else do
      ensure (ctx.inDeclare || (kw == "const" && !inLoop) || isBinding p)
      pure .absent
  return .part (← since lo) (.declarator definite) [p, e]

/-- The declarators behind a keyword. A semicolon may stand where one is missing. -/
def declarators (kw : String) (inLoop : Bool) : Parser (List Tree) := do
  let out ← repeatFrom (([] : List Tree), false) fun (acc, done) => do
    if done || (← isPunct ";") || (← atEnd) then return none
    let d ← declarator g ctx kw inLoop
    return some (d :: acc, !(← eat ","))
  return out.1.reverse

/-- The end of a statement. What stands in front of it is skipped. -/
def skipToSemicolon : Parser Unit := do
  unless ← eatSemicolon do
    skipBad
    let _ ← recover (expression g ctx)
    let _ ← repeatFrom false fun done => do
      if done then return none
      if ← eatSemicolon then return none
      bump
      return some ((← token) == .bad)

def varWords : List String := ["var", "let", "const"]

def varStatement (lo : Nat) (declare : Bool) : Parser Tree := do
  let kw ← anyWord
  ensure (varWords.contains kw)
  let ds ← declarators g ctx.withIn kw false
  skipToSemicolon g ctx
  return .stmt (← since lo) (.vars kw declare) ds

/-- Whether `let` declares variables: it is followed by what they may begin with. -/
def letDeclares : Parser Bool := do
  match ← peek with
  | .word s => return !isKeyword s || ["let", "yield", "await"].contains s
  | .punct s => return s == "\x7b" || s == "["
  | _ => return false

/-- Variables that are disposed of at the end of their block, if a name follows on the line.
`lo` is where the whole began. -/
def usingStatement? (lo : Nat) (isAwait : Bool) : Parser (Option Tree) := do
  let next ← peekCursor
  if next.newline || !isReference ctx next.token then return none
  else
    bump
    let ds ← declarators g ctx "var" false
    semicolon
    return some (.stmt (← since lo) (.using isAwait) ds)

/-! ### Functions and classes -/

def functionDecl (lo : Nat) (declare : Bool) : Parser Tree := do
  let isAsync ← eatWord "async"
  expectWord "function"
  let isGenerator ← eat "*"
  let name ← nameOf boundName
  let f ← functionFrom g ctx lo isAsync isGenerator
  return .stmt (← since lo) (.func declare) [name, f]

def classDecl (lo : Nat) (declare isAbstract : Bool) : Parser Tree := do
  expectWord "class"
  let name ← className
  let c ← classFrom g ctx lo isAbstract
  return .stmt (← since lo) (.clazz declare) [name, c]

/-! ### Declarations of types -/

/-- An interface behind its keyword; `lo` is where the whole began. What is extended a second
time is skipped. -/
def interfaceFrom (lo : Nat) (declare : Bool) : Parser Tree := do
  let name ← nameOf anyWord
  let tps ← typeParams? g ctx
  let hs ← if ← eatWord "extends" then heritages g ctx else pure []
  if ← isWord "extends" then
    repeatFrom () fun _ => do
      if (← isPunct "\x7b") || (← atEnd) then return none
      bump
      return some ()
  let mlo ← Parser.lo
  let ms ← typeMembers g ctx
  let body := Tree.type (← since mlo) .literal ms
  return .stmt (← since lo) (.interface declare) [name, tps, .list hs, body]

def typeAliasFrom (lo : Nat) (declare : Bool) : Parser Tree := do
  let name ← nameOf anyWord
  let tps ← typeParams? g ctx
  expect "="
  let t ← typeOf g ctx
  semicolon
  return .stmt (← since lo) (.typeAlias declare) [name, tps, t]

/-- The name of a member of an enumeration. A number is taken for a string, an expression in
brackets for nothing. -/
def enumMemberName : Parser Tree := do
  let lo ← lo
  let o ← here
  match ← token with
  | .str _ _ => stringLiteral
  | .num raw =>
      bump
      return .expr o (.str raw (some ("\"" ++ raw ++ "\""))) []
  | .punct "[" =>
      bump
      let _ ← expression g ctx
      expect "]"
      return .part (← since lo) (.name "") []
  | _ => nameOf anyWord

/-- A member of an enumeration and the comma behind it, which may be missing; any other token
may stand in its place behind a name. -/
def enumMember : Parser Tree := do
  let lo ← lo
  let name ← enumMemberName g ctx
  if ← eat "=" then
    let e ← g.assignment ctx
    let m := Tree.part (← since lo) .enumMember [name, e]
    unless ← eat "," do skipBad
    return m
  else if ← isOneOf [",", "\x7d"] then
    let m := Tree.part (← since lo) .enumMember [name, .absent]
    let _ ← eat ","
    return m
  else
    ensure (!(← atEnd))
    bump
    return .part (← since lo) .enumMember [name, .absent]

def enumFrom (lo : Nat) (declare isConst : Bool) : Parser Tree := do
  let name ← nameOf anyWord
  expect "\x7b"
  let ms ← listUntil (isPunct "\x7d") (enumMember g ctx)
  expect "\x7d"
  return .stmt (← since lo) (.enum declare isConst) [name, .list ms]

def namespaceBody : Parser Tree := do
  let lo ← lo
  let is ← listInBraces (g.moduleItem ctx)
  return .part (← since lo) .items is

/-- A namespace with a dotted name, behind its keyword; `lo` is where the whole began. -/
def namespaceFrom (lo : Nat) (declare : Bool) : Parser Tree := do
  let first ← nameOf anyWord
  let names ← repeatFrom [first] fun acc => do
    if ← eat "." then return some ((← nameOf anyWord) :: acc)
    return none
  let body ← namespaceBody g ctx
  return .stmt (← since lo) (.space declare "namespace") [.list names.reverse, body]

/-- The body of a module that is declared by a string, or of what is declared globally. It
may be missing. -/
def ambientBody (lo : Nat) (declare : Bool) (kw : String) (name : Tree) : Parser Tree := do
  let body ← do
    if ← isPunct "\x7b" then namespaceBody g ctx
    else
      semicolon
      pure .absent
  return .stmt (← since lo) (.space declare kw) [.list [name], body]

/-- A declaration that the word `s` opens, if it is one. The word was just read; `marked`
tells that `declare` or `export` came before, so that it is one in any case. `lo` is where
the whole began. -/
def declarationFrom? (lo : Nat) (declare marked : Bool) (s : String) (sameLine : Bool) :
    Parser (Option Tree) := do
  let named := isReference ctx (← token)
  let follows := !(← newline)
  match s with
  | "abstract" =>
      if marked || ((← isWord "class") && follows) then return some (← classDecl g ctx lo declare true)
      else return none
  | "enum" => if marked || named then return some (← enumFrom g ctx lo declare false) else return none
  | "interface" => if marked || named then return some (← interfaceFrom g ctx lo declare) else return none
  | "module" =>
      if !(if marked then sameLine else follows) then return none
      else
        match ← token with
        | .str _ _ => return some (← ambientBody g ctx lo declare "module" (← stringLiteral))
        | _ => if marked || named then return some (← namespaceFrom g ctx lo declare) else return none
  | "namespace" => if marked || named then return some (← namespaceFrom g ctx lo declare) else return none
  | "type" => if marked || (follows && named) then return some (← typeAliasFrom g ctx lo declare) else return none
  | _ => return none

/-- A declaration with the word at the cursor, behind `declare` or `export`. The cursor stays
if there is none. -/
def markedDeclaration? (lo : Nat) (declare : Bool) : Parser (Option Tree) := do
  match ← token with
  | .word s =>
      if ["abstract", "enum", "interface", "module", "namespace", "type"].contains s then
        let sameLine := !(← newline)
        let c ← get
        bump
        match ← declarationFrom? g ctx lo declare true s sameLine with
        | some d => return some d
        | none =>
            set c
            return none
      else return none
  | _ => return none

/-- What is declared behind the word `declare`, if anything is; `lo` is where the whole
began. -/
def declared? (lo : Nat) : Parser (Option Tree) := do
  let ctx := { ctx with inDeclare := true }
  match ← token with
  | .word "function" => return some (← functionDecl g ctx lo true)
  | .word "class" => return some (← classDecl g ctx lo true false)
  | .word "const" =>
      if (← peek) == .word "enum" then
        bump
        bump
        return some (← enumFrom g ctx lo true true)
      else return some (← varStatement g ctx lo true)
  | .word "var" | .word "let" => return some (← varStatement g ctx lo true)
  | .word "global" => return some (← ambientBody g ctx lo true "" (← nameOf anyWord))
  | _ => markedDeclaration? g ctx lo true

/-! ### Loops and branches -/

def heldStatement : Parser Tree := g.statement ctx false

def condition : Parser Tree := do
  expect "("
  let e ← expression g ctx.withIn
  expect ")"
  return e

def ifStatement : Parser Tree := do
  let lo ← lo
  expectWord "if"
  expect "("
  let test ← expression g ctx.withIn
  if ← eat ")" then
    let yes ← heldStatement g ctx
    let no ← maybe (eatWord "else") (heldStatement g ctx)
    return .stmt (← since lo) .ifElse [test, yes, no]
  else
    skipBad
    let o ← since lo
    return .stmt o .ifElse [test, .stmt o .expr [.expr o .invalid []], .absent]

/-- Whether the variables of a loop over a collection are missing. -/
def lacksVariables : Parser Bool := looking do
  ensure (← atLoopWord)
  bump
  let _ ← g.assignment ctx
  isPunct ")"

def loopVars : Parser Tree := do
  let lo ← lo
  let kw ← anyWord
  let ds ←
    if ← lacksVariables g ctx then pure []
    else declarators g (if kw == "var" then ctx else ctx.withIn) kw true
  return .stmt (← since lo) (.vars kw false) ds

/-- What a loop over a collection disposes of, behind `using`, which was read as `init`; `lo`
is where that began. -/
def loopUsing? (lo : Nat) (init : Tree) : Parser (Option Tree) := do
  let kind :=
    match init with
    | .expr _ (.ident "using") _ => some false
    | .expr _ .await [.expr _ (.ident "using") _] => some true
    | _ => none
  let next ← peek
  match kind with
  | some isAwait =>
      if !(← isWord "of") && (next == .word "of" || next == .word "in") then
        let x ← bindingName
        let o ← since lo
        return some (.stmt o (.using isAwait) [.part o (.declarator false) [x, .absent]])
      else return none
  | none => return none

/-- The first part of a loop's head, and whether it can be what a collection is taken apart
into. -/
def loopStart : Parser Tree := do
  let lo ← lo
  if (← isWord "const") || (← isWord "var") || ((← isWord "let") && (← letDeclares)) then loopVars g ctx
  else if ← isPunct ";" then return .absent
  else
    let init ← expression g { ctx with includeIn := false }
    match ← loopUsing? lo init with
    | some d => return d
    | none =>
        if ← atLoopWord then
          match toLoopTarget? init with
          | some t => return t
          | none => fail
        else return init

def forStatement : Parser Tree := do
  let lo ← lo
  expectWord "for"
  let isAwait ← eatWord "await"
  expect "("
  let head := { ctx with inLoopHead := true }
  let init ← loopStart g head
  if !init.isAbsent && (← atLoopWord) then
    let isOf ← isWord "of"
    bump
    let right ← if isOf then g.assignment head.withIn else expression g head.withIn
    expect ")"
    let body ← heldStatement g ctx
    ensure (isOf || !isAwait)
    return .stmt (← since lo) (if isOf then .forOf isAwait else .forIn) [init, right, body]
  else
    expect ";"
    let test ← maybe (return !(← isPunct ";")) (expression g head.withIn)
    expect ";"
    let update ← maybe (return !(← isPunct ")")) (expression g head.withIn)
    expect ")"
    let body ← heldStatement g ctx
    ensure (!isAwait)
    return .stmt (← since lo) .forLoop [init, test, update, body]

def switchCase : Parser Tree := do
  let lo ← lo
  let test ← do
    if ← eatWord "default" then pure .absent
    else
      expectWord "case"
      expression g ctx.withIn
  expect ":"
  let ends : Parser Bool :=
    return (← isPunct "\x7d") || (← isWord "case") || (← isWord "default") || (← atEnd)
  let body ← listUntil ends (g.statement ctx true)
  return .part (← since lo) .switchCase [test, .list body]

def isDefaultCase : Tree → Bool
  | .part _ .switchCase [test, _] => test.isAbsent
  | _ => false

def switchStatement : Parser Tree := do
  let lo ← lo
  expectWord "switch"
  let subject ← condition g ctx
  expect "\x7b"
  let cases ← listUntil (isPunct "\x7d") (switchCase g ctx)
  expect "\x7d"
  ensure ((cases.filter isDefaultCase).length ≤ 1)
  return .stmt (← since lo) .switch [subject, .list cases]

/-- `catch (e) { }`, if it is there. -/
def handler? : Parser Tree := do
  let lo ← lo
  if ← eatWord "catch" then
    let param ← do
      if ← eat "(" then
        let p ← g.pattern ctx
        let p := withType false (← typeAnn? g ctx) p
        expect ")"
        pure p
      else pure .absent
    let b ← block g ctx
    return .part (← since lo) .catchClause [param, b]
  else return .absent

/-- `finally { }`, if it is there. -/
def finalizer? : Parser Tree := maybe (eatWord "finally") (block g ctx)

def tryStatement : Parser Tree := do
  let lo ← lo
  expectWord "try"
  let body ← block g ctx
  let handler ← handler? g ctx
  let finalizer ← finalizer? g ctx
  return .stmt (← since lo) .tryCatch [body, handler, finalizer]

/-- A handler or finalizer without a `try`, which stands for an invalid expression. -/
def strayHandler : Parser Tree := do
  let o ← here
  let _ ← recover (handler? g ctx)
  let _ ← recover (finalizer? g ctx)
  return .stmt o .expr [.expr o .invalid []]

def jump (k : StmtKind) : Parser Tree := do
  let lo ← lo
  bump
  if ← eatSemicolon then return .stmt (← since lo) k [.absent]
  else
    let label ← nameOf boundName
    semicolon
    return .stmt (← since lo) k [label]

/-! ### Expressions as statements -/

/-- Names that make a declaration of what is behind them. -/
def opensInterface : String → Bool := ["public", "static", "abstract"].contains

/-- A declaration that the name `x`, read as an expression, opens; `lo` is where it began. -/
def namedDeclaration? (lo : Nat) (o : Origin) (x : String) : Parser (Option Tree) := do
  match x with
  | "declare" => declared? g ctx lo
  | "global" =>
      if ← isPunct "\x7b" then
        let body ← namespaceBody g ctx
        return some (.stmt (← since lo) (.space false "") [.list [.part o (.name x) []], body])
      else return none
  | _ => declarationFrom? g ctx lo false false x true

/-- The end of an expression statement. An operator that could not follow the expression may
stand there, and goes on with it. -/
def endedExpression (lo : Nat) (e : Tree) : Parser Tree := do
  if ← eatSemicolon then return .stmt (← since lo) .expr [e]
  else
    ensure (← isOneOf binaryPuncts)
    let e ← g.operators ctx 0 e
    return .stmt (← since lo) .expr [e]

/-- An expression, a label and the statement behind it, or a declaration that a name opens. -/
def expressionStatement : Parser Tree := do
  let lo ← lo
  let e ← expression g ctx.withIn
  match e with
  | .expr o (.ident x) _ =>
      if ← eat ":" then
        let s ← heldStatement g ctx
        return .stmt (← since lo) .labeled [.part o (.name x) [], s]
      else if x == "interface" && (← newline) then
        let _ ← eatSemicolon
        return .stmt (← since lo) .expr [e]
      else
        match ← namedDeclaration? g ctx lo o x with
        | some d => return d
        | none =>
            if opensInterface x && (← isWord "interface") then
              bump
              interfaceFrom g ctx lo false
            else endedExpression g ctx lo e
  | _ => endedExpression g ctx lo e

def importStatement : Parser Tree := do
  let lo ← lo
  match ← peek with
  | .punct s => ensure (s == "(" || s == ".")
  | _ => fail
  let e ← expression g ctx
  let _ ← eatSemicolon
  return .stmt (← since lo) .expr [e]

/-- A statement that begins with `await using`. -/
def awaitUsing : Parser Tree := do
  let lo ← lo
  let start ← get
  bump
  match ← usingStatement? g ctx lo true with
  | some s => return s
  | none =>
      set start
      let e ← awaitExpr g ctx
      let e ← g.operators ctx.withIn 0 e
      let _ ← eatSemicolon
      return .stmt (← since lo) .expr [e]

/-! ### Any statement -/

/-- A statement that begins with the word `s`; `declares` tells whether it may be any
declaration. -/
def wordStatement (declares : Bool) (s : String) : Parser Tree := do
  let lo ← lo
  match s with
  | "import" => importStatement g ctx
  | "const" =>
      if (← peek) == .word "enum" then
        bump
        bump
        enumFrom g ctx lo false true
      else
        ensure declares
        varStatement g ctx lo false
  | "var" => varStatement g ctx lo false
  | "let" =>
      if declares && (← letDeclares) then varStatement g ctx lo false else expressionStatement g ctx
  | "using" =>
      match ← if declares then usingStatement? g ctx lo false else pure none with
      | some d => return d
      | none => expressionStatement g ctx
  | "await" =>
      if declares && (← peek) == .word "using" then awaitUsing g ctx else expressionStatement g ctx
  | "function" => functionDecl g ctx lo false
  | "async" =>
      let next ← peekCursor
      if next.token == .word "function" && !next.newline then functionDecl g ctx lo false
      else expressionStatement g ctx
  | "class" => classDecl g ctx lo false false
  | "debugger" =>
      bump
      semicolon
      return .stmt (← since lo) .debugger []
  | "return" =>
      bump
      let e ← maybe (return !(← atStatementEnd)) (expression g ctx.withIn)
      semicolon
      return .stmt (← since lo) .ret [e]
  | "throw" =>
      bump
      ensure (!(← newline))
      let e ← expression g ctx.withIn
      semicolon
      return .stmt (← since lo) .throw [e]
  | "if" => ifStatement g ctx
  | "for" => forStatement g ctx
  | "while" =>
      bump
      let test ← condition g ctx
      let body ← heldStatement g ctx
      return .stmt (← since lo) .whileLoop [test, body]
  | "do" =>
      bump
      let body ← heldStatement g ctx
      expectWord "while"
      let test ← condition g ctx
      let _ ← eatSemicolon
      return .stmt (← since lo) .doWhile [test, body]
  | "switch" => switchStatement g ctx
  | "try" => tryStatement g ctx
  | "catch" | "finally" => strayHandler g ctx
  | "with" =>
      bump
      let e ← condition g ctx
      let body ← heldStatement g ctx
      return .stmt (← since lo) .withScope [e, body]
  | "break" => jump .breakTo
  | "continue" => jump .continueTo
  | _ => expressionStatement g ctx

/-- A statement or declaration; `declares` tells whether it may be any declaration. -/
def anyStatement (declares : Bool) : Parser Tree := do
  let ctx := { ctx with awaitsColon := false }
  let lo ← lo
  match ← token with
  | .word s => wordStatement g ctx declares s
  | .punct "\x7b" => block g ctx
  | .punct ";" =>
      bump
      return .stmt (← since lo) .empty []
  | _ => expressionStatement g ctx

end FormCodemod.Grammar
