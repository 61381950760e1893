import FormCodemod.Grammar.Statements

/-!
# Imports and exports
-/

namespace FormCodemod.Grammar

open Grammar.Parser

variable (g : Productions) (ctx : Context)

/-! ### Names across modules -/

/-- A name on the far side of an import or export: any word, or a string. -/
def farName : Parser Tree := do
  match ← token with
  | .str _ _ => stringLiteral
  | _ => nameOf anyWord

/-- What an import asks of its module, if it does so on the same line. -/
def attributes? : Parser Tree := do
  if ((← isWord "with") || (← isWord "assert")) && !(← newline) then
    bump
    objectLiteral g ctx
  else return .absent

def fromClause : Parser (Tree × Tree) := do
  expectWord "from"
  let source ← stringLiteral
  let attrs ← attributes? g ctx
  semicolon
  return (source, attrs)

def atWord : Parser Bool := return match ← token with | .word _ => true | _ => false

def isNamed (s : String) : Tree → Bool
  | .part _ (.name x) _ => x == s
  | _ => false

/-- What one name in braces says: the far name, the near name if it is another, and whether
only a type is meant. -/
structure Specifier where
  far : Tree
  near : Tree
  typeOnly : Bool
  /-- The node the specifier reaches to, if it is not all that was read. -/
  last : Option Tree := none

/-- The name and, behind `as`, the other name of a specifier. `near` reads that other name.
Of `type as`, `type as as`, `type as x` and `type as as x`, the first and the last are
marked as types. -/
def specifier (near : Parser Tree) : Parser Specifier := do
  let first ← farName
  if isNamed "type" first && (← atWord) then
    let second ← nameOf anyWord
    if !isNamed "as" second then
      let other ← maybe (eatWord "as") near
      return { far := second, near := other, typeOnly := true }
    else if !(← atWord) then return { far := second, near := .absent, typeOnly := true }
    else
      let third ← near
      if isNamed "as" third && (← atWord) then
        let fourth ← near
        return { far := second, near := fourth, typeOnly := true, last := some first }
      else
        return { far := first, near := third, typeOnly := false
                 last := some (if isNamed "as" third then third else first) }
  else
    let other ← maybe (eatWord "as") near
    return { far := first, near := other, typeOnly := false }

def Specifier.origin (s : Specifier) (lo : Nat) : Parser Origin := do
  match s.last with
  | some t => return .source lo ((t.origin.hi?).getD lo)
  | none => since lo

/-! ### Imports -/

def importSpecifier : Parser Tree := do
  let lo ← lo
  let s ← specifier (nameOf boundName)
  let o ← s.origin lo
  if s.near.isAbsent then
    match s.far with
    | .part _ _ _ => return .item o (.importNamed s.typeOnly) [s.far, .absent]
    | _ => fail
  else return .item o (.importNamed s.typeOnly) [s.near, s.far]

def importClause : Parser (List Tree) := do
  let lo ← lo
  if ← eat "*" then
    expectWord "as"
    let near ← nameOf boundName
    return [.item (← since lo) .importStar [near]]
  else if ← eat "\x7b" then
    let ss ← commaList (isPunct "\x7d") importSpecifier
    expect "\x7d"
    return ss
  else return []

/-- `import a = b.c` or `import a = require("m")`, behind the name. -/
def importEquals (lo : Nat) (isExport typeOnly : Bool) (name : Tree) : Parser Tree := do
  expect "="
  let rlo ← Parser.lo
  let target ←
    if (← isWord "require") && (← peek) == .punct "(" then
      bump
      bump
      let source ← stringLiteral
      expect ")"
      pure (.item (← since rlo) .externalRef [source])
    else entityName boundName
  semicolon
  return .item (← since lo) (.importEquals isExport typeOnly) [name, target]

/-- What stands in front of the names of an import: a mark, a default name or both. -/
structure ImportHead where
  typeOnly : Bool := false
  phase : String := ""
  default : Option Tree := none

/-- Whether a default name follows a word that may mark the import. -/
def nameFollows : Parser Bool := do
  return isReference ctx (← token) && (!(← isWord "from") || (← peek) == .word "from")

/-- The head of an import. A word that marks the import may also be its default name. -/
def importHead : Parser ImportHead := do
  if !isReference ctx (← token) then return {}
  else
    let first ← nameOf boundName
    let isType := isNamed "type" first
    if isType && (← isOneOf ["*", "\x7b"]) then return { typeOnly := true }
    else
      let typeOnly := isType && ((← nameFollows ctx) || ((← isWord "from") && (← peek) == .punct "="))
      let name ← if typeOnly then nameOf boundName else pure first
      let phased := isNamed "source" name || isNamed "defer" name
      let phase := if isNamed "source" name then "source" else "defer"
      if ← isPunct "=" then return { typeOnly, default := some name }
      else if phased && (← isOneOf ["*", "\x7b"]) then return { typeOnly, phase }
      else if phased && (← nameFollows ctx) then
        let name ← nameOf boundName
        return { typeOnly, phase, default := some name }
      else return { typeOnly, default := some name }

def importDecl : Parser Tree := do
  let lo ← lo
  expectWord "import"
  match ← token with
  | .str _ _ =>
      let source ← stringLiteral
      let attrs ← attributes? g ctx
      semicolon
      return .item (← since lo) (.importDecl false "") [.list [], source, attrs]
  | _ =>
      let head ← importHead ctx
      let finish (specs : List Tree) : Parser Tree := do
        let names ← importClause
        let (source, attrs) ← fromClause g ctx
        return .item (← since lo) (.importDecl head.typeOnly head.phase) [.list (specs ++ names), source, attrs]
      match head.default with
      | none => finish []
      | some name =>
          if head.phase.isEmpty && (← isPunct "=") then importEquals lo false head.typeOnly name
          else
            unless ← isWord "from" do expect ","
            finish [.item name.origin .importDefault [name]]

/-! ### Exports -/

def exportSpecifier : Parser Tree := do
  let lo ← lo
  let s ← specifier farName
  let o ← s.origin lo
  return .item o (.exportSpec s.typeOnly) [s.far, s.near]

def exportNames (lo : Nat) (typeOnly : Bool) : Parser Tree := do
  expect "\x7b"
  let ss ← commaList (isPunct "\x7d") exportSpecifier
  expect "\x7d"
  let (source, attrs) ←
    if ← isWord "from" then fromClause g ctx
    else do
      let _ ← eatSemicolon
      pure (.absent, .absent)
  return .item (← since lo) (.exportNamed typeOnly) [.list ss, source, attrs]

/-- `* from "m"` or `* as n from "m"`; `lo` is where the whole began and `slo` where the
part behind `export` did. -/
def exportStar (lo slo : Nat) (typeOnly : Bool) : Parser Tree := do
  expect "*"
  if ← eatWord "as" then
    let name ← farName
    let spec := Tree.item (← since slo) .exportStarAs [name]
    let (source, attrs) ← fromClause g ctx
    return .item (← since lo) (.exportNamed typeOnly) [.list [spec], source, attrs]
  else
    let (source, attrs) ← fromClause g ctx
    return .item (← since lo) (.exportAll typeOnly) [source, attrs]

def nextOnLine (s : String) : Parser Bool := do
  let c ← peekCursor
  return c.token == .word s && !c.newline

def exportDefault (lo : Nat) : Parser Tree := do
  let declared (d : Tree) : Parser Tree := return .item (← since lo) .exportDefaultDecl [d]
  let clo ← Parser.lo
  if (← isWord "abstract") && (← nextOnLine "class") then
    bump
    declared (← classExpr g ctx clo true)
  else
    if (← isWord "abstract") && (← peek) == .word "interface" then bump
    let dlo ← Parser.lo
    if ← eatWord "interface" then declared (← interfaceFrom g ctx dlo false)
    else if ← isWord "class" then declared (← classExpr g ctx dlo false)
    else if (← isWord "function") || ((← isWord "async") && (← nextOnLine "function")) then
      declared (← functionExpr g ctx false)
    else
      let e ← g.assignment ctx.withIn
      semicolon
      return .item (← since lo) .exportDefaultExpr [e]

/-- A declaration behind `export` that no word but its own opens, if there is one. -/
def exportedDeclaration? : Parser (Option Tree) := do
  let lo ← lo
  match ← token with
  | .word "class" => return some (← classDecl g ctx lo false false)
  | .word "function" => return some (← functionDecl g ctx lo false)
  | .word "async" =>
      if ← nextOnLine "function" then return some (← functionDecl g ctx lo false) else return none
  | .word "const" =>
      if (← peek) == .word "enum" then
        bump
        bump
        return some (← enumFrom g ctx lo false true)
      else return some (← varStatement g ctx lo false)
  | .word "var" => return some (← varStatement g ctx lo false)
  | .word "let" => if ← letDeclares then return some (← varStatement g ctx lo false) else return none
  | _ => return none

/-- What is exported and no declaration of a type; `lo` is where the whole began. -/
def exportRest (lo : Nat) : Parser Tree := do
  let slo ← Parser.lo
  if ← eatWord "import" then
    let typeOnly := (← isWord "type") && isReference ctx (← peek)
    if typeOnly then bump
    let name ← nameOf anyWord
    importEquals lo true typeOnly name
  else if ← eat "=" then
    let e ← expression g ctx
    semicolon
    return .item (← since lo) .exportAssign [e]
  else if ← eatWord "as" then
    expectWord "namespace"
    let name ← nameOf boundName
    semicolon
    return .item (← since lo) .exportAsNamespace [name]
  else if ← eatWord "default" then exportDefault g ctx lo
  else
    let typeOnly ← eatWord "type"
    match ← if typeOnly then pure none else exportedDeclaration? g ctx with
    | some d => return .item (← since lo) .exportDecl [d]
    | none => if ← isPunct "*" then exportStar g ctx lo slo typeOnly else exportNames g ctx lo typeOnly

def exportDecl : Parser Tree := do
  let lo ← lo
  expectWord "export"
  let dlo ← Parser.lo
  let declared ← if ← eatWord "declare" then declared? g ctx dlo else pure none
  let tlo ← Parser.lo
  let typed ←
    match declared with
    | some d => pure (some d)
    | none => do pure (Option.join (← attempt (markedDeclaration? g ctx tlo false)))
  match typed with
  | some d => return .item (← since lo) .exportDecl [d]
  | none => exportRest g ctx lo

/-! ### Items -/

def anyItem : Parser Tree := do
  match ← token with
  | .word "import" =>
      match ← peek with
      | .punct s => if s == "(" || s == "." then g.statement ctx true else importDecl g ctx
      | _ => importDecl g ctx
  | .word "export" => exportDecl g ctx
  | _ => g.statement ctx true

end FormCodemod.Grammar
