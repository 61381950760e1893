import FormCodemod.Grammar.Functions
import FormCodemod.Grammar.Markup

/-!
# Expressions

From the inside out: literals, members and calls, operators, conditional expressions,
parentheses and arrows, assignments.

An arrow function looks like an expression in parentheses until its arrow shows up. So
what stands in the parentheses is read as expressions that may have a type behind them,
and the arrow turns them into parameters (`arrowParams?`). An arrow function is an operand
by itself: no operator and no link follows it.
-/

namespace FormCodemod.Grammar

open Grammar.Parser

variable (g : Productions) (ctx : Context)

/-! ### Literals -/

def template (checked : Bool) : Parser Tree := do
  let lo ← lo
  let (holes, quasis) ← templateParts checked (expression g ctx.inBrackets)
  return .expr (← since lo) .template [.list holes, .list quasis]

/-- `...e` or `e` -/
def spreadOr : Parser Tree := do
  let lo ← lo
  if ← eat "..." then
    let e ← g.assignment ctx
    return .part (← since lo) .spread [e]
  else g.assignment ctx

/-- `[a, , ...b]` -/
def arrayLiteral : Parser Tree := do
  let lo ← lo
  expect "["
  let es ← repeatFrom ([] : List Tree) fun acc => do
    if ← isPunct "]" then return none
    if ← eat "," then return some (.absent :: acc)
    let e ← spreadOr g ctx.inBrackets
    unless ← isPunct "]" do expect ","
    return some (e :: acc)
  expect "]"
  return .expr (← since lo) .array [.list es.reverse]

def objectMethod (lo : Nat) (isAsync isGenerator : Bool) (key : Tree) : Parser Tree := do
  let f ← functionFrom g ctx lo isAsync isGenerator
  return .prop (← since lo) .method [key, f]

/-- A member of an object literal that is read through a function. Parameters say
nothing. -/
def objectGetter (lo : Nat) : Parser Tree := do
  let key ← propertyKey g ctx
  match ← functionFrom g ctx lo false false with
  | .part _ _ [_, body, _, r] => return .prop (← since lo) .getter [key, r, body]
  | _ => fail

/-- A member of an object literal that is written through a function. A parameter that is
missing is an invalid one. -/
def objectSetter (lo : Nat) : Parser Tree := do
  let key ← propertyKey g ctx
  match ← functionFrom g ctx lo false false with
  | .part _ _ [ps, body, _, _] =>
      let (first, p) :=
        match ps.children with
        | this :: p :: _ => (this, p)
        | [p] => (.absent, p)
        | [] => (.absent, .pat .made .invalid [])
      return .prop (← since lo) .setter [key, first, p, body]
  | _ => fail

def continuesKey (key : Tree) : Parser Bool := do
  match ← token with
  | .word _ | .str _ _ | .num _ | .bigint _ => return true
  | .punct "\x7d" => return match key with | .part _ (.key _) _ => true | _ => false
  | .punct s => return ["(", "[", ":", ",", "?", "=", "*", "<"].contains s
  | _ => return false

/-- A member of an object literal whose key is a plain name and has no value. Three names
may also open a function. -/
def namedProperty (lo : Nat) (o : Origin) (x : String) : Parser Tree := do
  let _ ← eat "?"
  let name := Tree.part o (.name x) []
  if ← eat "=" then
    let v ← g.assignment ctx.withIn
    return .prop (← since lo) .withDefault [name, v]
  else if ← isOneOf [",", "\x7d"] then return name
  else
    match x with
    | "get" => objectGetter g ctx lo
    | "set" => objectSetter g ctx lo
    | "async" =>
        let isGenerator ← eat "*"
        let key ← propertyKey g ctx
        objectMethod g ctx lo true isGenerator key
    | _ => fail

def property : Parser Tree := do
  let lo ← lo
  if ← isPunct "..." then spreadOr g ctx.withIn
  else if ← eat "*" then
    let key ← propertyKey g ctx
    objectMethod g ctx lo false true key
  else
    eatAccess
    let key ← propertyKey g ctx
    if !(← continuesKey key) then
      skipBad
      let o ← since lo
      return .prop o .keyValue [key, .expr o .invalid []]
    else if ← eat ":" then
      let v ← g.assignment ctx.withIn
      return .prop (← since lo) .keyValue [key, v]
    else if ← isOneOf ["(", "<"] then objectMethod g ctx lo false false key
    else
      match key with
      | .part o (.key x) _ => namedProperty g ctx lo o x
      | _ => fail

/-- `{ a, b: 1 }` -/
def objectLiteral : Parser Tree := do
  let lo ← lo
  let ctx := { ctx with awaitsColon := false }
  expect "\x7b"
  let ps ← commaList (isPunct "\x7d") (property g ctx)
  expect "\x7d"
  return .expr (← since lo) .object [.list ps]

/-! ### Functions and classes as expressions -/

/-- `function f() {}`; `required` tells whether it has to have a body. -/
def functionExpr (required : Bool) : Parser Tree := do
  let lo ← lo
  let isAsync ← eatWord "async"
  expectWord "function"
  let isGenerator ← eat "*"
  let name ← optionalName (if required then ctx.inFunction isAsync isGenerator else ctx)
  let f ← functionFrom g ctx lo isAsync isGenerator
  match f with
  | .part _ _ [_, body, _, _] => ensure (!(required && body.isAbsent))
  | _ => fail
  return .expr (← since lo) .func [name, f]

def classExpr (lo : Nat) (isAbstract : Bool) : Parser Tree := do
  expectWord "class"
  let name ← optionalName ctx
  let c ← classFrom g ctx lo isAbstract
  return .expr (← since lo) .clazz [name, c]

/-! ### Members and calls -/

/-- `(a, ...b)` -/
def arguments : Parser Tree := do
  expect "("
  let es ← commaList (isPunct ")") (spreadOr g ctx.inBrackets)
  expect ")"
  return .list es

def inChain : Tree → Bool
  | .expr _ (.chainMember _) _ => true
  | .expr _ (.chainCall _) _ => true
  | .expr _ .nonNull [t] => inChain t
  | _ => false

/-- Whether the base of links is an expression by itself. -/
def isWhole : Tree → Bool
  | .part _ _ _ => false
  | _ => true

def dotKey : Parser Tree := do
  if ← isPunct "#" then privateKey
  else
    let o ← here
    return .part o (.key (← anyWord)) []

def computedKey : Parser Tree := do
  let lo ← lo
  expect "["
  let e ← expression g ctx.withIn
  expect "]"
  return .part (← since lo) .index [e]

def memberOf (lo : Nat) (link : Bool) (obj key : Tree) : Parser Tree := do
  let o ← since lo
  match obj, key with
  | .part _ .superRef _, .part ko .index kids =>
      ensure (!link)
      return .expr o .superMember [.part ko .computed kids]
  | .part _ .superRef _, .part _ (.key _) _ =>
      ensure (!link)
      return .expr o .superMember [key]
  | .part _ _ _, _ => fail
  | _, _ =>
      if link || inChain obj then return .expr o (.chainMember link) [obj, key]
      else return .expr o .member [obj, key]

def callOf (lo : Nat) (link : Bool) (callee args targs : Tree) : Parser Tree := do
  let o ← since lo
  if link || inChain callee then
    ensure (isWhole callee)
    return .expr o (.chainCall link) [callee, args, targs]
  else return .expr o .call [callee, args, targs]

def openingKeywords : List String :=
  ["this", "super", "null", "true", "false", "function", "class", "new", "delete", "typeof", "void", "await",
    "yield"]

def startsExpression : Parser Bool := do
  match ← token with
  | .word s => return isReference ctx (.word s) || openingKeywords.contains s
  | .str _ _ | .num _ | .bigint _ => return true
  | .punct s => return ["(", "[", "\x7b", "`", "+", "-", "~", "!", "++", "--", "<", "#", "/", "/="].contains s
  | _ => return false

/-- Type arguments that are not those of a call: what follows could not go on as an
expression if they were a comparison. -/
def freeTypeArgs : Parser Tree := do
  let args ← typeArgs g ctx
  ensure (!(← isOneOf ["<", ">", "+", "-", "(", "`"]))
  ensure ((← newline) || (← isOneOf binaryPuncts) || !(← startsExpression ctx))
  return args

/-- An expression that began at `lo`, applied to types if they follow it. -/
def instantiated (lo : Nat) (e : Tree) : Parser Tree := do
  if (← isPunct "<") && isWhole e then
    match ← attempt (freeTypeArgs g ctx) with
    | some targs => return .expr (← since lo) .instantiate [e, targs]
    | none => return e
  else return e

def withTypeArgs (lo : Nat) (calls : Bool) (e : Tree) : Parser Tree := do
  let shifted ← isPunct "<<"
  let targs ← typeArgs g ctx
  if calls && (← isPunct "(") then
    let args ← arguments g ctx
    callOf lo false e args targs
  else
    ensure (!shifted)
    if ← isPunct "`" then
      let t ← template g ctx false
      return .expr (← since lo) .tagged [e, targs, t]
    else
      ensure ((← isPunct "=") || (← isWord "as") || (← isWord "satisfies"))
      return .expr (← since lo) .instantiate [e, targs]

def optionalLink (lo : Nat) (e : Tree) : Parser Tree := do
  if ← isPunct "(" then
    let args ← arguments g ctx
    callOf lo true e args .absent
  else if ← isOpenAngle then
    let targs ← typeArgs g ctx
    let args ← arguments g ctx
    callOf lo true e args targs
  else
    let key ← if ← isPunct "[" then computedKey g ctx else dotKey
    let e ← memberOf lo true e key
    instantiated g ctx lo e

/-- One link behind `e`, which began at `lo`, or nothing. Behind `new`, calls are not part
of the callee. -/
def link (lo : Nat) (calls : Bool) (e : Tree) : Parser (Option Tree) := do
  match ← token with
  | .punct "?." =>
      ensure calls
      bump
      return some (← optionalLink g ctx lo e)
  | .punct "." =>
      bump
      let key ← dotKey
      let e ← memberOf lo false e key
      return some (← instantiated g ctx lo e)
  | .punct "[" =>
      let key ← computedKey g ctx
      let e ← memberOf lo false e key
      return some (← instantiated g ctx lo e)
  | .punct "!" =>
      if ← newline then return none
      ensure (isWhole e)
      bump
      return some (.expr (← since lo) .nonNull [e])
  | .punct "(" =>
      if !calls then return none
      let args ← arguments g ctx
      return some (← callOf lo false e args .absent)
  | .punct "`" =>
      ensure (isWhole e)
      let t ← template g { ctx with awaitsColon := false } false
      return some (.expr (← since lo) .tagged [e, .absent, t])
  | .punct s =>
      if isWhole e && (s == "<" || (calls && s == "<<")) then attempt (withTypeArgs g ctx lo calls e)
      else return none
  | _ => return none

/-- All links behind the base of an expression, which has to have one if it is none by
itself. -/
def links (lo : Nat) (calls : Bool) (base : Tree) : Parser Tree := do
  let e ← repeatFrom base fun e => link g ctx lo calls e
  ensure (isWhole e)
  return e

/-! ### Operators -/

def precedence : Token → Nat
  | .punct s =>
      match s with
      | "??" | "||" => 1
      | "&&" => 2
      | "|" => 3
      | "^" => 4
      | "&" => 5
      | "==" | "!=" | "===" | "!==" => 6
      | "<" | ">" | "<=" | ">=" => 7
      | "<<" | ">>" | ">>>" => 8
      | "+" | "-" => 9
      | "*" | "/" | "%" => 10
      | "**" => 11
      | _ => 0
  | .word s =>
      match s with
      | "instanceof" => 7
      | "in" => if ctx.includeIn then 7 else 0
      | _ => 0
  | _ => 0

def operatorText : Token → String
  | .punct s | .word s => s
  | _ => ""

/-- Whether an operand may stand to the left of the power operator. -/
def isPowerBase : Tree → Bool
  | .expr _ (.unary _) _ => false
  | .expr _ .await _ => false
  | _ => true

def isArrow : Tree → Bool
  | .expr _ (.arrow _) _ => true
  | _ => false

def startOf (t : Tree) : Nat := (t.origin.lo?).getD 0

/-- One binary operator behind `left`, with its right side, or nothing. -/
def operatorStep (least : Nat) (left : Tree) : Parser (Option Tree) := do
  let lo := startOf left
  let op ← token
  let sameLine := !(← newline)
  if op == .word "as" && sameLine && least < 7 then
    bump
    if ← eatWord "const" then return some (.expr (← since lo) .asConst [left])
    else
      let t ← typeOf g ctx
      return some (.expr (← since lo) .asType [left, t])
  else if op == .word "satisfies" && sameLine then
    bump
    let t ← typeOf g ctx
    return some (.expr (← since lo) .satisfies [left, t])
  else
    let prec := precedence ctx op
    if prec ≤ least then return none
    else
      bump
      ensure (operatorText op != "**" || isPowerBase left)
      let right ← g.unary ctx
      let right ← g.operators ctx (if operatorText op == "**" then prec - 1 else prec) right
      return some (.expr (← since lo) (.binary (operatorText op)) [left, right])

/-- The binary operators behind `left` that bind tighter than `least`. -/
def operatorsFrom (least : Nat) (left : Tree) : Parser Tree :=
  repeatFrom left fun left => operatorStep g ctx least left

/-- An expression with binary operators. The left side of the first one may be missing. -/
def binaryExpr : Parser Tree := do
  match ← recover (g.unary ctx) with
  | some left => if isArrow left then return left else operatorsFrom g ctx 0 left
  | none =>
      ensure (precedence ctx (← token) != 0)
      operatorsFrom g ctx 0 (← missing)

def branches (lo : Nat) (test : Tree) : Parser Tree := do
  expect "?"
  let yes ← g.assignment { ctx with includeIn := true, inConditional := true, awaitsColon := true }
  expect ":"
  let no ← g.assignment { ctx with inConditional := true, awaitsColon := false }
  return .expr (← since lo) .cond [test, yes, no]

def conditional : Parser Tree := do
  let lo ← lo
  let test ← binaryExpr g ctx
  if !isArrow test && (← isPunct "?") then branches g ctx lo test
  else return test

/-! ### Assignments -/

def assignOperators : List String :=
  ["=", "+=", "-=", "*=", "/=", "%=", "<<=", ">>=", ">>>=", "&=", "|=", "^=", "**=", "&&=", "||=", "??="]

def assigned (lo : Nat) (left : Tree) : Parser Tree := do
  match ← token with
  | .punct op =>
      if assignOperators.contains op then
        match toTarget? op left with
        | none => fail
        | some target =>
            bump
            let value ← g.assignment ctx
            return .expr (← since lo) (.assign op) [target, value]
      else return left
  | _ => return left

/-! ### Arrows and parentheses -/

/-- Whether something in parentheses can only be a parameter. -/
def isPattern : Tree → Bool
  | .pat _ _ _ => true
  | _ => false

/-- What stands in parentheses as the parameters of an arrow function. The rest is dropped
where it is not the last. -/
def arrowParams? : List Tree → Option (List Tree)
  | [] => some []
  | .part _ .spread [e] :: ts => do
      if ts.isEmpty then return [.pat e.origin .rest [← asPattern? true e, .absent]]
      else arrowParams? ts
  | .pat o .rest kids :: ts => do
      if ts.isEmpty then return [.pat o .rest kids]
      else arrowParams? ts
  | t :: ts => do
      let p ← if isPattern t then some t else asPattern? true t
      return p :: (← arrowParams? ts)

def arrowFrom (lo : Nat) (isAsync : Bool) (ps tps r : Tree) : Parser Tree := do
  let body ←
    if ← isPunct "\x7b" then block g (ctx.inFunction isAsync false).withIn
    else g.assignment { ctx with inAsync := isAsync, inGenerator := false, inParams := false }
  return .expr (← since lo) (.arrow isAsync) [ps, body, tps, r]

/-- An arrow function whose parameters were read as `items`, behind its arrow. -/
def arrowOf (lo : Nat) (isAsync : Bool) (items : List Tree) (r : Tree) : Parser Tree := do
  match arrowParams? items with
  | some ps => arrowFrom g ctx lo isAsync (.list ps) .absent r
  | none => fail

/-- A parameter from an expression, which has a type or is optional. It began at `lo`. -/
def typedItem (lo : Nat) (isOptional : Bool) (arg : Tree) : Parser Tree := do
  let inner := match arg with | .part _ .spread [e] => e | e => e
  match asPattern? true inner with
  | none => fail
  | some p =>
      let p := if isOptional then asOptional p else p
      let p ←
        match arg, p with
        | .part _ .spread _, p => do
            let ann ← typeAnn? g ctx
            pure (Tree.pat (← since lo) .rest [p, ann])
        | _, .pat _ .withDefault _ | _, .pat _ .invalid _ => pure p
        | _, p => do pure (withType true (← typeAnn? g ctx) p)
      if ← eat "=" then
        let e ← g.assignment ctx
        return .pat (← since lo) .withDefault [p, e]
      else return p

def isIdent : Tree → Bool
  | .expr _ (.ident _) _ => true
  | _ => false

/-- What stands between two commas in parentheses: an expression, or a parameter with a type
or a mark. A name is read without the question mark behind it, which may be such a mark. -/
def parenItem : Parser Tree := do
  let start ← lo
  let ctx := { ctx with arrowAt := some start }
  eatAccess
  let lo ← lo
  let spreads ← isPunct "..."
  let first ← if spreads then peek else token
  let arg ←
    if isReference ctx first then do
      if ← eat "..." then
        let e ← binaryExpr g ctx
        pure (Tree.part (← since lo) .spread [e])
      else
        let e ← binaryExpr g ctx
        if isArrow e then pure e else assigned g ctx start e
    else spreadOr g ctx
  let inner := match arg with | .part _ .spread [e] => e | e => e
  let marks ← looking do
    expect "?"
    isOneOf [",", ":", ")", "="]
  if marks then
    ensure (isIdent inner)
    bump
    typedItem g ctx lo true arg
  else
    let arg ← if (← isPunct "?") && !spreads then branches g ctx start arg else pure arg
    if ← isPunct ":" then typedItem g ctx lo false arg else return arg

/-- Whether the items read so far may be the parameters of an arrow function although its
arrow stands inside the parentheses. -/
def opensInnerArrow : List Tree → Bool
  | [] => false
  | t :: _ => isIdent t || isBinding t

/-- What stands in parentheses. An arrow behind one of the items makes a function of all
that came before, beside them. -/
def parenItems : Parser (List Tree) := do
  expect "("
  let items ← repeatFrom ([] : List Tree) fun acc => do
    if ← isPunct ")" then return none
    let lo ← lo
    let isAsync ← isWord "async"
    let acc := (← parenItem g ctx) :: acc
    let acc ←
      if ← eat "=>" then
        if opensInnerArrow acc.reverse then do pure ((← arrowOf g ctx lo isAsync acc.reverse .absent) :: acc)
        else pure acc
      else pure acc
    unless ← isPunct ")" do expect ","
    return some acc
  expect ")"
  return items.reverse

def parenthesized (lo : Nat) (items : List Tree) : Parser Tree := do
  ensure (items.all isWhole)
  let o ← since lo
  match items, items.getLast? with
  | [e], _ => return .expr o .paren [e]
  | first :: _, some last => return .expr o .paren [.expr (first.origin.through last.origin) .seq items]
  | _, _ => fail

/-- An expression in parentheses or an arrow function; `async`, if that word came before, is
its place. -/
def parenOrArrow (canArrow : Bool) (async : Option Origin) : Parser Tree := do
  let plo ← Parser.lo
  let lo := (async.bind Origin.lo?).getD plo
  let items ← parenItems g ctx.inBrackets
  let hurried : Parser Tree := do
    let r ← returnType g ctx ":"
    expect "=>"
    let e ← arrowOf g ctx lo async.isSome items r
    ensure (!ctx.awaitsColon || (← isPunct ":"))
    return e
  match ← if ctx.inConditional && (← isPunct ":") then attempt hurried else pure none with
  | some e => return e
  | none =>
      let annotated : Parser Tree := do
        let r ← returnType g ctx ":"
        ensure (← isPunct "=>")
        return r
      let r ← if !ctx.awaitsColon && (← isPunct ":") then attempt annotated else pure none
      if items.any isPattern || r.isSome || (← isPunct "=>") then
        ensure (!(← newline) && canArrow)
        expect "=>"
        let e ← arrowOf g ctx lo async.isSome items (r.getD .absent)
        match e with
        | .expr _ _ (_ :: .stmt _ _ _ :: _) =>
            if ← isOneOf binaryPuncts then g.operators ctx 0 e else return e
        | _ => return e
      else
        match async with
        | some o => return .expr (← since lo) .call [.expr o (.ident "async") [], .list items, .absent]
        | none => parenthesized lo items

/-- `async <T>(x) => y` -/
def genericAsyncArrow : Parser Tree := do
  let lo ← lo
  expectWord "async"
  let tps ← typeParams g ctx
  let ps ← formalParams g ctx
  let r ← returnType? g ctx
  expect "=>"
  arrowFrom g ctx lo true ps tps r

/-! ### Primary expressions -/

/-- The parameter and body behind `async`, which stands at `o`, and which may also be a name
that is given a type. -/
def asyncNamed (o : Origin) : Parser Tree := do
  let lo := (o.lo?).getD 0
  let p ← bindingName
  if (← isPunct "=>") || !(match p with | .pat _ (.binding "as" _) _ => true | _ => false) then
    expect "=>"
    arrowFrom g ctx lo true (.list [p]) .absent .absent
  else
    let t ← typeOf g ctx
    return .expr (← since lo) .asType [.expr o (.ident "async") [], t]

def nameOrArrow (canArrow : Bool) (s : String) : Parser Tree := do
  ensure (!isKeyword s || s == "let" || (s == "await" && !ctx.inAsync))
  let o ← here
  let lo ← lo
  bump
  let sameLine := !(← newline)
  if canArrow && s == "async" && sameLine && isReference ctx (← token) then
    if ctx.inLoopHead && (← isWord "of") && (← peek) != .punct "=>" then return .expr o (.ident s) []
    else asyncNamed g ctx o
  else if canArrow && sameLine && (← isPunct "=>") then
    bump
    arrowFrom g ctx lo false (.list [.pat o (.binding s false) [.absent]]) .absent .absent
  else return .expr o (.ident s) []

def asyncExpr (canArrow : Bool) : Parser Tree := do
  let o ← here
  let next ← peekCursor
  let generic ←
    if canArrow && next.token == .punct "<" then attempt (genericAsyncArrow g ctx) else pure none
  match generic with
  | some e => return e
  | none =>
      if next.token == .word "function" && !next.newline then functionExpr g ctx true
      else if canArrow && next.token == .punct "(" && !next.newline then
        bump
        parenOrArrow g ctx true (some o)
      else nameOrArrow g ctx canArrow "async"

/-- A regular expression, whose opening slash was read as an operator. -/
def regexLiteral : Parser Tree := do
  modify fun c => c.reread readRegex
  let o ← here
  match ← token with
  | .regex raw =>
      bump
      return .expr o (.regex raw) []
  | _ => fail

def primary : Parser Tree := do
  let o ← here
  let lo ← lo
  let canArrow := ctx.arrowAt == some lo
  let leaf (k : ExprKind) : Parser Tree := do
    bump
    return .expr o k []
  match ← token with
  | .num raw => leaf (.num raw)
  | .bigint raw => leaf (.bigint raw)
  | .str value raw => leaf (.str value (some raw))
  | .word "this" => leaf .this
  | .word "null" => leaf .null
  | .word "true" => leaf (.bool true)
  | .word "false" => leaf (.bool false)
  | .word "function" => functionExpr g ctx true
  | .word "class" => classExpr g ctx lo false
  | .word "async" => asyncExpr g ctx canArrow
  | .word s => nameOrArrow g ctx canArrow s
  | .punct "[" => arrayLiteral g ctx
  | .punct "\x7b" => objectLiteral g ctx
  | .punct "(" => parenOrArrow g ctx canArrow none
  | .punct "`" => template g ctx true
  | .punct "/" | .punct "/=" => regexLiteral
  | .punct "#" =>
      bump
      let s ← anyWord
      return .expr (← since lo) (.privateName s) []
  | .bad => bump; fail
  | _ => fail

def importBase : Parser Tree := do
  let lo ← lo
  expectWord "import"
  if ← eat "." then
    match ← anyWord with
    | "meta" => return .expr (← since lo) (.metaProp "import.meta") []
    | "defer" => return .part (← since lo) (.importRef "defer") []
    | "source" => return .part (← since lo) (.importRef "source") []
    | _ => fail
  else return .part (← since lo) (.importRef "") []

def linkedWord (calls : Bool) : Parser Tree := do
  let lo ← lo
  let o ← here
  if ← eatWord "super" then links g ctx lo calls (.part o .superRef [])
  else
    let base ← importBase
    ensure (isWhole base || (calls && (← isPunct "(")))
    links g ctx lo calls base

def linked (calls : Bool) : Parser Tree := do
  let lo ← lo
  let e ← primary g ctx
  if isArrow e then return e
  else
    let e ← instantiated g ctx lo e
    links g ctx lo calls e

/-- Whether the cursor stands on `super` or `import`. -/
def atLinkedWord : Parser Bool := return (← isWord "super") || (← isWord "import")

/-- `new A(b)`, `new A` or `new.target`, with the links behind it that are no calls. -/
def newExpr : Parser Tree := do
  let lo ← lo
  expectWord "new"
  if ← eat "." then
    expectWord "target"
    links g ctx lo false (.expr (← since lo) (.metaProp "new.target") [])
  else
    let callee ←
      if ← isWord "new" then g.construction ctx
      else if ← atLinkedWord then linkedWord g ctx false
      else linked g ctx false
    let applied : Parser Tree := do
      let targs ← typeArgs g ctx
      ensure (← isPunct "(")
      return targs
    let targs ← if ← isOpenAngle then pure ((← attempt applied).getD .absent) else pure .absent
    let args ← maybe (isPunct "(") (arguments g ctx)
    let e := Tree.expr (← since lo) .construct [callee, args, targs]
    if args.isAbsent then return e else links g ctx lo false e

/-- Whether an expression is a construction without arguments, which no call follows. -/
def isBareConstruction : Tree → Bool
  | .expr _ .construct [_, args, _] => args.isAbsent
  | _ => false

def leftSideExpr : Parser Tree := do
  let lo ← lo
  if ← isPunct "<" then
    let e ← g.element ctx
    bump
    return e
  else if ← atLinkedWord then linkedWord g ctx true
  else if ← isWord "new" then
    let e ← newExpr g ctx
    if isBareConstruction e then return e else links g ctx lo true e
  else linked g ctx true

/-! ### Operands -/

def unaryOperators : List String := ["+", "-", "~", "!", "delete", "void", "typeof"]

/-- The operand of an operator that began at `lo`; one that is missing is an invalid one. -/
def operand (lo : Nat) (op : String) : Parser Tree := do
  bump
  let place := (← Parser.lo) - 1
  match ← recover (g.unary ctx) with
  | some e => return .expr (← since lo) (.unary op) [e]
  | none =>
      skipBad
      return .expr (.source lo place) (.unary op) [.expr (.source place place) .invalid []]

def awaitExpr : Parser Tree := do
  let lo ← lo
  let o ← here
  bump
  ensure (!(← isPunct "*"))
  if !ctx.inAsync && ((← isOneOf [")", "]", ","]) || (← atStatementEnd)) then return .expr o (.ident "await") []
  else
    let e ← g.unary ctx
    return .expr (← since lo) .await [e]

def suffixed (lo : Nat) : Parser Tree := do
  let e ← leftSideExpr g ctx
  match ← token with
  | .punct s =>
      if (s == "++" || s == "--") && !isArrow e && !(← newline) then
        bump
        return .expr (← since lo) (.update s false) [e]
      else return e
  | _ => return e

def unaryExpr : Parser Tree := do
  let lo ← lo
  match ← token with
  | .word "await" => awaitExpr g ctx
  | .word s => if unaryOperators.contains s then operand g ctx lo s else suffixed g ctx lo
  | .punct s =>
      if unaryOperators.contains s then operand g ctx lo s
      else if s == "++" || s == "--" then
        bump
        let e ← g.unary ctx
        return .expr (← since lo) (.update s true) [e]
      else suffixed g ctx lo
  | _ => suffixed g ctx lo

/-! ### Whole expressions -/

/-- `yield`, with what is yielded unless the expression ends at once. -/
def yieldExpr : Parser Tree := do
  let lo ← lo
  expectWord "yield"
  ensure (!ctx.inParams)
  let delegate ← if ← atStatementEnd then pure false else eat "*"
  if !delegate && ((← atStatementEnd) || !(← startsExpression ctx)) then
    return .expr (← since lo) (.yield false) [.absent]
  else
    let e ← g.assignment ctx
    return .expr (← since lo) (.yield delegate) [e]

/-- Whether an expression ends where it was read, so that nothing is assigned to it. -/
def isOperation : Tree → Bool
  | .expr _ .cond _ => true
  | .expr _ (.binary _) _ => true
  | .expr _ (.unary _) _ => true
  | .expr _ (.update _ _) _ => true
  | .expr _ (.arrow _) _ => true
  | _ => false

/-- An expression without a comma at its top and without type parameters in front. -/
def plainAssignment : Parser Tree := do
  let lo ← lo
  if ctx.inGenerator && (← isWord "yield") then yieldExpr g ctx
  else
    let t ← token
    let ctx := { ctx with arrowAt := if isName t || t == .punct "(" || t == .word "yield" then some lo else none }
    let left ← conditional g ctx
    if isOperation left then return left else assigned g ctx lo left

def genericArrow : Parser Tree := do
  let lo ← lo
  let ctx := { ctx with awaitsColon := false }
  let tps ← typeParams g ctx
  match ← plainAssignment g ctx with
  | .expr _ (.arrow isAsync) [ps, body, _, r] => return .expr (← since lo) (.arrow isAsync) [ps, body, tps, r]
  | _ => fail

/-- An expression without a comma at its top. What begins like a tag may also be an arrow
function with type parameters. -/
def assignmentExpr : Parser Tree := do
  if (← isPunct "<") && (match ← peek with | .word _ => true | _ => false) then
    orElse (plainAssignment g ctx) (genericArrow g ctx)
  else plainAssignment g ctx

end FormCodemod.Grammar
