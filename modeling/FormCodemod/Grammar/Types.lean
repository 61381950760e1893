import FormCodemod.Grammar.Productions

/-!
# Types

The grammar of types: unions over intersections over operators over array types, with
function, constructor and conditional types above them, the parameters of functions, and
the members of type literals and interfaces.
-/

namespace FormCodemod.Grammar

open Grammar.Parser

variable (g : Productions) (ctx : Context)

/-! ### Arguments, parameters, type marks -/

def typeOf : Parser Tree := g.type { ctx with noConditional := false }

/-- `<A, B>` -/
def typeArgs : Parser Tree := do
  let lo ← lo
  openAngle
  let ts ← commaList isCloseAngle (typeOf g ctx)
  closeAngle
  return .part (← since lo) .typeArgs ts

/-- Words that may stand in front of a type parameter. Three of them mean something. -/
def typeParamWords : List String :=
  ["public", "private", "protected", "readonly", "abstract", "const", "override", "in", "out"]

/-- One of `<in T, const U extends V = W>`. -/
def typeParam : Parser Tree := do
  let lo ← lo
  let words ← repeatFrom ([] : List String) fun acc => do
    return (← eatModifier typeParamWords).map (· :: acc)
  let name ← nameOf anyWord
  let constraint ← maybe (eatWord "extends") (typeOf g ctx)
  let default ← maybe (eat "=") (typeOf g ctx)
  return .part (← since lo) (.typeParam (["const", "in", "out"].filter words.contains)) [name, constraint, default]

/-- `<T extends U = V>` -/
def typeParams : Parser Tree := do
  let lo ← lo
  expect "<"
  let ts ← commaList isCloseAngle (typeParam g ctx)
  closeAngle
  return .part (← since lo) .typeParams ts

def typeParams? : Parser Tree := maybe (isPunct "<") (typeParams g ctx)

/-- The types a name is applied to, if any follow on the same line. -/
def typeArgsOnLine? : Parser Tree :=
  maybe (do return (← isOpenAngle) && !(← newline)) (typeArgs g ctx)

/-- `: T` -/
def typeAnn : Parser Tree := do
  let lo ← lo
  expect ":"
  let t ← typeOf g ctx
  return .part (← since lo) .typeAnn [t]

/-- `: T`, if there is one. -/
def typeAnn? : Parser Tree := maybe (isPunct ":") (typeAnn g ctx)

/-- The type that is claimed behind `is`. -/
def claimedType : Parser Tree := do
  let lo ← lo
  let t ← typeOf g ctx
  return .part (← since lo) .typeAnn [t]

/-- A type, or a claim about a parameter: `x is T`, `asserts x`, `asserts x is T`. -/
def typeOrPredicate : Parser Tree := do
  let lo ← lo
  let asserts := (← isWord "asserts") && isReference ctx (← peek)
  if asserts then bump
  let next ← peekCursor
  let is := isReference ctx (← token) && next.token == .word "is" && !next.newline
  if asserts || is then
    let x ← nameOf anyWord
    let t ← if is then do bump; claimedType g ctx else pure .absent
    return .type (← since lo) (.predicate asserts) [x, t]
  else typeOf g ctx

/-- The type behind `mark`, which may be a claim about a parameter. -/
def returnType (mark : String) : Parser Tree := do
  let lo ← lo
  expect mark
  let t ← typeOrPredicate g ctx
  return .part (← since lo) .typeAnn [t]

/-- A return type, if there is one. -/
def returnType? : Parser Tree := maybe (isPunct ":") (returnType g ctx ":")

/-! ### Parameters -/

/-- From the start of a pattern to the end of its type, if it has one. -/
def throughType (o : Origin) (ann : Tree) : Origin := if ann.isAbsent then o else o.through ann.origin

/-- Gives a pattern its type. A name always reaches to the end of its type, what takes
something apart only as a parameter. -/
def withType (isParam : Bool) (ann : Tree) : Tree → Tree
  | .pat o (.binding x q) _ => .pat (throughType o ann) (.binding x q) [ann]
  | .pat o (.array q) [es, _] => .pat (if isParam then throughType o ann else o) (.array q) [es, ann]
  | .pat o (.object q) [ps, _] => .pat (if isParam then throughType o ann else o) (.object q) [ps, ann]
  | t => t

/-- Marks a pattern as optional. -/
def asOptional : Tree → Tree
  | .pat o (.binding x _) ts => .pat o (.binding x true) ts
  | .pat o (.array _) ts => .pat o (.array true) ts
  | .pat o (.object _) ts => .pat o (.object true) ts
  | t => t

/-- A parameter that takes the place of one argument; `lo` is where the whole began. -/
def singleParam (lo : Nat) : Parser Tree := do
  eatAccess
  let p ← g.pattern ctx
  let p ← if ← eat "?" then pure (asOptional p) else pure p
  let ann ← typeAnn? g ctx
  let p := withType true ann p
  if ← eat "=" then
    let e ← g.assignment ctx
    return .pat (← since lo) .withDefault [p, e]
  else return p

def restParam (lo : Nat) : Parser Tree := do
  let p ← g.pattern ctx
  let p ←
    if ← eat "=" then do
      let e ← g.assignment ctx
      pure (.pat (← since lo) .withDefault [p, e])
    else pure p
  let ann ← typeAnn? g ctx
  let o ← since lo
  let _ ← eat "?"
  return .pat o .rest [p, ann]

def formalParam : Parser Tree := do
  let lo ← lo
  if ← eat "..." then restParam g ctx lo else singleParam g ctx lo

def paramList (param : Parser Tree) : Parser Tree := do
  expect "("
  let ps ← commaList (isPunct ")") param
  expect ")"
  return .list ps

def formalParams : Parser Tree := paramList (formalParam g ctx)

def hasDefault : Tree → Bool
  | .pat _ .withDefault _ => true
  | _ => false

def signatureParams : Parser Tree := do
  let ps ← formalParams g ctx
  ensure (!ps.children.any hasDefault)
  return ps

/-! ### Members -/

/-- The end of a member of a type literal. -/
def memberEnd : Parser Unit := do
  unless ← eat "," do semicolon

/-- A key of a type literal: an expression, in brackets or not. -/
def typeMemberKey : Parser (Tree × Bool) := do
  let o ← here
  match ← token with
  | .word s => bump; return (.expr o (.ident s) [], false)
  | .str value raw => bump; return (.expr o (.str value (some raw)) [], false)
  | .num raw => bump; return (.expr o (.num raw) [], false)
  | .punct "#" => return (← privateKey, false)
  | .punct "[" =>
      bump
      let e ← g.assignment ctx
      expect "]"
      return (e, true)
  | _ => fail

/-- Whether a bracket opens the key of an index signature. -/
def opensIndex : Parser Bool := looking do
  expect "["
  ensure (isReference ctx (← token))
  bump
  isOneOf [":", ","]

def indexSignature : Parser (Tree × Tree) := do
  expect "["
  let lo ← lo
  let x ← anyWord
  let tlo ← Parser.lo
  unless ← eat "," do expect ":"
  let t ← typeOf g ctx
  let ann := Tree.part (← since tlo) .typeAnn [t]
  let key := Tree.pat (← since lo) (.binding x false) [ann]
  expect "]"
  let value ← typeAnn? g ctx
  memberEnd
  return (.list [key], value)

/-- A signature without a name: type parameters, parameters and a return type. -/
def bareSignature (lo : Nat) (k : TypeKind) : Parser Tree := do
  let tps ← typeParams? g ctx
  let ps ← signatureParams g ctx
  let r ← returnType? g ctx
  memberEnd
  return .type (← since lo) k [ps, tps, r]

/-- A member of a type literal that is read or written through functions. -/
def accessorSignature (lo : Nat) : Parser Tree := do
  let isGetter ← eatWord "get"
  unless isGetter do expectWord "set"
  let (key, computed) ← typeMemberKey g ctx
  if isGetter then
    expect "("
    expect ")"
    let t ← typeAnn? g ctx
    memberEnd
    return .type (← since lo) (.getter computed) [key, t]
  else
    match ← signatureParams g ctx with
    | .list (p :: _) =>
        memberEnd
        return .type (← since lo) (.setter computed) [key, p]
    | _ => fail

def namedSignature (lo : Nat) (readonly : Bool) : Parser Tree := do
  let (key, computed) ← typeMemberKey g ctx
  let isOptional ← eat "?"
  if ← isOneOf ["(", "<"] then
    ensure (!readonly)
    let tps ← typeParams? g ctx
    let ps ← signatureParams g ctx
    let r ← returnType? g ctx
    memberEnd
    return .type (← since lo) (.method isOptional computed) [key, ps, tps, r]
  else
    let t ← typeAnn? g ctx
    memberEnd
    return .type (← since lo) (.property readonly isOptional computed) [key, t]

def typeMember : Parser Tree := do
  let lo ← lo
  if ← isOneOf ["(", "<"] then bareSignature g ctx lo .callable
  else if (← isWord "new") && (← looking (do bump; isOneOf ["(", "<"])) then
    bump
    bareSignature g ctx lo .constructible
  else
    let readonly := (← eatModifier ["readonly"]).isSome
    if ← opensIndex ctx then
      let (ps, value) ← indexSignature g ctx
      return .type (← since lo) (.index readonly) [ps, value]
    else if readonly then namedSignature g ctx lo true
    else
      match ← attempt (accessorSignature g ctx lo) with
      | some t => return t
      | none => namedSignature g ctx lo false

def typeMembers : Parser (List Tree) := do
  expect "\x7b"
  let ms ← listUntil (isPunct "\x7d") (typeMember g ctx)
  expect "\x7d"
  return ms

/-! ### Primary types -/

def typeKeywords : List String :=
  ["any", "unknown", "number", "object", "boolean", "bigint", "string", "symbol", "void", "undefined", "null",
    "never", "intrinsic"]

/-- The keywords that may begin a type as names do. -/
def typeNameKeywords : List String := ["void", "yield", "null", "await", "break"]

def entityName (key : Parser String) : Parser Tree := do
  let lo ← lo
  let first ← nameOf anyWord
  let out ← repeatFrom (first, false) fun (left, done) => do
    if done then return none
    if ← eat "." then
      let o ← here
      match ← token with
      | .word _ =>
          let k := Tree.part o (.key (← key)) []
          return some (.type (← since lo) .qualified [left, k], false)
      | .punct "#" => fail
      | _ =>
          skipBad
          return some (left, true)
    return none
  return out.1

def typeRef : Parser Tree := do
  let lo ← lo
  eatAccess
  let name ← entityName anyWord
  let args ← typeArgsOnLine? g ctx
  return .type (← since lo) .ref [name, args]

/-- What an import type asks of its module, `object` reading the object behind `with`. -/
def importOptions (object : Parser Tree) : Parser Tree := do
  let lo ← lo
  expect "\x7b"
  let klo ← Parser.lo
  let o ← here
  expectWord "with"
  expect ":"
  let value ← object
  let entry := Tree.prop (← since klo) .keyValue [.part o (.key "with") [], value]
  let _ ← eat ","
  expect "\x7d"
  return .expr (← since lo) .object [.list [entry]]

/-- `import("m").a<B>` -/
def importType : Parser Tree := do
  let lo ← lo
  expectWord "import"
  expect "("
  let source ← do
    match ← token with
    | .str _ _ => stringLiteral
    | .eof => fail
    | _ =>
        let o ← here
        bump
        pure (.expr o (.str "" (some "\"\"")) [])
  let attributes ← do
    if ← eat "," then maybe (isPunct "\x7b") (importOptions (g.leftSide ctx))
    else pure .absent
  expect ")"
  let qualifier ← maybe (eat ".") (entityName boundName)
  let args ← maybe isOpenAngle (typeArgs g ctx)
  return .type (← since lo) .importType [source, qualifier, args, attributes]

/-- Whether a brace opens a mapped type. -/
def opensMapped : Parser Bool := looking do
  bump
  if ← isOneOf ["+", "-"] then
    bump
    isWord "readonly"
  else
    let _ ← eatWord "readonly"
    expect "["
    ensure (isReference ctx (← token))
    bump
    isWord "in"

/-- `{ readonly [K in T as N]?: V }` -/
def mappedType : Parser Tree := do
  let lo ← lo
  let mark (word : Parser Bool) (text : String) : Parser String := do
    if ← eat "+" then
      ensure (← word)
      return "+" ++ text
    else if ← eat "-" then
      ensure (← word)
      return "-" ++ text
    else if ← word then return text
    else return ""
  expect "\x7b"
  let readonly ← mark (eatWord "readonly") "readonly"
  expect "["
  let plo ← Parser.lo
  let name ← nameOf anyWord
  expectWord "in"
  let constraint ← typeOf g ctx
  let param := Tree.part (← since plo) (.typeParam []) [name, constraint, .absent]
  let nameType ← maybe (eatWord "as") (typeOf g ctx)
  expect "]"
  let isOptional ← mark (eat "?") "?"
  let value ← maybe (eat ":") (typeOf g ctx)
  semicolon
  expect "\x7d"
  return .type (← since lo) (.mapped readonly isOptional) [param, nameType, value]

/-- The label of a tuple's element. -/
def tupleLabel : Parser Tree := do
  let lo ← lo
  let dots ← eat "..."
  let o ← here
  let x ← anyWord
  let q ← eat "?"
  expect ":"
  let label := Tree.pat o (.binding x q) [.absent]
  return if dots then Tree.pat (.source lo (o.hi?.getD lo)) .rest [label, .absent] else label

def tupleElement : Parser Tree := do
  let lo ← lo
  let label := (← attempt tupleLabel).getD .absent
  let tlo ← Parser.lo
  let t ← do
    if ← eat "..." then
      let t ← typeOf g ctx
      pure (Tree.type (← since tlo) .rest [t])
    else
      let t ← typeOf g ctx
      if ← eat "?" then pure (Tree.type (← since tlo) .optional [t])
      else pure t
  return .type (← since lo) .tupleElem [label, t]

/-- Whether no element of a tuple is required behind an optional one. -/
def optionalLast : Bool → List Tree → Bool
  | _, [] => true
  | seen, .type _ .tupleElem [_, t] :: ts =>
      match t with
      | .type _ .rest _ => optionalLast seen ts
      | .type _ .optional _ => optionalLast true ts
      | _ => !seen && optionalLast seen ts
  | seen, _ :: ts => optionalLast seen ts

def literalType : Parser Tree := do
  let o ← here
  let lo ← lo
  match ← token with
  | .str value raw => bump; return .type o .constant [.expr o (.str value (some raw)) []]
  | .num raw => bump; return .type o .constant [.expr o (.num raw) []]
  | .bigint raw => bump; return .type o .constant [.expr o (.bigint raw) []]
  | .word "true" => bump; return .type o .constant [.expr o (.bool true) []]
  | .word "false" => bump; return .type o .constant [.expr o (.bool false) []]
  | .punct "-" =>
      bump
      match ← token with
      | .num raw =>
          bump
          let o ← since lo
          return .type o .constant [.expr o (.num ("-" ++ raw)) []]
      | .bigint raw =>
          bump
          let o ← since lo
          return .type o .constant [.expr o (.bigint ("-" ++ raw)) []]
      | _ => fail
  | .punct "`" =>
      let (holes, quasis) ← templateParts true (typeOf g ctx)
      return .type (← since lo) .template [.list holes, .list quasis]
  | _ => fail

/-- `this` as a type, or the claim `this is T`; `asserts` if that word came before. -/
def thisType (lo : Nat) (asserts : Bool) : Parser Tree := do
  let o ← here
  expectWord "this"
  let this := Tree.type o (.keyword "this") []
  let is := (← isWord "is") && (asserts || !(← newline))
  if is then
    bump
    let t ← claimedType g ctx
    return .type (← since lo) (.predicate asserts) [this, t]
  else if asserts then return .type (← since lo) (.predicate true) [this, .absent]
  else return this

def namedType (s : String) : Parser Tree := do
  let o ← here
  let lo ← lo
  let next ← peek
  if s == "asserts" && next == .word "this" then
    bump
    thisType g ctx lo true
  else if typeKeywords.contains s && next != .punct "." then
    bump
    return .type o (.keyword s) []
  else
    ensure (!isKeyword s || typeNameKeywords.contains s)
    typeRef g ctx

def primaryType : Parser Tree := do
  let lo ← lo
  match ← token with
  | .str _ _ | .num _ | .bigint _ | .punct "-" | .punct "`" | .word "true" | .word "false" => literalType g ctx
  | .word "this" => thisType g ctx lo false
  | .word "typeof" =>
      bump
      let subject ← if ← isWord "import" then importType g ctx else entityName anyWord
      let args ← typeArgsOnLine? g ctx
      return .type (← since lo) .query [subject, args]
  | .word "import" => importType g ctx
  | .word s => namedType g ctx s
  | .punct "\x7b" =>
      if ← opensMapped ctx then mappedType g ctx
      else
        let ms ← typeMembers g ctx
        return .type (← since lo) .literal ms
  | .punct "[" =>
      bump
      let ts ← commaList (isPunct "]") (tupleElement g ctx)
      expect "]"
      ensure (optionalLast false ts)
      return .type (← since lo) .tuple ts
  | .punct "(" =>
      bump
      let t ← typeOf g ctx
      expect ")"
      return .type (← since lo) .paren [t]
  | _ => fail

def postfixType : Parser Tree := do
  let lo ← lo
  let first ← primaryType g ctx
  repeatFrom first fun t => do
    if (← isPunct "[") && !(← newline) then
      bump
      if ← eat "]" then return some (.type (← since lo) .array [t])
      let i ← typeOf g ctx
      expect "]"
      return some (.type (← since lo) .indexed [t, i])
    return none

/-- The words that stand in front of a type as operators. -/
def typeOperators : List String := ["keyof", "unique", "readonly"]

/-- `infer T`, with a bound if it is not the start of a conditional type. -/
def inferType : Parser Tree := do
  let lo ← lo
  expectWord "infer"
  let plo ← Parser.lo
  let name ← nameOf anyWord
  let bound : Parser Tree := do
    expectWord "extends"
    let t ← g.type { ctx with noConditional := true }
    ensure (ctx.noConditional || !(← isPunct "?"))
    return t
  let constraint := (← attempt bound).getD .absent
  let param := Tree.part (← since plo) (.typeParam []) [name, constraint, .absent]
  return .type (← since lo) .infer [param]

def operatorType : Parser Tree := do
  let ops ← repeatFrom ([] : List (Nat × String)) fun acc => do
    match ← token with
    | .word s =>
        if typeOperators.contains s then
          let lo ← Parser.lo
          bump
          return some ((lo, s) :: acc)
        else return none
    | _ => return none
  let base ← if ← isWord "infer" then inferType g ctx else postfixType g ctx
  let hi ← prevHi
  return ops.foldl (fun t op => .type (.source op.1 hi) (.operator op.2) [t]) base

/-- Types joined by `mark`, one of which may also stand in front. -/
def joinedTypes (mark : String) (k : TypeKind) (operand : Parser Tree) : Parser Tree := do
  let lo ← lo
  let _ ← eat mark
  let first ← operand
  let ts ← repeatFrom [first] fun acc => do
    if ← eat mark then return some ((← operand) :: acc)
    return none
  if ts.length > 1 then return .type (← since lo) k ts.reverse
  else return first

def unionType : Parser Tree :=
  joinedTypes "|" .union (joinedTypes "&" .inter (operatorType g ctx))

/-- `(a: A) => B` -/
def functionType : Parser Tree := do
  let lo ← lo
  let tps ← typeParams? g ctx
  let ps ← signatureParams g ctx
  let r ← returnType g ctx "=>"
  return .type (← since lo) .func [ps, tps, r]

/-- `new (a: A) => B` -/
def constructorType : Parser Tree := do
  let lo ← lo
  let isAbstract ← eatWord "abstract"
  expectWord "new"
  let tps ← typeParams? g ctx
  let ps ← signatureParams g ctx
  let r ← returnType g ctx "=>"
  return .type (← since lo) (.construct isAbstract) [ps, tps, r]

/-- Whether a parenthesis opens the parameters of a function type. -/
def opensFunctionType : Parser Bool := looking do
  expect "("
  if ← isOneOf [")", "..."] then return true
  eatAccess
  let named := isReference ctx (← token) || (← isWord "this")
  if named then bump
  else
    ensure (← isOneOf ["\x7b", "["])
    let _ ← g.pattern ctx
  if ← isOneOf [":", ",", "?", "="] then return true
  expect ")"
  isPunct "=>"

def plainType : Parser Tree := do
  if (← isPunct "<") || (← opensFunctionType g ctx) then functionType g ctx
  else if (← isWord "new") || ((← isWord "abstract") && (← peek) == .word "new") then constructorType g ctx
  else unionType g ctx

def anyType : Parser Tree := do
  let lo ← lo
  let check ← plainType g ctx
  if !ctx.noConditional && (← isWord "extends") && !(← newline) then
    bump
    let bound ← plainType g { ctx with noConditional := true }
    expect "?"
    let yes ← typeOf g ctx
    expect ":"
    let no ← typeOf g ctx
    return .type (← since lo) .conditional [check, bound, yes, no]
  else return check

end FormCodemod.Grammar
