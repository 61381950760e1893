import FormCodemod.Grammar.Patterns

/-!
# Functions and classes

Parameters and bodies, and the members of classes.
-/

namespace FormCodemod.Grammar

open Grammar.Parser

variable (g : Productions) (ctx : Context)

def block : Parser Tree := do
  let lo ← lo
  let ss ← listInBraces (g.statement ctx true)
  return .stmt (← since lo) .block ss

/-- The body of a function. One without a body is only a signature. -/
def functionBody? : Parser Tree := do
  if ← isPunct "\x7b" then block g ctx.withIn
  else
    semicolon
    return .absent

def functionFrom (lo : Nat) (isAsync isGenerator : Bool) : Parser Tree := do
  let ctx := ctx.inFunction isAsync isGenerator
  let tps ← typeParams? g ctx
  let ps ← formalParams g { ctx with inParams := true }
  let r ← returnType? g ctx
  let body ← functionBody? g ctx
  return .part (← since lo) (.function isAsync isGenerator) [ps, body, tps, r]

/-! ### Class members -/

def constructorParam : Parser Tree := do
  let lo ← lo
  if ← eat "..." then restParam g ctx lo
  else
    let access ← eatModifier ["public", "protected", "private", "in", "out"]
    let override ← eatModifier ["override"]
    let readonly ← eatModifier ["readonly"]
    let modifiers := [access, override, readonly].filterMap id
    let p ← singleParam g ctx (← Parser.lo)
    if modifiers.isEmpty then return p
    else
      match p with
      | .pat _ (.binding _ _) _ | .pat _ .withDefault _ =>
          return .pat (← since lo) (.field (modifiers.filter fun s => s != "in" && s != "out")) [p]
      | _ => fail

def atMethod : Parser Bool := isOneOf ["(", "<"]

/-- Whether a member's name is followed by what only a property has behind it. -/
def atProperty : Parser Bool := isOneOf ["!", ":", "=", "\x7d", ";"]

/-- Whether a member's name is all of it, or only a property goes on here. -/
def endsProperty : Parser Bool := return (← atProperty) || (← atStatementEnd)

def isConstructorKey : Tree → Bool
  | .part _ (.key "constructor") _ => true
  | .expr _ (.str "constructor" _) _ => true
  | _ => false

def methodFrom (lo : Nat) (m : Modifiers) (role : String) (isAsync isGenerator : Bool) (key : Tree) :
    Parser Tree := do
  let f ← functionFrom g ctx lo isAsync isGenerator
  return .node (← since lo) (.member (.method m role)) [key, f]

def propertyFrom (lo : Nat) (m : Modifiers) (key : Tree) : Parser Tree := do
  ensure (!isConstructorKey key)
  let definite ← if m.optional then pure false else eat "!"
  let t ← typeAnn? g ctx
  let v ← maybe (eat "=") (g.assignment ctx.withIn)
  unless ← eatSemicolon do skipBad
  return .node (← since lo) (.member (.property { m with definite })) [key, v, t]

def constructorFrom (lo : Nat) (m : Modifiers) (key : Tree) : Parser Tree := do
  let _ ← typeParams? g ctx
  let ctx := ctx.inFunction false false
  let ps ← paramList (constructorParam g ctx)
  let _ ← typeAnn? g ctx
  let body ← functionBody? g ctx
  return .node (← since lo) (.member (.constructor m)) [key, ps, body]

/-- A method or property with the name of a modifier, just read; nothing if it was a
modifier. `asi` tells whether the end of a line ends a property. -/
def modifierAsName? (lo : Nat) (m : Modifiers) (o : Origin) (s : String) (asi : Bool) :
    Parser (Option Tree) := do
  let key := Tree.part o (.key s) []
  if ← atMethod then return some (← methodFrom g ctx lo m "" false false key)
  else if (← atProperty) || (asi && (← atStatementEnd)) then return some (← propertyFrom g ctx lo m key)
  else return none

/-- The modifiers behind those whose order is fixed. -/
def lateModifiers (m : Modifiers) : Parser Modifiers :=
  repeatFrom m fun m => do
    if (← isWord "static") && (← peek) == .punct "\x7b" then return none
    match ← eatModifier ["abstract", "readonly", "override", "static", "accessor"] with
    | some "abstract" => return some { m with isAbstract := true }
    | some "readonly" => return some { m with readonly := true }
    | some "override" => return some { m with override := true }
    | some "static" => return some { m with isStatic := true }
    | some "accessor" => return some { m with accessor := true }
    | _ => return none

def namedMember (lo : Nat) (m : Modifiers) : Parser Tree := do
  if ← eat "*" then
    let key ← memberKey g ctx
    methodFrom g ctx lo m "" false true key
  else
    let o ← here
    let key ←
      if m.readonly && (← isOneOf ["!", ":"]) then pure (Tree.part o (.key "readonly") [])
      else memberKey g ctx
    let optional ← eat "?"
    let m := { m with optional }
    if ← atMethod then
      ensure (!m.readonly)
      if isConstructorKey key then constructorFrom g ctx lo m key
      else methodFrom g ctx lo m "" false false key
    else
      let role :=
        match key with
        | .part _ (.key s) _ => if s == "get" || s == "set" then s else ""
        | _ => ""
      let isAccessor := role != "" && !(← atProperty) && !((← newline) && (← isPunct "*"))
      if !isAccessor && (← endsProperty) then propertyFrom g ctx lo m key
      else
        let isAsync : Bool := match key with | .part _ (.key "async") _ => true | _ => false
        if isAsync && !(← newline) then
          let override := (← eatModifier ["override"]).isSome
          let isGenerator ← eat "*"
          let key ← memberKey g ctx
          ensure (!isConstructorKey key)
          let optional ← if optional then pure true else eat "?"
          methodFrom g ctx lo { m with optional, override := m.override || override } "" true isGenerator key
        else
          ensure isAccessor
          let key ← memberKey g ctx
          methodFrom g ctx lo m role false false key

def staticBlock (lo : Nat) : Parser Tree := do
  let b ← block g (ctx.inFunction false false).withIn
  return .node (← since lo) (.member .staticBlock) [b]

def memberFrom (lo : Nat) (m : Modifiers) : Parser Tree := do
  let m ← lateModifiers m
  if m.isStatic && (← isPunct "\x7b") then staticBlock g ctx lo
  else if (← isWord "static") && (← peek) == .punct "\x7b" then
    bump
    staticBlock g ctx lo
  else if !m.isAbstract && !m.override && m.accessibility.isNone && (← opensIndex ctx) then
    let (ps, t) ← indexSignature g ctx
    return .node (← since lo) (.member (.index m)) [ps, t]
  else namedMember g ctx lo m

/-- A member of a class. The words `declare`, the one for who may use the member, `declare`
again and `static` come in this order, and each may also be the member's name. -/
def classMember : Parser Tree := do
  let lo ← lo
  let declareAsName? (m : Modifiers) : Parser (Modifiers × Option Tree) := do
    let o ← here
    if ← eatWord "declare" then
      match ← modifierAsName? g ctx lo m o "declare" true with
      | some t => return (m, some t)
      | none => return ({ m with declare := true }, none)
    else return (m, none)
  if ← eat ";" then return .node (← since lo) (.member .empty) []
  else
    let (m, named) ← declareAsName? {}
    match named with
    | some t => return t
    | none =>
        let access ← eatModifier ["public", "protected", "private", "in", "out"]
        let m := { m with accessibility := access.filter fun s => s != "in" && s != "out" }
        let (m, named) ← if m.declare then pure (m, none) else declareAsName? m
        match named with
        | some t => return t
        | none =>
            let o ← here
            if ← eatWord "static" then
              match ← modifierAsName? g ctx lo m o "static" false with
              | some t => return t
              | none => memberFrom g ctx lo { m with isStatic := true }
            else memberFrom g ctx lo m

/-! ### Heads of classes -/

/-- A dotted name with what its type is applied to. -/
def heritage : Parser Tree := do
  let lo ← lo
  let o ← here
  let first := Tree.expr o (.ident (← anyWord)) []
  let e ← repeatFrom first fun e => do
    if ← eat "." then
      let o ← here
      let key := Tree.part o (.key (← anyWord)) []
      return some (.expr (← since lo) .member [e, key])
    return none
  let args ← maybe isOpenAngle (typeArgs g ctx)
  return .part (← since lo) .heritage [e, args]

def heritages : Parser (List Tree) :=
  commaList (return (← isPunct "\x7b") || (← isWord "implements") || (← isWord "extends")) (heritage g ctx)

def superClass : Parser (Tree × Tree) := do
  match ← g.leftSide ctx with
  | .expr _ .instantiate [e, args] => return (e, args)
  | e => return (e, ← maybe isOpenAngle (typeArgs g ctx))

/-- A class from its type parameters on; `lo` is where the whole began. Of what is given
twice in its head only the first counts. -/
def classFrom (lo : Nat) (isAbstract : Bool) : Parser Tree := do
  let ctx := { ctx with awaitsColon := false }
  let tps ← typeParams? g ctx
  let none : Tree × Tree := (.absent, .absent)
  let (base, baseArgs) ←
    if ← eatWord "extends" then do
      let base ← superClass g ctx
      if ← eat "," then
        let _ ← heritages g ctx
      pure base
    else pure none
  if ← eatWord "extends" then
    let _ ← superClass g ctx
  let impls ← if ← eatWord "implements" then heritages g ctx else pure []
  if ← eatWord "implements" then
    let _ ← heritages g ctx
  let (base, baseArgs) ←
    if ← eatWord "extends" then do
      let late ← superClass g ctx
      pure (if base.isAbsent then late else (base, baseArgs))
    else pure (base, baseArgs)
  let ms ← listInBraces (classMember g ctx)
  return .part (← since lo) (.clazz isAbstract) [.list ms, base, tps, baseArgs, .list impls]

def optionalName : Parser Tree := do
  if isReference ctx (← token) || (← isWord "this") then nameOf boundName else return .absent

def className : Parser Tree := do
  ensure (!(← isWord "let"))
  nameOf boundName

end FormCodemod.Grammar
