import FormCodemod.Grammar.Types

/-!
# Patterns

What declarations, parameters and assignments bind. A declaration's pattern is read
directly; the pattern of an assignment, and the parameters of an arrow function, are first
read as expressions and turned into patterns when the operator or the arrow shows up
(`asPattern?`, `toTarget?`). What cannot stand in a pattern becomes an invalid one.
-/

namespace FormCodemod.Grammar

open Grammar.Parser

variable (g : Productions) (ctx : Context)

/-! ### Declared patterns -/

def patternElement : Parser Tree := do
  let lo ← lo
  let p ← g.pattern ctx
  if ← eat "=" then
    let e ← g.assignment ctx.withIn
    return .pat (← since lo) .withDefault [p, e]
  else return p

def bindingName : Parser Tree := do
  let o ← here
  let x ← boundName
  return .pat o (.binding x false) [.absent]

def restPattern (lo : Nat) : Parser Tree := do
  let p ← g.pattern ctx
  return .pat (← since lo) .rest [p, .absent]

def objectPatternProp : Parser Tree := do
  let lo ← lo
  if ← eat "..." then restPattern g ctx lo
  else
    let key ← propertyKey g ctx
    if ← eat ":" then
      let p ← patternElement g ctx
      return .pat (← since lo) .keyValue [key, p]
    else
      match key with
      | .part o (.key x) _ =>
          let d ← maybe (eat "=") (g.assignment ctx.withIn)
          return .pat (← since lo) .shorthand [.pat o (.binding x false) [.absent], d]
      | _ => fail

def arrayPatternElements : Parser (List Tree) := do
  let out ← repeatFrom ([] : List Tree) fun acc => do
    if ← isPunct "]" then return none
    if ← eat "," then return some (.absent :: acc)
    let lo ← lo
    let p ← if ← eat "..." then restPattern g ctx lo else patternElement g ctx
    unless ← isPunct "]" do expect ","
    return some (p :: acc)
  return out.reverse

def isBinding : Tree → Bool
  | .pat _ (.binding _ _) _ => true
  | _ => false

/-- Whether the last property of an object pattern, if it is the rest, has a plain name. -/
def restIsNamed (ps : List Tree) : Bool :=
  match ps.getLast? with
  | some (.pat _ .rest [p, _]) => isBinding p
  | _ => true

def anyPattern : Parser Tree := do
  let lo ← lo
  let mark : Parser Bool := if ctx.inDeclare then eat "?" else pure false
  match ← token with
  | .punct "[" =>
      bump
      let es ← arrayPatternElements g ctx
      expect "]"
      let q ← mark
      return .pat (← since lo) (.array q) [.list es, .absent]
  | .punct "\x7b" =>
      bump
      let ps ← commaList (isPunct "\x7d") (objectPatternProp g ctx)
      expect "\x7d"
      ensure (restIsNamed ps)
      let q ← mark
      return .pat (← since lo) (.object q) [.list ps, .absent]
  | _ => bindingName

/-! ### Assigned patterns -/

/-- Whether an expression may stand in an assigned pattern as it is. Some that cannot be
assigned to pass. -/
def isPlainElement : Tree → Bool
  | .expr _ .member _ => true
  | .expr _ .superMember _ => true
  | .expr _ .call _ => true
  | .expr _ .construct _ => true
  | .expr _ (.str _ _) _ => true
  | .expr _ (.num _) _ => true
  | .expr _ (.bigint _) _ => true
  | .expr _ (.bool _) _ => true
  | .expr _ .null _ => true
  | .expr _ (.regex _) _ => true
  | .expr _ .func _ => true
  | .expr _ .clazz _ => true
  | .expr _ .paren _ => true
  | .expr _ .template _ => true
  | .expr _ .asType _ => true
  | _ => false

/-- What an assignment inside a pattern assigns to, read as a pattern with a default. -/
def defaultTarget : Tree → Tree
  | .pat o .memberTarget kids => .expr o .member kids
  | t => t

mutual

/-- An expression read as the pattern it stands for. A pattern that `binds` declares its
names, others may also hold what can be assigned to. Nothing is returned for a literal that
holds functions. -/
def asPattern? (binds : Bool) : Tree → Option Tree
  | .expr o (.ident x) _ => some (.pat o (.binding x false) [.absent])
  | .expr o .array [.list es] => do
      return .pat o (.array false) [.list (← asElements? binds es), .absent]
  | .expr o .object [.list ps] => do
      return .pat o (.object false) [.list (← asProperties? binds ps), .absent]
  | .expr o (.assign "=") [target, value] => some (.pat o .withDefault [defaultTarget target, value])
  | t => some (if !binds && isPlainElement t then t else .pat t.origin .invalid [])

/-- The elements of an array literal as those of a pattern. Holes at the end are dropped,
and so is what would be the rest but is not the last. -/
def asElements? (binds : Bool) : List Tree → Option (List Tree)
  | [] => some []
  | .absent :: ts =>
      if ts.all Tree.isAbsent then some [] else do return .absent :: (← asElements? binds ts)
  | .part _ .spread [e] :: ts => do
      let p ← asPattern? binds e
      let ps ← asElements? binds ts
      return if ts.isEmpty then [.pat e.origin .rest [p, .absent]] else ps
  | t :: ts => do
      let p ← asPattern? binds t
      let ps ← asElements? binds ts
      return p :: ps

def asProperty? (binds : Bool) : Tree → Option Tree
  | .part o .spread [e] => do
      let inner ← asPattern? binds e
      return .pat o .rest [if binds && !isBinding inner then .pat o .invalid [] else inner, .absent]
  | .prop o .keyValue [key, value] => do return .pat o .keyValue [key, ← asPattern? binds value]
  | .prop o .withDefault [.part no (.name x) _, value] =>
      some (.pat o .shorthand [.pat no (.binding x false) [.absent], value])
  | .part o (.name x) _ => some (.pat o .shorthand [.pat o (.binding x false) [.absent], .absent])
  | _ => none

def asProperties? (binds : Bool) : List Tree → Option (List Tree)
  | [] => some []
  | t :: ts => do return (← asProperty? binds t) :: (← asProperties? binds ts)

end

/-- Whether an expression may be assigned to as it stands. What is in parentheses or has a
type is not looked at. -/
def isPlainTarget : Tree → Bool
  | .expr _ .superMember _ => true
  | .expr _ .paren _ => true
  | .expr _ .asType _ => true
  | .expr _ .satisfies _ => true
  | .expr _ .nonNull _ => true
  | .expr _ .instantiate _ => true
  | .expr _ (.chainMember _) _ => true
  | .expr _ (.chainCall _) _ => true
  | .expr _ .invalid _ => true
  | _ => false

/-- The left side of an assignment, read as what it binds. Only the operator `=` takes a
pattern apart. -/
def toTarget? (op : String) : Tree → Option Tree
  | .expr o (.ident x) _ => some (.pat o (.binding x false) [.absent])
  | .expr o .member kids => some (.pat o .memberTarget kids)
  | t@(.expr _ .array _) => if op == "=" then asPattern? false t else none
  | t@(.expr _ .object _) => if op == "=" then asPattern? false t else none
  | t => if isPlainTarget t then some t else none

/-- The left side of a loop over a collection. What is no name and no literal stays as it
is, even if nothing can be assigned to it. -/
def toLoopTarget? : Tree → Option Tree
  | .expr o (.ident x) _ => some (.pat o (.binding x false) [.absent])
  | t@(.expr _ .array _) => asPattern? false t
  | t@(.expr _ .object _) => asPattern? false t
  | t => some t

end FormCodemod.Grammar
