import FormCodemod.Scope.Basic

/-!
# Walking the scopes

`Module.forEachScope` hands every scope of a module to a function, an outer scope before
those nested in what the function made of it. On the way it remembers whether the next
function it comes to is bound to a component's name (the state of `ScopeM`).

The walk goes level by level: `Tree.walkTo` runs through a tree up to its outermost
functions, `Tree.enter` treats one of them and starts the next level inside it. The size
of a tree bounds how deep its functions nest.
-/

namespace FormCodemod

/-- How the function of a scope is written. -/
inductive ScopeKind
  | function
  | arrow
  deriving DecidableEq, Repr, Inhabited

/-- A step of the walk; the state is whether the next function has a component's name. -/
abbrev ScopeM (m : Type → Type) := StateT Bool m

variable {m : Type → Type} [Monad m]

namespace Tree

def isDefaultFunction : Tree → Bool
  | .item _ .exportDefaultDecl [.expr _ .func [_, .part _ (.function _ _) _]] => true
  | _ => false

def isDefaultFunctionLike : Tree → Bool
  | .item _ .exportDefaultExpr [e] => e.isFunctionLike
  | _ => false

/-- Nodes that say of the next function that it is a component. -/
def announces (t : Tree) : Bool :=
  t.opensScope || t.isDefaultFunction || t.isDefaultFunctionLike

/-- Nodes that take back what they said when they end. -/
def retracts : Tree → Bool
  | .part _ (.declarator _) _ => true
  | .item _ .exportDefaultExpr _ => true
  | _ => false

def isFunction : Tree → Bool
  | .part _ (.function _ _) _ => true
  | .expr _ (.arrow _) _ => true
  | _ => false

/-- Classes: the methods inside are no scopes by themselves. -/
def isClass : Tree → Bool
  | .part _ (.clazz _) _ => true
  | _ => false

mutual

/-- Runs through a tree and leaves its outermost functions to `enter`. `inside` tells
whether the tree is part of another function or of a class. -/
def walkTo (enter : Bool → Tree → ScopeM m Tree) (inside : Bool) : Tree → ScopeM m Tree
  | t@(.node o k ts) =>
      if t.isFunction then enter inside t
      else do
        if t.announces then set true
        let ts ← walkAllTo enter (inside || t.isClass) ts
        if t.retracts then set false
        return .node o k ts
  | .list ts => do return .list (← walkAllTo enter inside ts)
  | .absent => pure .absent

def walkAllTo (enter : Bool → Tree → ScopeM m Tree) (inside : Bool) : List Tree → ScopeM m (List Tree)
  | [] => pure []
  | t :: ts => do
      let t ← walkTo enter inside t
      let ts ← walkAllTo enter inside ts
      return t :: ts

end

/-- Hands the body of a function to `f`. -/
def onBody (f : ScopeKind → Tree → m Tree) : Tree → m Tree
  | .part o (.function a g) [ps, body, tps, r] => do
      if body.isAbsent then return .part o (.function a g) [ps, body, tps, r]
      else return .part o (.function a g) [ps, ← f .function body, tps, r]
  | .expr o (.arrow a) [ps, body, tps, r] => do
      return .expr o (.arrow a) [ps, ← f .arrow body, tps, r]
  | t => pure t

/-- Treats one function: hands out its body if it is a scope, and goes on inside with
`deeper`. -/
def enter (f : ScopeKind → Tree → m Tree) (deeper : Tree → ScopeM m Tree) (inside : Bool) (t : Tree) :
    ScopeM m Tree := do
  let announced ← get
  set false
  let t ← if announced || !inside then (onBody f t : m Tree) else pure t
  let ts ← t.children.mapM deeper
  return t.withChildren ts

/-- Walks the scopes of a tree whose functions nest at most `n` deep. -/
def walk (f : ScopeKind → Tree → m Tree) : Nat → Bool → Tree → ScopeM m Tree
  | 0, _, t => pure t
  | n + 1, inside, t => walkTo (enter f (walk f n true)) inside t

end Tree

namespace Module

/-- Hands every scope of a module to `f`, an outer scope before the ones inside it, and
puts in place what `f` makes of it. What one item announces is still up in the next one,
unless it was used up or taken back. -/
def forEachScope (f : ScopeKind → Tree → m Tree) (mod : Module) : m Module := do
  let (items, _) ← (mod.items.mapM fun t => Tree.walk f (t.size + 1) false t).run false
  return { mod with items }

/-- The scopes of a module, in the order in which they are handed out. -/
def scopes (mod : Module) : List (ScopeKind × Tree) :=
  let note (k : ScopeKind) (body : Tree) : StateM (List (ScopeKind × Tree)) Tree := do
    modify fun seen => (k, body) :: seen
    return body
  ((mod.forEachScope note).run []).2.reverse

end Module

end FormCodemod
