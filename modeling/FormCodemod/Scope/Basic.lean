import FormCodemod.Tree.Make
import FormCodemod.Tree.Shape
import FormCodemod.Tree.Traversal

/-!
# Component scopes

The conversion works on one component at a time. A scope is the body of a function that
is bound to a capitalized name, directly or through a call such as `memo(...)`, that is a
default export, or that is not nested in another function. Inside a scope, declarations
of further components are left alone (`Tree.opensScope`): their bodies are scopes of
their own.
-/

namespace FormCodemod

def isComponentName (x : String) : Bool := x.toList.head?.any Char.isUpper

namespace Tree

/-- `const Name = <function>` with a capitalized name. -/
def declaresComponent : Tree → Bool
  | .part _ (.declarator _) [.pat _ (.binding x _) _, e] => isComponentName x && e.isFunctionLike
  | _ => false

/-- `function Name() {}` with a capitalized name. -/
def isComponentFunction : Tree → Bool
  | .stmt _ (.func _) [.part _ (.name x) _, .part _ (.function _ _) _] => isComponentName x
  | _ => false

/-- A declaration whose function is a scope of its own. -/
def opensScope (t : Tree) : Bool := t.isComponentFunction || t.declaresComponent

/-! ### Bodies -/

def statements? : Tree → Option (List Tree)
  | .stmt _ .block ss => some ss
  | _ => none

/-- The statements of a body, where `=> e` counts as `{ return e; }`. -/
def statements (body : Tree) : List Tree := (statements? body).getD [Make.ret body]

/-- A body with other statements; an expression becomes a block. -/
def withStatements : Tree → List Tree → Tree
  | .stmt o .block _, ss => .stmt o .block ss
  | _, ss => Make.block ss

@[simp] theorem statements_withStatements (body : Tree) (ss : List Tree) :
    (body.withStatements ss).statements = ss := by
  unfold withStatements
  split <;> rfl

end Tree

end FormCodemod
