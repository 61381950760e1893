import FormCodemod.Tree.Basic

/-!
# Shapes of expressions

The questions the conversion asks of an expression: which name it is, which string, which
member of what. Parentheses are looked through, other wrappers are not.
-/

namespace FormCodemod.Tree

def unparen : Tree → Tree
  | .expr _ .paren [e] => unparen e
  | t => t

def string? (t : Tree) : Option String :=
  match t.unparen with
  | .expr _ (.str v _) _ => some v
  | _ => none

def ident? (t : Tree) : Option String :=
  match t.unparen with
  | .expr _ (.ident x) _ => some x
  | _ => none

def calleeName? : Tree → Option String
  | .expr _ .call (callee :: _) => callee.ident?
  | _ => none

def callTo? (x : String) (t : Tree) : Option Tree :=
  if t.unparen.calleeName? == some x then some t.unparen else none

/-- The fixed key of a member: `k` in `a.k` and in `a["k"]`. -/
def key? : Tree → Option String
  | .part _ (.key k) _ => some k
  | .part _ .index [e] => e.string?
  | _ => none

/-- The fixed key an expression reads off the variable `x`. -/
def memberOf? (x : String) (t : Tree) : Option String :=
  match t.unparen with
  | .expr _ .member [obj, k] => if obj.ident? == some x then k.key? else none
  | _ => none

/-! ### Functions -/

mutual

/-- A function, or a call that is handed one, such as `memo(() => ...)`. -/
def isFunctionLike : Tree → Bool
  | .expr _ .paren [e] => isFunctionLike e
  | .expr _ (.arrow _) _ => true
  | .expr _ .func _ => true
  | .expr _ .call [_, .list args, _] => anyFunctionLike args
  | _ => false

def anyFunctionLike : List Tree → Bool
  | [] => false
  | t :: ts => isFunctionLike t || anyFunctionLike ts

end

/-! ### Tags -/

/-- The tag of an element's name, unless it is dotted or has a colon. -/
def tag? : Tree → Option String
  | .part _ (.name x) _ => some x
  | _ => none

end FormCodemod.Tree
