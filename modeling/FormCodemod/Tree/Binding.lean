import FormCodemod.Tree.Basic

/-!
# Bindings

The names that statements declare at their own level: those of variables, functions and
classes. `Tree.declares` asks for one name and `Tree.declaredNames` lists them all.
-/

namespace FormCodemod.Tree

/-! ### Patterns -/

mutual

def binds (x : String) : Tree → Bool
  | .pat _ (.binding y _) _ => y == x
  | .pat _ (.array _) [.list es, _] => anyBinds x es
  | .pat _ (.object _) [.list ps, _] => anyBinds x ps
  | .pat _ .keyValue [_, p] => binds x p
  | .pat _ .shorthand (b :: _) => binds x b
  | .pat _ .rest (p :: _) => binds x p
  | .pat _ .withDefault (p :: _) => binds x p
  | _ => false

def anyBinds (x : String) : List Tree → Bool
  | [] => false
  | t :: ts => binds x t || anyBinds x ts

end

mutual

def boundNames : Tree → List String
  | .pat _ (.binding y _) _ => [y]
  | .pat _ (.array _) [.list es, _] => allBoundNames es
  | .pat _ (.object _) [.list ps, _] => allBoundNames ps
  | .pat _ .keyValue [_, p] => boundNames p
  | .pat _ .shorthand (b :: _) => boundNames b
  | .pat _ .rest (p :: _) => boundNames p
  | .pat _ .withDefault (p :: _) => boundNames p
  | _ => []

def allBoundNames : List Tree → List String
  | [] => []
  | t :: ts => boundNames t ++ allBoundNames ts

end

/-! ### Statements -/

def declaredPattern : Tree → Tree
  | .part _ (.declarator _) (p :: _) => p
  | _ => .absent

def declares (x : String) : Tree → Bool
  | .stmt _ (.vars _ _) ds => ds.any fun d => d.declaredPattern.binds x
  | .stmt _ (.func _) (.part _ (.name y) _ :: _) => y == x
  | .stmt _ (.clazz _) (.part _ (.name y) _ :: _) => y == x
  | _ => false

def declared : Tree → List String
  | .stmt _ (.vars _ _) ds => ds.flatMap fun d => d.declaredPattern.boundNames
  | .stmt _ (.func _) (.part _ (.name y) _ :: _) => [y]
  | .stmt _ (.clazz _) (.part _ (.name y) _ :: _) => [y]
  | _ => []

def declaredNames (ss : List Tree) : List String := ss.flatMap declared

/-- The place of the first statement that declares the name. -/
def declarationOf? (x : String) (ss : List Tree) : Option Nat := ss.findIdx? (declares x)

def anyDeclares (x : String) (ss : List Tree) : Bool := (declarationOf? x ss).isSome

end FormCodemod.Tree
