import FormCodemod.Scope.Basic
import FormCodemod.Tree.Element

/-!
# Use of names

The names a scope refers to and the names it calls. Binding a name is no use of it, and
the scopes nested inside are not looked at. A caller may leave out attributes: those that
wire an input to the form, which the conversion drops.
-/

namespace FormCodemod

/-- One use of a name. -/
inductive Use
  | ref (x : String)
  | call (x : String)
  deriving DecidableEq, Repr, Inhabited

/-- Which attributes are left out: those that `strip` names, on the elements that `wired`
names. The type arguments of such an element are left out too. -/
structure Skip where
  wired : Element → Bool
  strip : Tree → Bool

def Skip.none : Skip := { wired := fun _ => false, strip := fun _ => false }

namespace Tree

def ownUses : Tree → List Use
  | .expr _ (.ident x) _ => [.ref x]
  | .part _ (.name x) _ => [.ref x]
  | t => (t.calleeName?.map Use.call).toList

mutual

def usesWith (s : Skip) : Tree → List Use
  | t@(.node o k ts) =>
      if t.opensScope then []
      else
        match o, k, ts with
        | o, .markup (.element sc av), [name, .list attrs, targs, .list cs, closing] =>
            let e : Element := ⟨o, av, sc, name, attrs, targs, cs, closing⟩
            if s.wired e then
              usesWith s name ++ usesKept s attrs ++ allUsesWith s cs ++ usesWith s closing
            else
              usesWith s name ++ allUsesWith s attrs ++ usesWith s targs ++ allUsesWith s cs ++
                usesWith s closing
        | _, _, ts => ownUses t ++ allUsesWith s ts
  | .list ts => allUsesWith s ts
  | .absent => []

def allUsesWith (s : Skip) : List Tree → List Use
  | [] => []
  | t :: ts => usesWith s t ++ allUsesWith s ts

/-- The uses in the attributes that are not left out. -/
def usesKept (s : Skip) : List Tree → List Use
  | [] => []
  | t :: ts => (if s.strip t then [] else usesWith s t) ++ usesKept s ts

end

/-- The uses of names in a tree, all attributes included. -/
def uses (t : Tree) : List Use := t.usesWith .none

def refersTo (x : String) (t : Tree) : Bool := t.uses.contains (.ref x)

end Tree

end FormCodemod
