/-!
# Fresh names
-/

namespace FormCodemod

/-- The first of `base1`, `base2`, ... from `base` followed by `n` on that is not taken,
looking at no more than `tries` of them. -/
def freshFrom (base : String) (taken : List String) : Nat → Nat → String
  | 0, _ => base
  | tries + 1, n =>
      let x := base ++ toString n
      if taken.contains x then freshFrom base taken tries (n + 1) else x

/-- `base`, or the first of `base1`, `base2`, ... that is not taken. Of one more names than
are taken one is free. -/
def freshName (base : String) (taken : List String) : String :=
  if taken.contains base then freshFrom base taken (taken.length + 1) 1 else base

/-- Names in use for other names: what a module calls an imported thing, or what a pattern
calls a key. -/
abbrev Renaming := List (String × String)

namespace Renaming

def get? (r : Renaming) (x : String) : Option String := r.lookup x

/-- Puts `y` in use for `x`, in place of what was. -/
def insert (r : Renaming) (x y : String) : Renaming :=
  if r.any (·.1 == x) then r.map fun e => if e.1 == x then (x, y) else e else r ++ [(x, y)]

end Renaming

end FormCodemod
