/-!
# Comments

Comments are kept beside the tree. Each hangs off an offset of the source: a leading
comment off the start of the token behind it, a trailing one off the end of the token
before it. Printing takes the comments of an offset when it comes to it, so a comment is
printed at most once, and one whose offset has left the tree is not printed at all.
-/

namespace FormCodemod

/-- A comment: the text between its marks. -/
structure Comment where
  isBlock : Bool
  text : String
  deriving DecidableEq, Repr, Inhabited

/-- The comments of a file by offset, those of one offset in their order. -/
structure Comments where
  leading : List (Nat × Comment) := []
  trailing : List (Nat × Comment) := []
  deriving DecidableEq, Repr, Inhabited

namespace Comments

def leadingAt (cs : Comments) (pos : Nat) : List Comment :=
  cs.leading.filterMap fun e => if e.1 == pos then some e.2 else none

def trailingAt (cs : Comments) (pos : Nat) : List Comment :=
  cs.trailing.filterMap fun e => if e.1 == pos then some e.2 else none

/-- What is left when the comments that lead at `pos` have been printed. -/
def dropLeading (cs : Comments) (pos : Nat) : Comments :=
  { cs with leading := cs.leading.filter fun e => e.1 != pos }

/-- What is left when the comments that trail at `pos` have been printed. -/
def dropTrailing (cs : Comments) (pos : Nat) : Comments :=
  { cs with trailing := cs.trailing.filter fun e => e.1 != pos }

/-- Hangs comments in front of `pos`, behind those already there. -/
def addLeading (cs : Comments) (pos : Nat) (new : List Comment) : Comments :=
  { cs with leading := cs.leading ++ new.map (pos, ·) }

/-- Hangs comments behind `pos`, behind those already there. -/
def addTrailing (cs : Comments) (pos : Nat) (new : List Comment) : Comments :=
  { cs with trailing := cs.trailing ++ new.map (pos, ·) }

@[simp] theorem leadingAt_dropLeading (cs : Comments) (pos : Nat) :
    (cs.dropLeading pos).leadingAt pos = [] := by
  simp [leadingAt, dropLeading]

@[simp] theorem trailingAt_dropTrailing (cs : Comments) (pos : Nat) :
    (cs.dropTrailing pos).trailingAt pos = [] := by
  simp [trailingAt, dropTrailing]

end Comments

end FormCodemod
