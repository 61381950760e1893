import FormCodemod.Tree.Kind

/-!
# The tree

`Tree` is the one type of nodes. A node has an origin, a kind and children; a group
(`Tree.list`) holds a run of children of the same role, and `Tree.absent` stands for a
child that is not there, so the children of a kind always have fixed places.

Origins tie a node to the text it was read from. Comments are kept beside the tree and
are found again through these offsets; a node that was made carries none.
-/

namespace FormCodemod

/-- Where a node comes from. -/
inductive Origin
  /-- Made by a conversion. -/
  | made
  /-- Made by a conversion, and printed below a line comment with this text. -/
  | noted (text : String)
  /-- Read from the source, from offset `lo` up to `hi`. -/
  | source (lo hi : Nat)
  deriving DecidableEq, Repr, Inhabited

/-- The tree of a source file. -/
inductive Tree
  | node (origin : Origin) (kind : Kind) (children : List Tree)
  | list (items : List Tree)
  | absent
  deriving Repr, Inhabited

/-- A source file: its statements, imports and exports, in order. -/
structure Module where
  origin : Origin
  items : List Tree
  /-- What follows `#!` on the first line, which names the program that runs the file. -/
  interpreter : Option String := none
  deriving Repr, Inhabited

namespace Origin

/-- The offset a node starts at, if it was read. -/
def lo? : Origin → Option Nat
  | source lo _ => some lo
  | _ => none

/-- The offset just behind a node, if it was read. -/
def hi? : Origin → Option Nat
  | source _ hi => some hi
  | _ => none

def through : Origin → Origin → Origin
  | source lo _, source _ hi => source lo hi
  | o, _ => o

end Origin

namespace Tree

@[match_pattern] abbrev expr (o : Origin) (k : ExprKind) (ts : List Tree) : Tree := .node o (.expr k) ts

@[match_pattern] abbrev stmt (o : Origin) (k : StmtKind) (ts : List Tree) : Tree := .node o (.stmt k) ts

@[match_pattern] abbrev pat (o : Origin) (k : PatKind) (ts : List Tree) : Tree := .node o (.pat k) ts

@[match_pattern] abbrev prop (o : Origin) (k : PropKind) (ts : List Tree) : Tree := .node o (.prop k) ts

@[match_pattern] abbrev markup (o : Origin) (k : MarkupKind) (ts : List Tree) : Tree :=
  .node o (.markup k) ts

@[match_pattern] abbrev type (o : Origin) (k : TypeKind) (ts : List Tree) : Tree := .node o (.type k) ts

@[match_pattern] abbrev item (o : Origin) (k : ItemKind) (ts : List Tree) : Tree := .node o (.item k) ts

@[match_pattern] abbrev part (o : Origin) (k : PartKind) (ts : List Tree) : Tree := .node o (.part k) ts

/-- The origin of a node; groups and absent children have none. -/
def origin : Tree → Origin
  | node o _ _ => o
  | _ => .made

def children : Tree → List Tree
  | node _ _ ts => ts
  | list ts => ts
  | absent => []

def withChildren : Tree → List Tree → Tree
  | node o k _, ts => node o k ts
  | list _, ts => list ts
  | absent, _ => absent

def isAbsent : Tree → Bool
  | absent => true
  | _ => false

@[simp] theorem children_node (o : Origin) (k : Kind) (ts : List Tree) : (node o k ts).children = ts := rfl
@[simp] theorem children_list (ts : List Tree) : (list ts).children = ts := rfl
@[simp] theorem children_absent : absent.children = [] := rfl

@[simp] theorem withChildren_children (t : Tree) : t.withChildren t.children = t := by
  cases t <;> rfl

/-! ### Size -/

mutual

def size : Tree → Nat
  | node _ _ ts => sizeAll ts + 1
  | list ts => sizeAll ts + 1
  | absent => 1

def sizeAll : List Tree → Nat
  | [] => 0
  | t :: ts => size t + sizeAll ts

end

end Tree

end FormCodemod
