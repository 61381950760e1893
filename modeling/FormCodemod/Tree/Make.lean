import FormCodemod.Tree.Basic

/-!
# Made nodes

The pieces of code that a conversion puts in. They have no place in the source and carry
no comments, except for a declaration made with a note above it.
-/

namespace FormCodemod.Make

/-! ### Expressions -/

def ident (x : String) : Tree := .expr .made (.ident x) []

def str (s : String) : Tree := .expr .made (.str s none) []

def bool (b : Bool) : Tree := .expr .made (.bool b) []

/-- `x` where it is not an expression: a tag, a shorthand property, the local name of an
import. -/
def name (x : String) : Tree := .part .made (.name x) []

def key (x : String) : Tree := .part .made (.key x) []

def call (callee : Tree) (args : List Tree) : Tree := .expr .made .call [callee, .list args, .absent]

def callNamed (f : String) (args : List Tree) : Tree := call (ident f) args

def member (obj : Tree) (k : String) : Tree := .expr .made .member [obj, key k]

def index (obj k : Tree) : Tree := .expr .made .member [obj, .part .made .index [k]]

def methodCall (obj k : String) (args : List Tree) : Tree := call (member (ident obj) k) args

/-- `!!e` -/
def doubleNot (e : Tree) : Tree := .expr .made (.unary "!") [.expr .made (.unary "!") [e]]

def paren (e : Tree) : Tree := .expr .made .paren [e]

def keyValue (k : String) (v : Tree) : Tree := .prop .made .keyValue [key k, v]

def object (props : List Tree) : Tree := .expr .made .object [.list props]

def arrow (params : List Tree) (body : Tree) : Tree :=
  .expr .made (.arrow false) [.list params, body, .absent, .absent]

/-! ### Patterns and types -/

def binding (x : String) : Tree := .pat .made (.binding x false) [.absent]

def keywordType (s : String) : Tree := .type .made (.keyword s) []

def typedParam (x : String) (type : Tree) (optional : Bool) : Tree :=
  .pat .made (.binding x optional) [.part .made .typeAnn [type]]

def arrayPat (xs : List String) : Tree := .pat .made (.array false) [.list (xs.map binding), .absent]

def objectPat (xs : List String) : Tree :=
  .pat .made (.object false) [.list (xs.map fun x => .pat .made .shorthand [binding x, .absent]), .absent]

/-! ### Statements -/

def block (ss : List Tree) : Tree := .stmt .made .block ss

/-- `const p = e` as a statement of the given origin. -/
def constFrom (o : Origin) (p e : Tree) : Tree :=
  .stmt o (.vars "const" false) [.part .made (.declarator false) [p, e]]

def const (p e : Tree) : Tree := constFrom .made p e

def constNamed (x : String) (e : Tree) : Tree := const (binding x) e

def exprStmt (e : Tree) : Tree := .stmt .made .expr [e]

def ret (e : Tree) : Tree := .stmt .made .ret [e]

/-! ### Markup -/

def attr (x : String) (value : Tree) : Tree := .markup .made .attr [key x, value]

def stringAttr (x s : String) : Tree := attr x (str s)

def container (e : Tree) : Tree := .markup .made .container [e]

def exprAttr (x : String) (e : Tree) : Tree := attr x (container e)

def spread (e : Tree) : Tree := .part .made .spread [e]

/-- An element with children, or one that closes itself if it has none. -/
def element (tag : String) (attrs children : List Tree) : Tree :=
  if children.isEmpty then
    .markup .made (.element true false) [name tag, .list attrs, .absent, .list [], .absent]
  else
    .markup .made (.element false false) [name tag, .list attrs, .absent, .list children, name tag]

def fragment (children : List Tree) : Tree := .markup .made .fragment children

/-! ### Imports -/

/-- `x`, or `x as y` if it is used under another name. -/
def importSpecifier (x y : String) : Tree :=
  if x == y then .item .made (.importNamed false) [name x, .absent]
  else .item .made (.importNamed false) [name y, name x]

def importDecl (source : String) (specifiers : List Tree) : Tree :=
  .item .made (.importDecl false "") [.list specifiers, str source, .absent]

end FormCodemod.Make
