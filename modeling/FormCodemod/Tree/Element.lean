import FormCodemod.Tree.Make
import FormCodemod.Tree.Shape
import FormCodemod.Text.Chars

/-!
# Elements

An element node taken apart (`Tree.element?`) and put together again (`Element.toTree`),
and its attributes. `AttrValue` is what an attribute says, whichever way it is written.
-/

namespace FormCodemod

/-- An element: its name, attributes and children. -/
structure Element where
  origin : Origin
  /-- It stands bare as the value of an attribute. -/
  asValue : Bool
  selfClosing : Bool
  name : Tree
  attrs : List Tree
  typeArgs : Tree
  children : List Tree
  /-- The name in the closing tag, absent if there is none. -/
  closing : Tree
  deriving Repr, Inhabited

namespace Element

def toTree (e : Element) : Tree :=
  .markup e.origin (.element e.selfClosing e.asValue)
    [e.name, .list e.attrs, e.typeArgs, .list e.children, e.closing]

/-- The tag, unless it is dotted or has a colon. -/
def tag? (e : Element) : Option String := e.name.tag?

/-- Gives an element another tag, in both of its places. -/
def rename (e : Element) (tag : String) : Element :=
  { e with
    name := Make.name tag
    closing := if e.closing.isAbsent then .absent else Make.name tag }

end Element

namespace Tree

def element? : Tree → Option Element
  | .markup origin (.element selfClosing asValue) [name, .list attrs, typeArgs, .list children, closing] =>
      some { origin, asValue, selfClosing, name, attrs, typeArgs, children, closing }
  | _ => none

theorem toTree_of_element? {t : Tree} {e : Element} (h : t.element? = some e) : e.toTree = t := by
  unfold element? at h
  split at h
  · cases h; rfl
  · cases h

@[simp] theorem element?_toTree (e : Element) : e.toTree.element? = some e := rfl

/-- The name of an attribute, unless it has a colon; a spread has none. -/
def attrName? : Tree → Option String
  | .markup _ .attr [.part _ (.key x) _, _] => some x
  | _ => none

def attrValue : Tree → Tree
  | .markup _ .attr [_, v] => v
  | _ => .absent

def spread? : Tree → Option Tree
  | .part _ .spread [e] => some e
  | _ => none

def asExpr : Tree → Tree
  | .markup o (.element s _) ts => .markup o (.element s false) ts
  | t => t

/-- White space or an empty container between tags. -/
def isLayout : Tree → Bool
  | .markup _ (.text v _) _ => v.toList.all Text.isBlank
  | .markup _ .container [.markup _ .empty _] => true
  | _ => false

end Tree

/-! ### Attributes -/

/-- What an attribute says. -/
inductive AttrValue
  /-- `a="x"` or `a={"x"}` -/
  | literal (s : String)
  /-- `a={e}` -/
  | expr (e : Tree)
  /-- `a` -/
  | bare
  | absent
  deriving Repr, Inhabited

namespace AttrValue

def ofAttr (attr : Tree) : AttrValue :=
  match attr.attrValue with
  | .absent => .bare
  | .expr _ (.str v _) _ => .literal v
  | .markup _ .container [.markup _ .empty _] => .absent
  | .markup _ .container [e] =>
      match e.string? with
      | some s => .literal s
      | none => .expr e
  | t => .expr t.asExpr

/-- The value as an expression: a bare attribute is `true`. -/
def toExpr? : AttrValue → Option Tree
  | literal s => some (Make.str s)
  | expr e => some e
  | bare => some (Make.bool true)
  | absent => none

/-- The value as an expression, where a bare attribute says nothing. -/
def unlessBare? : AttrValue → Option Tree
  | bare => none
  | v => v.toExpr?

end AttrValue

namespace Attrs

def find? (x : String) (attrs : List Tree) : Option Tree := attrs.find? fun a => a.attrName? == some x

/-- What the first attribute called `x` says. -/
def value (x : String) (attrs : List Tree) : AttrValue :=
  ((find? x attrs).map AttrValue.ofAttr).getD .absent

/-- The attributes without the first one called `x`. -/
def erase (x : String) (attrs : List Tree) : List Tree := attrs.eraseP fun a => a.attrName? == some x

end Attrs

end FormCodemod
