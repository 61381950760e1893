import FormCodemod.Grammar.Types
import FormCodemod.Text.Entity

/-!
# Markup

Elements, attributes and children. Between tags the text is read as it stands; inside a
tag names may hold hyphens and strings have no escapes.
-/

namespace FormCodemod.Grammar

open Grammar.Parser Text

variable (g : Productions) (ctx : Context)

/-! ### Names -/

def tagWord : Parser (Origin × String) := do
  ensure ((← get).here.head?.any isNameStart)
  modify fun c => c.reread fun cs =>
    let w := tagNameText cs
    (.tagName (String.ofList w), cs.drop w.length)
  let o ← here
  match ← token with
  | .tagName s => bump; return (o, s)
  | _ => fail

def attrName : Parser Tree := do
  let lo ← lo
  let (o, s) ← tagWord
  if ← eat ":" then
    let (_, t) ← tagWord
    return .markup (← since lo) (.namespaced s t) []
  else return .part o (.key s) []

def tagName : Parser Tree := do
  let lo ← lo
  let (o, s) ← tagWord
  if ← eat ":" then
    let (_, t) ← tagWord
    return .markup (← since lo) (.namespaced s t) []
  else
    repeatFrom (Tree.part o (.name s) []) fun left => do
      if ← eat "." then
        let (ko, k) ← tagWord
        return some (.markup (← since lo) .tagMember [left, .part ko (.key k) []])
      return none

/-- A tag as text, to compare the two ends of an element. -/
def tagText : Tree → String
  | .part _ (.name s) _ => s
  | .markup _ (.namespaced s t) _ => s ++ ":" ++ t
  | .markup _ .tagMember [left, .part _ (.key k) _] => tagText left ++ "." ++ k
  | _ => ""

/-- Stands on the bracket that ends a tag, which is one token whatever follows it. -/
def tagEnd : Parser Unit := do
  ensure (← isCloseAngle)
  modify fun c => c.reread fun cs => (.tagEnd, cs.drop 1)

/-! ### Attributes -/

/-- The text of a quoted attribute value as it counts: the feed of a line that ends with a
return is there twice. -/
def attrText : List Char → List Char
  | '\r' :: '\n' :: cs => '\r' :: '\n' :: '\n' :: attrText cs
  | c :: cs => c :: attrText cs
  | [] => []

def readAttrString (cs : List Char) : Token × List Char :=
  match cs with
  | q :: body =>
      let text := body.takeWhile (· != q)
      match body.drop text.length with
      | _ :: rest =>
          (.str (String.ofList (decodeEntities (attrText text))) (String.ofList (q :: text ++ [q])), rest)
      | [] => (.bad, [])
  | [] => (.bad, cs)

def attrString : Parser Tree := do
  ensure ((← get).here.head?.any fun q => q == '\x22' || q == '\x27')
  modify fun c => c.reread readAttrString
  stringLiteral

/-- The expression between braces; three points in front of it say nothing. -/
def braced : Parser Tree := do
  expect "\x7b"
  let _ ← eat "..."
  let e ← expression g ctx
  ensure (← isPunct "\x7d")
  return e

/-- Marks an element as standing bare behind an attribute's name. -/
def asAttrValue : Tree → Tree
  | .markup o (.element s _) ts => .markup o (.element s true) ts
  | t => t

def attrValue : Parser Tree := do
  let lo ← lo
  match ← token with
  | .punct "\x7b" =>
      let e ← braced g ctx
      bump
      return .markup (← since lo) .container [e]
  | .punct "<" =>
      let e ← g.element ctx
      bump
      return asAttrValue e
  | _ => attrString

def attrOrSpread : Parser Tree := do
  let lo ← lo
  if ← eat "\x7b" then
    let slo ← Parser.lo
    expect "..."
    let e ← g.assignment ctx
    let o ← since slo
    expect "\x7d"
    return .part o .spread [e]
  else
    let name ← attrName
    let value ← maybe (eat "=") (attrValue g ctx)
    return .markup (← since lo) .attr [name, value]

/-! ### Children -/

def markupText (cs : List Char) : List Char := cs.takeWhile fun c => c != '<' && c != '\x7b'

/-- Moves from the token that ends a tag or a container to the token behind the text that
follows, and returns that text. -/
def childText : Parser Tree := do
  let c ← get
  let text := markupText c.rest
  let rest := c.rest.drop text.length
  let hi := c.hi + text.length
  let (token, tail) : Token × List Char :=
    match rest with
    | [] => (.eof, [])
    | ch :: tail => (.punct (String.ofList [ch]), tail)
  set { c with
    token
    lo := hi
    hi := hi + (if rest.isEmpty then 0 else 1)
    newline := false
    prevHi := hi
    here := rest
    rest := tail }
  if text.isEmpty then return .absent
  else
    return .markup (.source c.hi hi)
      (.text (String.ofList (decodeEntities text)) (String.ofList text)) []

/-- The child in braces that the cursor stands on; ends on its closing brace. -/
def bracedChild : Parser Tree := do
  let lo ← lo
  let close (k : MarkupKind) (e : Tree) : Parser Tree := do
    ensure (← isPunct "\x7d")
    return .markup (.source lo (← get).hi) k [e]
  bump
  if ← isPunct "\x7d" then
    close .container (.markup .made .empty [])
  else if ← eat "..." then
    let e ← expression g ctx
    close .spreadChild e
  else
    let e ← expression g ctx
    close .container e

/-- The end of the current token, which ends the node that began at `lo`. -/
def throughToken (lo : Nat) : Parser Origin := return .source lo (← get).hi

/-- The children up to the closing tag, from the token that ends the opening one; ends on
the slash of the closing tag. -/
def children (inner : Parser Tree) : Parser (List Tree) := do
  let out ← repeatFrom (([] : List Tree), false) fun (acc, done) => do
    if done then return none
    let text ← childText
    let acc := if text.isAbsent then acc else text :: acc
    match ← token with
    | .punct "\x7b" => return some ((← bracedChild g ctx) :: acc, false)
    | .punct "<" =>
        if (← peek) == .punct "/" then
          bump
          return some (acc, true)
        else return some ((← inner) :: acc, false)
    | _ => fail
  return out.1.reverse

/-- An element or fragment. The cursor stands on its opening bracket, and ends on, not
behind, the last one, because what follows depends on where the element stands. -/
def openElement (inner : Parser Tree) : Parser Tree := do
  let lo ← lo
  expect "<"
  if ← isCloseAngle then
    tagEnd
    let cs ← children g ctx inner
    bump
    tagEnd
    return .markup (← throughToken lo) .fragment cs
  else
    let name ← tagName
    let args ← maybe (isPunct "<") (typeArgs g ctx)
    let attrs ← listUntil (return (← isPunct "/") || (← isCloseAngle)) (attrOrSpread g ctx)
    if ← eat "/" then
      tagEnd
      return .markup (← throughToken lo) (.element true false) [name, .list attrs, args, .list [], .absent]
    else
      tagEnd
      let cs ← children g ctx inner
      bump
      let closing ← tagName
      tagEnd
      ensure (tagText closing == tagText name)
      return .markup (← throughToken lo) (.element false false)
        [name, .list attrs, args, .list cs, closing]

end FormCodemod.Grammar
