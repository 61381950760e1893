import FormCodemod.Layout.Rendered

/-!
# Layout of expressions and patterns

Object and array literals have one item to a line; everything else stays on its line. The
body of an arrow, if it is an expression, is one level deeper. No parentheses are added or
removed, but for an expression behind `return` that a comment leads.
-/

namespace FormCodemod.Layout

open Printer

/-- A sign in front of the same sign needs a space between. -/
def signSpace (op : String) : Tree → String
  | .expr _ (.unary o) _ => if o == op && (op == "+" || op == "-") then " " else ""
  | .expr _ (.update o true) _ =>
      if (op == "+" && o == "++") || (op == "-" && o == "--") then " " else ""
  | _ => ""

def isBracketed : Tree → Bool
  | .part _ .index _ => true
  | .part _ .computed _ => true
  | _ => false

/-- The member behind an object, where `mark` is what links them if it is not in brackets. -/
def key (mark : String) (k : Rendered) : Printer :=
  if isBracketed k.tree then k.print else lit mark ++ k.print

/-- A number in digits alone, behind which one point would be part of the number. -/
def needsTwoPoints (raw : String) : Bool :=
  let ds := raw.toList.filter (· != '_')
  ds.all Text.isDigit && !(ds.length ≥ 2 && ds.head? == some '0')

/-- A point with the comments in front of it, where the key behind it is `n` characters
away. -/
def point (n : Nat) (k : Rendered) : Printer := leadingBefore n k.origin ++ lit "."

/-- The object of a member and the points behind it. -/
def memberObject (e k : Rendered) : Printer :=
  if isBracketed k.tree then
    match e.tree with
    | .expr _ (.num _) _ => e.bare
    | _ => e.print
  else
    match e.tree with
    | .expr _ (.num raw) _ => e.bare ++ when (needsTwoPoints raw) (point 2 k) ++ point 1 k
    | _ => e.print ++ point 1 k

def propKey (k : Rendered) : Printer := k.bare

/-- The items of a literal, one to a line, or nothing at all between the brackets. -/
def literalItems (left right : String) (ps : List Printer) : Printer :=
  if ps.isEmpty then lit (left ++ right)
  else lit left ++ line ++ indented (sepBy (lit "," ++ line) ps) ++ line ++ lit right

/-- The elements of an array. A hole at the end needs a comma behind it. -/
def withHole (es : Rendered) : List Printer :=
  let ps := es.eachListed
  let hole := (es.items.getLast?.map fun e => !e.isPresent).getD false
  ps.dropLast ++ ps.getLast?.toList.map (· ++ lit (if hole then ", " else ""))

/-! ### Comments in front of an operand -/

/-- A comment that ends its line or runs over several. -/
def endsLine (c : Comment) : Bool := !c.isBlock || c.text.toList.any Text.isNewline

/-- Whether comments lead an expression, or what stands first in it, of which one ends its
line or runs over several. -/
def isLed (cs : Comments) : Tree → Bool
  | .node o k ts =>
      (o.lo?.any fun lo => (cs.leadingAt lo).any endsLine) ||
        match k, ts with
        | .expr .call, t :: _ => isLed cs t
        | .expr .member, t :: _ => isLed cs t
        | .expr (.binary _), t :: _ => isLed cs t
        | .expr .cond, t :: _ => isLed cs t
        | .expr .seq, t :: _ => isLed cs t
        | .expr (.assign _), t :: _ => isLed cs t
        | .pat .memberTarget, t :: _ => isLed cs t
        | .expr (.chainMember _), t :: _ => isLed cs t
        | .expr (.chainCall _), t :: _ => isLed cs t
        | _, _ => false
  | _ => false

/-- Prints `p` if comments with a line end lead the expression, which then needs
parentheses, and `q` if not. -/
def ledOr (p q : Printer) (e : Rendered) : Printer := fun w => if isLed w.comments e.tree then p w else q w

/-! ### Functions and classes -/

def classHead (c : Tree) : Printer :=
  match c with
  | .part _ (.clazz isAbstract) _ => word isAbstract "abstract" ++ lit "class"
  | _ => lit "class"

def classTypeParams (c : Rendered) : Printer :=
  match c.items with
  | [_, _, tps, _, _] => tps.print
  | _ => nothing

def functionTail (ps body tps r : Rendered) : Printer :=
  tps.print ++ params ps ++ ofType r ++
    (if body.isPresent then space ++ body.bare else lit ";")

def functionHead (f : Tree) : Printer :=
  match f with
  | .part _ (.function isAsync isGenerator) _ =>
      word isAsync "async" ++ lit "function" ++ lit (if isGenerator then "*" else "")
  | _ => nothing

def methodHead (f : Tree) : Printer :=
  match f with
  | .part _ (.function isAsync isGenerator) _ =>
      word isAsync "async" ++ lit (if isGenerator then "*" else "")
  | _ => nothing

def isBlock : Tree → Bool
  | .stmt _ .block _ => true
  | _ => false

def expr (o : Origin) (k : ExprKind) (kids : List Rendered) : Printer :=
  match k, kids with
  | .ident s, _ => lit s
  | .str v raw, _ => lit (stringText v raw)
  | .num raw, _ => lit raw
  | .bigint raw, _ => lit raw
  | .bool b, _ => lit (if b then "true" else "false")
  | .null, _ => lit "null"
  | .regex raw, _ => lit raw
  | .template, [holes, quasis] => templateOf holes quasis
  | .tagged, [tag, args, t] => tag.print ++ args.print ++ t.bare
  | .this, _ => lit "this"
  | .privateName s, _ => lit ("#" ++ s)
  | .metaProp s, _ => lit s
  | .array, [es] =>
      literalItems "[" "]" (withHole es)
  | .object, [ps] => fun w =>
      if ps.items.isEmpty && leadsClosing w o then (lit "\x7b" ++ line ++ lit "\x7d") w
      else literalItems "\x7b" "\x7d" ps.eachListed w
  | .func, [name, f] =>
      match f.items with
      | [ps, body, tps, r] => functionHead f.tree ++ name.around " " "" ++ functionTail ps body tps r
      | _ => nothing
  | .arrow isAsync, [ps, body, tps, r] =>
      word isAsync "async" ++ tps.print ++ params ps ++ r.around ": " " " ++ lit "=>" ++
        (if isBlock body.tree then body.bare else indented body.print)
  | .clazz, [name, c] =>
      classHead c.tree ++ (if name.isPresent then space ++ name.print ++ classTypeParams c else nothing) ++ c.print
  | .unary op, [e] =>
      lit op ++ lit (if op.toList.head?.any Char.isAlpha then " " else signSpace op e.tree) ++ e.print
  | .update op before, [e] => if before then lit op ++ e.print else e.print ++ lit op
  | .binary op, [l, r] => l.print ++ lit (" " ++ op ++ " ") ++ r.print
  | .assign op, [l, r] => l.bare ++ lit (" " ++ op ++ " ") ++ r.print
  | .cond, [t, c, a] => t.print ++ lit " ? " ++ c.print ++ lit " : " ++ a.print
  | .seq, es => commas (es.map Rendered.listed)
  | .call, [f, as, ts] => f.print ++ ts.print ++ params as
  | .construct, [f, as, ts] =>
      lit "new " ++ f.print ++ ts.print ++ (if as.isPresent then params as else nothing)
  | .member, [e, k] => memberObject e k ++ k.print
  | .superMember, [k] => lit "super" ++ when (!isBracketed k.tree) (point 1 k) ++ k.print
  | .chainMember link, [e, k] =>
      e.print ++ lit (if link then "?." else "") ++ key (if link then "" else ".") k
  | .chainCall link, [f, as, _] => f.print ++ lit (if link then "?." else "") ++ params as
  | .paren, [e] => parens e.print
  | .await, [e] => lit "await " ++ e.print
  | .yield delegate, [e] =>
      lit "yield" ++ lit (if delegate then "*" else "") ++
        (if e.isPresent then ledOr (parens e.print) (space ++ e.print) e else nothing)
  | .asType, [e, t] => e.print ++ lit " as " ++ t.print
  | .asConst, [e] => e.print ++ lit " as const"
  | .satisfies, [e, t] => e.print ++ lit " satisfies " ++ t.print
  | .nonNull, [e] => e.print ++ lit "!"
  | .instantiate, [e, ts] => e.print ++ ts.print
  | .invalid, _ => lit "<invalid>"
  | _, es => seq (es.map Rendered.print)

def pat (k : PatKind) (kids : List Rendered) : Printer :=
  match k, kids with
  | .binding x optional, [t] => lit x ++ lit (if optional then "?" else "") ++ ofType t
  | .array optional, [es, t] =>
      lit "[" ++ commas (withHole es) ++ lit "]" ++ lit (if optional then "?" else "") ++ ofType t
  | .object optional, [ps, t] => braced ps.eachPart ++ lit (if optional then "?" else "") ++ ofType t
  | .rest, [p, t] => lit "..." ++ p.print ++ ofType t
  | .withDefault, [p, e] => p.print ++ lit " = " ++ e.print
  | .keyValue, [k, p] => propKey k ++ lit ": " ++ p.print
  | .shorthand, [x, e] => x.bare ++ e.around " = " ""
  | .memberTarget, [e, k] => memberObject e k ++ k.print
  | .field ms, [p] => seq (ms.map fun m => lit (m ++ " ")) ++ p.bare
  | .invalid, _ => lit "<invalid>"
  | _, ts => seq (ts.map Rendered.print)

def prop (k : PropKind) (kids : List Rendered) : Printer :=
  match k, kids with
  | .keyValue, [k, v] => propKey k ++ lit ": " ++ v.print
  | .withDefault, [x, v] => x.print ++ lit "=" ++ v.print
  | .method, [k, f] =>
      match f.items with
      | [ps, body, tps, r] => methodHead f.tree ++ propKey k ++ space ++ functionTail ps body tps r
      | _ => nothing
  | .getter, [k, t, b] => lit "get " ++ propKey k ++ lit " ()" ++ ofType t ++ space ++ b.bare
  | .setter, [k, first, p, b] =>
      lit "set " ++ propKey k ++ space ++ parens (first.around "" ", " ++ p.print) ++ b.bare
  | _, ts => seq (ts.map Rendered.print)

end FormCodemod.Layout
