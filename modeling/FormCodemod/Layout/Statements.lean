import FormCodemod.Layout.Expressions

/-!
# Layout of statements, classes, imports and exports
-/

namespace FormCodemod.Layout

open Printer

/-! ### Statements -/

/-- The statements between braces. Comments that lead the closing brace are printed in
front of it, and keep an empty block open. -/
def block (o : Origin) (ss : List Rendered) : Printer := fun w =>
  let body :=
    if ss.isEmpty && !leadsClosing w o then nothing
    else line ++ indented (sepBy line (ss.map Rendered.print)) ++ line
  (lit "\x7b" ++ body ++ leadingClosing o ++ lit "\x7d") w

/-- What is returned, in parentheses if a comment with a line end leads it. -/
def returned (e : Rendered) : Printer :=
  if e.isPresent then ledOr (parens e.print) (space ++ e.print) e else nothing

/-- Whether a declaration declares variables, and so ends in a semicolon. -/
def isVars : Tree → Bool
  | .stmt _ (.vars _ _) _ => true
  | .stmt _ (.using _) _ => true
  | _ => false

/-- What a loop begins with: variables without their semicolon, or what is on its own. -/
def loopStart (r : Rendered) : Printer := if isVars r.tree then r.bare else r.print

def members (ms : Rendered) : Printer := lines ms.each

def stmt (o : Origin) (k : StmtKind) (kids : List Rendered) : Printer :=
  match k, kids with
  | .block, ss => block o ss
  | .expr, [e] => keepingTrailing o (e.print ++ lit ";")
  | .empty, _ => lit ";"
  | .debugger, _ => lit "debugger;"
  | .ret, [e] => lit "return" ++ returned e ++ lit ";"
  | .throw, [e] => lit "throw " ++ ledOr (parens e.print) e.print e ++ lit ";"
  | .ifElse, [t, yes, no] =>
      lit "if (" ++ t.print ++ lit ") " ++ yes.print ++
        (if no.isPresent then when (isBlock yes.tree) space ++ lit "else " ++ no.print else nothing)
  | .forLoop, [init, test, update, body] =>
      lit "for(" ++ loopStart init ++ lit ";" ++ test.around " " "" ++ lit ";" ++ update.around " " "" ++ lit ")" ++
        body.print
  | .forIn, [l, r, body] => lit "for(" ++ loopStart l ++ lit " in " ++ r.print ++ lit ")" ++ body.print
  | .forOf isAwait, [l, r, body] =>
      lit (if isAwait then "for await (" else "for (") ++ loopStart l ++ lit " of " ++ r.print ++ lit ")" ++ body.print
  | .whileLoop, [t, body] => lit "while(" ++ t.print ++ lit ")" ++ body.print
  | .doWhile, [t, body] => lit "do " ++ body.print ++ lit "while (" ++ t.print ++ lit ")"
  | .switch, [e, cs] => lit "switch(" ++ e.print ++ lit ")" ++ lines cs.each
  | .breakTo, [l] => lit "break" ++ l.around " " "" ++ lit ";"
  | .continueTo, [l] => lit "continue" ++ l.around " " "" ++ lit ";"
  | .labeled, [l, s] => l.print ++ lit ": " ++ s.print
  | .tryCatch, [b, h, f] =>
      lit "try " ++ b.bare ++ h.around " " "" ++ (if f.isPresent then lit " finally" ++ f.bare else nothing)
  | .withScope, [e, s] => lit "with (" ++ e.print ++ lit ")" ++ s.print
  | .vars kw declare, ds => word declare "declare" ++ lit (kw ++ " ") ++ commas (ds.map Rendered.listed)
  | .using isAwait, ds => word isAwait "await" ++ lit "using " ++ commas (ds.map Rendered.listed)
  | .func declare, [name, f] =>
      match f.items with
      | [ps, body, tps, r] =>
          word declare "declare" ++ functionHead f.tree ++ space ++ name.print ++ functionTail ps body tps r
      | _ => nothing
  | .clazz declare, [name, c] =>
      word declare "declare" ++ classHead c.tree ++ space ++ name.print ++ classTypeParams c ++ c.print
  | .interface declare, [name, tps, hs, ms] =>
      word declare "declare" ++ lit "interface " ++ name.print ++ tps.print ++
        (if hs.items.isEmpty then nothing else lit " extends " ++ commas hs.eachListed) ++ space ++ ms.print
  | .typeAlias declare, [name, tps, t] =>
      word declare "declare" ++ lit "type " ++ name.print ++ tps.print ++ lit " = " ++ t.print ++ lit ";"
  | .enum declare isConst, [name, ms] =>
      word declare "declare" ++ word isConst "const" ++ lit "enum " ++ name.print ++ space ++ lit "\x7b" ++ line ++
        indented (sepBy (lit "," ++ line) ms.eachListed) ++ line ++ lit "\x7d"
  | .space declare kw, [names, body] =>
      word declare "declare" ++ word (kw != "") kw ++ sepBy (lit ".") names.each ++
        (if body.isPresent then space ++ body.print else nothing)
  | _, ts => seq (ts.map Rendered.print)

/-! ### Classes -/

def isPrivate : Tree → Bool
  | .part _ (.privateKey _) _ => true
  | _ => false

def accessibility (m : Modifiers) : Printer := word m.accessibility.isSome (m.accessibility.getD "")

/-- The words in front of a method. A private name says all but whether it is static. -/
def methodModifiers (key : Tree) (m : Modifiers) : Printer :=
  if isPrivate key then word m.isStatic "static"
  else
    accessibility m ++ word m.isStatic "static" ++ word m.isAbstract "abstract" ++ word m.override "override"

def propertyModifiers (key : Tree) (m : Modifiers) : Printer :=
  if m.accessor then
    accessibility m ++ word m.isStatic "static" ++ word m.isAbstract "abstract" ++
      word m.override "override" ++ lit "accessor "
  else if isPrivate key then
    accessibility m ++ word m.isStatic "static" ++ word m.override "override" ++ word m.readonly "readonly"
  else
    word m.declare "declare" ++ accessibility m ++ word m.isStatic "static" ++ word m.isAbstract "abstract" ++
      word m.override "override" ++ word m.readonly "readonly"

/-- The marks behind a property's name. That it is surely set is only said in front of a
type. -/
def propertyMarks (m : Modifiers) (t : Rendered) : Printer :=
  lit (if m.optional && !m.accessor then "?" else "") ++ lit (if m.definite && t.isPresent then "!" else "")

def member (k : MemberKind) (kids : List Rendered) : Printer :=
  match k, kids with
  | .constructor m, [_, ps, body] =>
      accessibility m ++ lit "constructor" ++ params ps ++ (if body.isPresent then body.bare else lit ";")
  | .method m role, [key, f] =>
      match f.items with
      | [ps, body, tps, r] =>
          when (!isPrivate key.tree) (leading key.origin) ++ methodModifiers key.tree m ++
            word (role != "") role ++ methodHead f.tree ++ propKey key ++
            lit (if m.optional && !isPrivate key.tree then "?" else "") ++ functionTail ps body tps r
      | _ => nothing
  | .property m, [key, v, t] =>
      propertyModifiers key.tree m ++ propKey key ++ propertyMarks m t ++ ofType t ++ v.around " = " "" ++ lit ";"
  | .index m, [ps, t] =>
      word m.readonly "readonly" ++ lit "[" ++ commas ps.eachPart ++ lit "]" ++ ofType t
  | .staticBlock, [b] => lit "static" ++ b.bare
  | .empty, _ => lit ";"
  | _, ts => seq (ts.map Rendered.print)

/-! ### Imports and exports -/

/-- The specifiers in braces, which are apart even around nothing. -/
def namedSpecifiers (ss : List Rendered) : Printer :=
  lit "\x7b " ++ commas (ss.map Rendered.listed) ++ lit (if ss.isEmpty then "\x7d" else " \x7d")

def isNamedSpecifier : Tree → Bool
  | .item _ (.importNamed _) _ => true
  | _ => false

/-- What a module is asked for. -/
def attributes (a : Rendered) : Printer := a.around " with " ""

/-- The specifiers of an import up to the module's name. -/
def importClause (ss : List Rendered) : Printer :=
  let free := ss.filter fun s => !isNamedSpecifier s.tree
  let named := ss.filter fun s => isNamedSpecifier s.tree
  let parts := free.map Rendered.print ++ (if named.isEmpty then [] else [namedSpecifiers named])
  if parts.isEmpty then nothing else commas parts ++ lit " from "

def item (k : ItemKind) (kids : List Rendered) : Printer :=
  match k, kids with
  | .importDecl typeOnly phase, [ss, source, a] =>
      lit "import " ++ word typeOnly "type" ++ word (phase != "") phase ++ importClause ss.items ++ source.bare ++
        attributes a ++ lit ";"
  | .importNamed typeOnly, [near, far] => word typeOnly "type" ++ far.around "" " as " ++ near.print
  | .importDefault, [near] => near.print
  | .importStar, [near] => lit "* as " ++ near.print
  | .importEquals isExport typeOnly, [name, r] =>
      word isExport "export" ++ lit "import " ++ word typeOnly "type" ++ name.print ++ lit " = " ++ r.print ++ lit ";"
  | .externalRef, [s] => lit "require(" ++ s.bare ++ lit ")"
  | .exportDecl, [d] => lit "export " ++ d.bare ++ when (isVars d.tree) (lit ";")
  | .exportNamed typeOnly, [ss, source, a] =>
      let isStar : Bool := ss.items.any fun s => match s.tree with | .item _ .exportStarAs _ => true | _ => false
      lit "export " ++ word typeOnly "type" ++ (if isStar then commas ss.each else namedSpecifiers ss.items) ++
        (if source.isPresent then lit " from " ++ source.bare ++ attributes a else nothing) ++ lit ";"
  | .exportSpec typeOnly, [near, far] => word typeOnly "type" ++ near.bare ++ far.around " as " ""
  | .exportStarAs, [x] => lit "* as " ++ x.bare
  | .exportAll typeOnly, [source, a] =>
      lit "export " ++ word typeOnly "type" ++ lit "* from " ++ source.bare ++ attributes a ++ lit ";"
  | .exportDefaultExpr, [e] => lit "export default " ++ e.print ++ lit ";"
  | .exportDefaultDecl, [d] => lit "export default " ++ d.bare
  | .exportAssign, [e] => lit "export = " ++ e.print
  | .exportAsNamespace, [x] => lit "export = " ++ x.print
  | _, ts => seq (ts.map Rendered.print)

/-! ### Parts -/

/-- The layout of what stands behind the name of a class and its type parameters. -/
def classTail (ms base baseArgs impls : Rendered) : Printer :=
  base.around " extends " "" ++ baseArgs.print ++
    (if impls.items.isEmpty then nothing else lit " implements " ++ commas impls.eachListed) ++ space ++ members ms

/-- Text with every line end written as a line feed. -/
def lineFeeds : List Char → List Char
  | '\r' :: '\n' :: cs => '\n' :: lineFeeds cs
  | '\r' :: cs => '\n' :: lineFeeds cs
  | c :: cs => c :: lineFeeds cs
  | [] => []

def part (k : PartKind) (kids : List Rendered) : Printer :=
  match k, kids with
  | .name s, _ => lit s
  | .key s, _ => lit s
  | .privateKey s, _ => lit ("#" ++ s)
  | .computed, [e] => lit "[" ++ e.print ++ lit "]"
  | .index, [e] => lit "[" ++ e.print ++ lit "]"
  | .spread, [e] => lit "..." ++ e.print
  | .superRef, _ => lit "super"
  | .importRef phase, _ => lit (if phase == "" then "import" else "import." ++ phase)
  | .clazz _, [ms, base, _, baseArgs, impls] => classTail ms base baseArgs impls
  | .declarator _, [p, e] => p.print ++ e.around " = " ""
  | .switchCase, [t, ss] =>
      (if t.isPresent then lit "case " ++ t.print else lit "default") ++ lit ":" ++ line ++
        indented (sepBy line ss.each) ++ line
  | .catchClause, [p, b] => lit "catch " ++ p.around "(" ")" ++ space ++ b.bare
  | .quasi raw, _ => lit (String.ofList (lineFeeds raw.toList))
  | .typeAnn, [t] => t.print
  | .typeArgs, ts => lit "<" ++ commas (ts.map Rendered.listed) ++ lit ">"
  | .typeParams, ts => lit "<" ++ commas (ts.map Rendered.listed) ++ lit ">"
  | .typeParam ms, [x, c, d] =>
      seq (ms.map fun m => lit (m ++ " ")) ++ x.print ++ c.around " extends " "" ++ d.around " = " ""
  | .heritage, [e, ts] => e.print ++ ts.print
  | .enumMember, [x, e] => x.bare ++ e.around " = " ""
  | .items, is =>
      lit "\x7b" ++ line ++ indented (sepBy line (is.map fun i => i.print ++ trailing i.origin)) ++ lit "\x7d"
  | _, ts => seq (ts.map Rendered.print)

end FormCodemod.Layout
