import FormCodemod.Layout.Rendered

/-!
# Layout of types

Types stay on one line; the members of a type literal and of a mapped type stand on lines
of their own, each with a semicolon.
-/

namespace FormCodemod.Layout

open Printer

/-- A key of a type's member, in brackets if it is computed. -/
def memberKey (computed : Bool) (key : Rendered) : Printer :=
  if computed then lit "[" ++ key.print ++ lit "]" else key.print

def type (k : TypeKind) (kids : List Rendered) : Printer :=
  match k, kids with
  | .keyword s, _ => lit s
  | .ref, [name, args] => name.print ++ args.print
  | .qualified, [left, key] => left.print ++ lit "." ++ key.print
  | .query, [name, args] => lit "typeof " ++ name.print ++ args.print
  | .literal, ms => lines (ms.map fun m => m.print ++ lit ";")
  | .array, [t] => t.print ++ lit "[]"
  | .tuple, ts => lit "[" ++ commas (ts.map Rendered.listed) ++ lit "]"
  | .tupleElem, [label, t] => label.around "" ": " ++ t.print
  | .optional, [t] => t.print ++ lit "?"
  | .rest, [t] => lit "..." ++ t.print
  | .union, ts => sepBy (lit " | ") (ts.map Rendered.listed)
  | .inter, ts => sepBy (lit " & ") (ts.map Rendered.listed)
  | .conditional, [check, bound, yes, no] =>
      check.print ++ lit " extends " ++ bound.print ++ lit " ? " ++ yes.print ++ lit " : " ++ no.print
  | .infer, [p] => lit "infer " ++ p.print
  | .paren, [t] => parens t.print
  | .operator op, [t] => lit (op ++ " ") ++ t.print
  | .indexed, [t, i] => t.print ++ lit "[" ++ i.print ++ lit "]"
  | .mapped readonly optional, [p, name, t] =>
      let key :=
        match p.items with
        | [x, c, _] => x.print ++ lit " in " ++ c.print
        | _ => p.print
      lines [word (readonly != "") readonly ++ lit "[" ++ key ++ name.around " as " "" ++ lit "]" ++
        lit optional ++ lit ": " ++ t.print ++ lit ";"]
  | .constant, [e] => e.bare
  | .template, [holes, quasis] => templateOf holes quasis
  | .predicate asserts, [x, t] => word asserts "asserts" ++ x.print ++ t.around " is " ""
  | .importType, [source, q, args, attributes] =>
      lit "import(" ++ source.bare ++ attributes.around ", " "" ++ lit ")" ++ q.around "." "" ++ args.print
  | .func, [ps, tps, r] => tps.print ++ signatureParams ps ++ lit " => " ++ r.print
  | .construct isAbstract, [ps, tps, r] =>
      word isAbstract "abstract" ++ lit "new " ++ tps.print ++ signatureParams ps ++ lit " => " ++ r.print
  | .property readonly optional computed, [key, t] =>
      word readonly "readonly" ++ memberKey computed key ++ lit (if optional then "?" else "") ++ ofType t
  | .method optional computed, [key, ps, tps, r] =>
      memberKey computed key ++ lit (if optional then "?" else "") ++ tps.print ++ signatureParams ps ++ ofType r
  | .getter computed, [key, t] => lit "get " ++ memberKey computed key ++ lit "()" ++ ofType t
  | .setter computed, [key, p] => lit "set " ++ memberKey computed key ++ parens p.bare
  | .callable, [ps, tps, r] => tps.print ++ signatureParams ps ++ r.around " : " ""
  | .constructible, [ps, tps, r] => lit "new" ++ tps.around " " "" ++ signatureParams ps ++ ofType r
  | .index readonly, [ps, t] =>
      word readonly "readonly" ++ lit "[" ++ commas ps.eachPart ++ lit "]" ++ ofType t
  | _, ts => seq (ts.map Rendered.print)

end FormCodemod.Layout
