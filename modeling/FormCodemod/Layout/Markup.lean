import FormCodemod.Layout.Rendered

/-!
# Layout of markup

Markup adds no line breaks and no indentation: children stand side by side and text is
printed as it was read.
-/

namespace FormCodemod.Layout

open Printer

/-- An attribute among others; a spread has braces here. -/
def attr (a : Rendered) : Printer :=
  match a.tree with
  | .part _ .spread _ => lit "\x7b" ++ a.print ++ lit "\x7d"
  | _ => a.print

def markup (k : MarkupKind) (kids : List Rendered) : Printer :=
  match k, kids with
  | .element selfClosing _, [name, attrs, args, cs, closing] =>
      lit "<" ++ name.print ++ args.print ++ seq (attrs.items.map fun a => space ++ attr a) ++
        lit (if selfClosing then "/>" else ">") ++ seq cs.each ++ closing.around "</" ">"
  | .fragment, cs => lit "<>" ++ seq (cs.map Rendered.print) ++ lit "</>"
  | .tagMember, [e, k] => e.print ++ lit "." ++ k.print
  | .namespaced s x, _ => lit (s ++ ":" ++ x)
  | .attr, [x, v] => x.print ++ (if v.isPresent then lit "=" ++ v.bare else nothing)
  | .container, [e] => lit "\x7b" ++ e.print ++ lit "\x7d"
  | .empty, _ => nothing
  | .spreadChild, [e] => lit "\x7b..." ++ e.print ++ lit "\x7d"
  | .text _ raw, _ => lit raw
  | _, ts => seq (ts.map Rendered.print)

end FormCodemod.Layout
