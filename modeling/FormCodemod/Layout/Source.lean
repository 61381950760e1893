import FormCodemod.Layout.Types
import FormCodemod.Layout.Markup
import FormCodemod.Layout.Statements
import FormCodemod.Grammar.Source

/-!
# Printing

`Tree.render` turns a tree into printers, children first, and `Source.print` prints a
file.
-/

namespace FormCodemod

open Printer

namespace Layout

/-- What a node prints between its comments. -/
def body (o : Origin) (k : Kind) (kids : List Rendered) : Printer :=
  match k with
  | .expr k => expr o k kids
  | .stmt k => stmt o k kids
  | .pat k => pat k kids
  | .prop k => prop k kids
  | .member k => member k kids
  | .markup k => markup k kids
  | .type k => type k kids
  | .item k => item k kids
  | .part k => part k kids

/-- Whether comments in front of a node of this kind are printed with it. -/
def keepsLeading : Kind → Bool
  | .markup (.element _ _) => false
  | .markup .fragment => false
  | .markup .container => false
  | .markup .empty => false
  | .markup .spreadChild => false
  | .markup (.text _ _) => false
  | .part (.quasi _) => false
  | .part .computed => false
  | .part .index => false
  | .stmt .breakTo => false
  | .stmt .continueTo => false
  | .item .importStar => false
  | .item (.importNamed _) => false
  | .member (.property m) => !m.accessor
  | _ => true

def isSpecifier : ItemKind → Bool
  | .importNamed _ | .importDefault | .importStar | .externalRef | .exportSpec _ | .exportStarAs => true
  | _ => false

/-- What ends a node that stands on its own. -/
def ending (o : Origin) (k : Kind) : Printer :=
  match k with
  | .expr _ => trailing o
  | .markup (.element _ _) => trailing o
  | .markup .fragment => trailing o
  | .pat (.field _) => nothing
  | .pat _ => trailing o
  | .stmt .block => nothing
  | .stmt (.vars _ _) => lit ";" ++ trailing o ++ line
  | .stmt (.using _) => lit ";" ++ trailing o ++ line
  | .stmt _ => trailing o ++ line
  | .item k => if isSpecifier k then nothing else trailing o ++ line
  | _ => nothing

end Layout

namespace Tree

mutual

def render : Tree → Rendered
  | node o k ts =>
      let kids := renderAll ts
      let body := Layout.body o k kids
      let bare := if Layout.keepsLeading k then leading o ++ body else body
      .mk (node o k ts) bare (bare ++ Layout.ending o k) kids
  | list ts => .mk (list ts) nothing nothing (renderAll ts)
  | absent => .mk absent nothing nothing []

def renderAll : List Tree → List Rendered
  | [] => []
  | t :: ts => render t :: renderAll ts

end

/-- Prints an item of a file, with the comments around it. -/
def printItem (t : Tree) : Printer := (render t).print ++ trailing t.origin

end Tree

namespace Module

/-- Prints a file: the comments in front of it, its items and the comments behind it. Every
item but a block ends its line. -/
def printer (m : Module) : Printer :=
  leading m.origin ++ (match m.interpreter with | some s => lit "#!" ++ lit s ++ line | none => nothing) ++
    seq (m.items.map Tree.printItem) ++ trailing m.origin

def print (m : Module) (comments : Comments) : String := (m.printer { comments }).text

end Module

namespace Source

def print (s : Source) : String := s.module.print s.comments

end Source

end FormCodemod
