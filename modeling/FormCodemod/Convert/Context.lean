import FormCodemod.Convert.Capabilities
import FormCodemod.Library.Wiring
import FormCodemod.Scope.Walk

/-!
# The context hook

`const { values } = useFormikContext()` becomes `const form = useFormMetadata()` and a
helper for every capability the scope needs. One hook call is converted in a scope, the
first one that a variable is declared with.
-/

namespace FormCodemod

namespace Tree

/-- A declarator whose hook call was converted, and the pattern it had before. -/
def convertHook? (hook : String) : Tree → Option (Tree × Tree)
  | .part o (.declarator d) [p, .expr co .call [callee, args, targs]] =>
      if callee.ident? == some hook then
        some (.part o (.declarator d)
          [Make.binding formName, .expr co .call [Make.ident "useFormMetadata", args, targs]], p)
      else none
  | _ => none

/-- A statement whose first hook call was converted. -/
def convertHookIn? (hook : String) : Tree → Option (Tree × Tree)
  | .stmt o (.vars kw d) ds =>
      (mapFirst? (convertHook? hook) ds).map fun r => (.stmt o (.vars kw d) r.1, r.2.2)
  | _ => none

end Tree

namespace Context

def convertScope (s : Setting) (body : Tree) : Tree :=
  match body.statements? with
  | none => body
  | some ss =>
      match mapFirst? (Tree.convertHookIn? s.names.useFormikContext) ss with
      | none => body
      | some (ss, at_, p) =>
          let body := p.convertReads (body.withStatements ss)
          let uses := body.unwiredUses s.names
          let caps := Capabilities.resolve p.takenNames uses (Tree.declaredNames body.statements)
          let caps := { caps with fieldset := caps.fieldset || body.rendersFields s.names }
          let helpers := Capabilities.wholeHelper uses p.wholeBinding? ++ caps.helpers s formName
          body.withStatements (insertAt (at_ + 1) helpers body.statements)

def convert (s : Setting) (m : Module) : Module :=
  Id.run (m.forEachScope fun _ body => pure (convertScope s body))

end Context

end FormCodemod
