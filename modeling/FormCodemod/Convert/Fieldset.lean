import FormCodemod.Convert.Setting
import FormCodemod.Library.Wiring

/-!
# Access to fields

After the conversion every access to a field is spelled `fields["x"]`. Three rules bring a
module there, each applied everywhere, children before parents:

* `getFieldProps(x)` becomes `fields[x]`;
* the first argument of `getInputProps` is spelled out;
* any other `fields.x` is spelled out.
-/

namespace FormCodemod

namespace Fieldset

/-- `fields.x` becomes `fields["x"]`. -/
def spellOut : Tree → Tree
  | t@(.expr o .member [obj, .part ko (.key k) _]) =>
      if obj.ident? == some fieldsName then .expr o .member [obj, .part ko .index [Make.str k]] else t
  | t => t

/-- `getFieldProps(x)` becomes `fields[x]`. -/
def convertGetter : Tree → Tree
  | t@(.expr _ .call [callee, .list [arg], _]) =>
      if callee.isFieldPropsGetter && arg.spread?.isNone then Make.index (Make.ident fieldsName) arg else t
  | t => t

def spellOutArg : Tree → Tree
  | .part o .spread [e] => .part o .spread [spellOut e]
  | t => spellOut t

/-- `getInputProps(fields.x)` becomes `getInputProps(fields["x"])`. -/
def convertInputProps : Tree → Tree
  | t@(.expr o .call [callee, .list (arg :: args), targs]) =>
      if callee.ident? == some "getInputProps" then
        .expr o .call [callee, .list (spellOutArg arg :: args), targs]
      else t
  | t => t

def everywhere (f : Tree → Tree) (m : Module) : Module :=
  { m with items := Tree.mapUpAll Tree.nowhere f m.items }

def normalize (m : Module) : Module :=
  everywhere spellOut (everywhere convertInputProps (everywhere convertGetter m))

end Fieldset

end FormCodemod
