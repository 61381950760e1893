import FormCodemod.Convert.Capabilities
import FormCodemod.Library.Wiring
import FormCodemod.Scope.Walk

/-!
# The field hook

`const [{ value }, meta, { setValue }] = useField(name)` becomes
`const [field, form] = useField(name)`, followed by a declaration of each name that the
old pattern bound. The setters that are made do not return a promise, so an `await` in
front of their calls goes away.
-/

namespace FormCodemod

/-- A field hook, taken apart. -/
structure FieldHook where
  /-- What the hook's result was bound to, place by place. -/
  slots : List Tree
  /-- The name of the field. -/
  name : Tree
  /-- The type of the field's value, absent if it is not said. -/
  valueType : Tree
  deriving Repr, Inhabited

namespace FieldHook

/-- The name that a hook's first place is bound to. -/
def firstName? : List Tree → Option String
  | .pat _ (.binding x _) _ :: _ => some x
  | _ => none

def ofDeclarator? (hook : String) : Tree → Option FieldHook
  | .part _ (.declarator _) [.pat _ (.array _) [.list slots, _], e] =>
      match e.callTo? hook with
      | some (.expr _ .call [_, .list args, targs]) =>
          some
            { slots
              name := (args.head?.map fun a => a.fieldName).getD (Make.str "field")
              valueType := targs.children.head?.getD .absent }
      | _ => none
  | _ => none

def rebind (field form : String) : Tree → Tree
  | .part o (.declarator d) [_, e] => .part o (.declarator d) [Make.arrayPat [field, form], e]
  | t => t

/-- The hook of a declarator, and the declarator with its new pattern. -/
def convertDeclarator? (hook field form : String) (d : Tree) : Option (Tree × FieldHook) :=
  (ofDeclarator? hook d).map fun h => (rebind ((firstName? h.slots).getD field) form d, h)

/-- The first hook of a statement, and the statement with its new pattern. -/
def convertStatement? (hook field form : String) : Tree → Option (Tree × FieldHook)
  | .stmt o (.vars kw d) ds =>
      (mapFirst? (convertDeclarator? hook field form) ds).map fun r =>
        (.stmt o (.vars kw d) r.1, r.2.2)
  | _ => none

/-! ### What the old pattern bound -/

/-- `field.k` -/
def fieldMember (field k : String) : Tree := Make.member (Make.ident field) k

def firstError (field : String) : Tree :=
  .expr .made (.chainMember true) [fieldMember field "errors", .part .made .index [.expr .made (.num "0") []]]

/-- What a key of the meta data becomes. -/
def metaMember (field k : String) : Tree := if k == "error" then firstError field else fieldMember field k

def valueDecls (field : String) (slot : Tree) : List Tree :=
  slot.takenKeys.map fun e => Make.constNamed e.2 (fieldMember field e.1)

def metaDecls (uses : List Use) (field : String) (slot : Tree) : List Tree :=
  match slot with
  | .pat _ (.binding x _) _ =>
      if uses.contains (.ref x) then
        [Make.constNamed x <| Make.object
          [Make.keyValue "value" (fieldMember field "value"), Make.keyValue "error" (firstError field),
            Make.keyValue "initialValue" (fieldMember field "initialValue")]]
      else []
  | _ => slot.takenKeys.map fun e => Make.constNamed e.2 (metaMember field e.1)

def setValue (s : Setting) (h : FieldHook) (form : String) : Tree :=
  let value :=
    if s.typed then
      Make.typedParam "value" (if h.valueType.isAbsent then Make.keywordType "any" else h.valueType) false
    else Make.binding "value"
  Make.arrow [value, s.param "shouldValidate" "boolean" true] <|
    Make.call (Make.member (Make.ident form) "update")
      [Make.object
        [Make.keyValue "name" h.name, Make.name "value",
          Make.keyValue "validated" (Make.doubleNot (Make.ident "shouldValidate"))]]

def setTouched (s : Setting) : Tree :=
  Make.arrow [s.param "_" "boolean" false, s.param "__" "boolean" true] (Make.block [])

/-- The name under which the third place takes the setter `k`; the last one counts. -/
def takenSetter? (k : String) (slot : Tree) : Option String := slot.takenNames.get? k

/-- The declarations of what the third place bound, and the names of setters among them. A
setter that is called by its own name and not declared is declared too. -/
def helperDecls (s : Setting) (uses : List Use) (taken : List String) (h : FieldHook) (form : String)
    (slot : Tree) : List Tree × List String :=
  let whole : List Tree × List String :=
    match slot with
    | .pat _ (.binding x _) _ =>
        if uses.contains (.ref x) then
          ([Make.constNamed x <| Make.object
            [Make.keyValue "setValue" (setValue s h form), Make.keyValue "setTouched" (setTouched s)]], [x])
        else ([], [])
    | _ => ([], [])
  let named (k : String) : Option String :=
    (takenSetter? k slot).or (if uses.contains (.call k) && !taken.contains k then some k else none)
  let values := (named "setValue").toList
  let touched := (named "setTouched").toList
  (whole.1 ++ values.map (Make.constNamed · (setValue s h form)) ++
    touched.map (Make.constNamed · (setTouched s)), whole.2 ++ values ++ touched)

/-! ### Scopes -/

/-- Where the conversion of a scope's hooks has got to. -/
structure Progress where
  /-- The statements before this place are done. -/
  done : List Tree
  /-- Names that are in use. -/
  taken : List String
  /-- Setters that were made. -/
  setters : List String
  /-- The number of hooks so far. -/
  count : Nat

def step (s : Setting) (uses : List Use) (p : Progress) (stmt : Tree) : Progress :=
  let mark := if p.count == 0 then "" else toString p.count
  let field := freshName ("field" ++ mark) p.taken
  let form := freshName ("form" ++ mark) p.taken
  match convertStatement? s.names.useField field form stmt with
  | none => { p with done := p.done ++ [stmt] }
  | some (stmt, h) =>
      let field := (firstName? h.slots).getD field
      let taken := form :: field :: p.taken
      let slot (n : Nat) : Tree := (h.slots[n]?).getD .absent
      let helpers := helperDecls s uses taken h form (slot 2)
      { done := p.done ++ [stmt] ++ valueDecls field (slot 0) ++ metaDecls uses field (slot 1) ++ helpers.1
        taken := helpers.2 ++ taken
        setters := p.setters ++ helpers.2
        count := p.count + 1 }

/-- Whether an expression calls a setter, or a member of an object of setters. -/
def callsSetter (setters : List String) (t : Tree) : Bool :=
  match t.unparen with
  | .expr _ .call (callee :: _) =>
      match callee.unparen with
      | .expr _ (.ident x) _ => setters.contains x
      | .expr _ .member (obj :: _) => obj.ident?.any setters.contains
      | _ => false
  | _ => false

/-- `await setValue(x)` becomes `setValue(x)`. -/
def dropAwait (setters : List String) : Tree → Tree
  | t@(.expr _ .await [e]) => if callsSetter setters e then e else t
  | t => t

def convertScope (s : Setting) (body : Tree) : Tree :=
  match body.statements? with
  | none => body
  | some ss =>
      let start : Progress := { done := [], taken := Tree.declaredNames ss, setters := [], count := 0 }
      let p := ss.foldl (step s body.uses) start
      (body.withStatements p.done).mapUp Tree.opensScope (dropAwait p.setters)

def convert (s : Setting) (m : Module) : Module :=
  Id.run (m.forEachScope fun _ body => pure (convertScope s body))

end FieldHook

end FormCodemod
