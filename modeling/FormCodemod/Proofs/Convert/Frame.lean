import FormCodemod.Convert.Context
import FormCodemod.Convert.FieldHook
import FormCodemod.Convert.FieldMarkup
import FormCodemod.Convert.FormWrapper
import FormCodemod.Proofs.Imports.Ensured
import FormCodemod.Proofs.Tree.Places

/-!
# Scopes that do not use the library

A scope that does not use the form library (`Tree.usesLibrary`) is left as it is by every pass
(`convertScope_unchanged`). A traversal decides this that leaves alone the declarations of further
components, as those of the passes do.

One pass looks at more than that: the context hook is converted in every declaration of the
scope's own statements, also in one that looks like a component, such as
`const Ctx = useFormikContext(() => 1)`. A scope must be free of those too.
-/

namespace FormCodemod

/-! ## Traversals that find nothing -/

namespace Tree

variable {α : Type} {stop p : Tree → Bool} {t : Tree}

/-- A traversal that leaves `stop` nodes alone comes to no node with the property. -/
inductive Lacks (stop p : Tree → Bool) : Tree → Prop
  | stopped {o : Origin} {k : Kind} {ts : List Tree} : stop (.node o k ts) = true → Lacks stop p (.node o k ts)
  | node {o : Origin} {k : Kind} {ts : List Tree} : stop (.node o k ts) = false → p (.node o k ts) = false →
      (∀ t ∈ ts, Lacks stop p t) → Lacks stop p (.node o k ts)
  | list {ts : List Tree} : (∀ t ∈ ts, Lacks stop p t) → Lacks stop p (.list ts)
  | absent : Lacks stop p .absent

namespace Lacks

theorem of_any (h : t.any stop p = false) : Lacks stop p t := by
  induction t using ind with
  | node o k ts ih =>
      cases hs : stop (.node o k ts) with
      | true => exact .stopped hs
      | false =>
          rw [any_node_eq_false, hs] at h
          obtain ⟨hp, hts⟩ := h.resolve_left Bool.false_ne_true
          exact .node hs hp fun t ht => ih t ht (hts t ht)
  | list ts ih =>
      rw [any_list_eq_false] at h
      exact .list fun t ht => ih t ht (h t ht)
  | absent => exact .absent

/-- A search finds nothing where its traversal comes to nothing. -/
theorem any_eq_false (h : Lacks stop p t) : t.any stop p = false := by
  induction h with
  | stopped hs => exact any_node_eq_false.mpr (.inl hs)
  | node hs hp _ ih => exact any_node_eq_false.mpr (.inr ⟨hp, ih⟩)
  | list _ ih => exact any_list_eq_false.mpr ih
  | absent => rfl

/-- What a traversal comes to lacks the property, and so do its children. -/
theorem node_inv {o : Origin} {k : Kind} {ts : List Tree} (h : Lacks stop p (.node o k ts))
    (hs : stop (.node o k ts) = false) : p (.node o k ts) = false ∧ ∀ t ∈ ts, Lacks stop p t := by
  cases h with
  | stopped hs' => exact absurd hs' (by simp [hs])
  | node _ hp hts => exact ⟨hp, hts⟩

/-- A rule for nodes of a sort finds nothing where the traversal comes to none. -/
theorem outermost_eq_nil {f : Tree → Option α} (hf : ∀ u, p u = false → f u = none) (h : Lacks stop p t) :
    t.outermost stop f = [] := by
  induction h with
  | stopped hs => rw [outermost_node, if_pos hs]
  | node hs hp _ ih =>
      rw [outermost_node, if_neg (by simp [hs]), hf _ hp]
      exact List.flatMap_eq_nil_iff.mpr ih
  | list _ ih =>
      rw [outermost_list]
      exact List.flatMap_eq_nil_iff.mpr ih
  | absent => rfl

theorem collect_eq_nil {f : Tree → List α} (hf : ∀ u, p u = false → f u = []) (h : Lacks stop p t) :
    t.collect stop f = [] := by
  induction h with
  | stopped hs => rw [collect_node, if_pos hs]
  | node hs hp _ ih =>
      rw [collect_node, if_neg (by simp [hs]), hf _ hp]
      exact List.flatMap_eq_nil_iff.mpr ih
  | list _ ih =>
      rw [collect_list]
      exact List.flatMap_eq_nil_iff.mpr ih
  | absent => rfl

/-- A rule for nodes of a sort changes nothing where the traversal comes to none. -/
theorem mapUpM_eq_pure {m : Type → Type} [Monad m] [LawfulMonad m] {f : Tree → m Tree}
    (hf : ∀ u, p u = false → f u = pure u) (h : Lacks stop p t) : t.mapUpM stop f = pure t := by
  induction t using runInd (r := fun ts => (∀ t ∈ ts, Lacks stop p t) → mapUpAllM stop f ts = pure ts) with
  | node o k ts ih =>
      cases h with
      | stopped hs => rw [mapUpM, if_pos hs]
      | node hs hp hts => rw [mapUpM, if_neg (by simp [hs]), ih hts, pure_bind, hf _ hp]
  | list ts ih =>
      cases h with
      | list hts => rw [mapUpM, ih hts, pure_bind]
  | absent => rw [mapUpM]
  | nil => rfl
  | cons t ts iht ihts hts =>
      obtain ⟨ht, hts⟩ := List.forall_mem_cons.mp hts
      rw [mapUpAllM, iht ht, pure_bind, ihts hts, pure_bind]

end Lacks

/-- A rule that changes nothing may be applied all over a tree. -/
theorem mapUp_eq_self {f : Tree → Tree} (hf : ∀ u, f u = u) (t : Tree) : t.mapUp stop f = t :=
  mapUp_of_everywhere (Q := fun _ => True) (fun u _ => hf u) fun _ _ _ => trivial

end Tree

/-! ## Use of the library -/

def Element.isOfLibrary (names : LibraryNames) (e : Element) : Bool :=
  e.tag? == some names.formik || e.tag? == some names.form || e.tag? == some names.field ||
    e.tag? == some names.errorMessage || e.isWiredNative || e.fieldPropsSpread?.isSome

namespace Tree

def initial : Tree → Tree
  | .part _ (.declarator _) [_, e] => e
  | _ => .absent

def declaresHook (names : LibraryNames) (t : Tree) : Bool :=
  t.initial.unparen.calleeName? == some names.useFormikContext ||
    t.initial.unparen.calleeName? == some names.useField

def usesLibrary (names : LibraryNames) (t : Tree) : Bool :=
  t.declaresHook names || t.element?.any (Element.isOfLibrary names)

/-- The declarators of the variables that a body declares in its own statements. -/
def declarators (body : Tree) : List Tree :=
  ((statements? body).getD []).flatMap fun
    | .stmt _ (.vars _ _) ds => ds
    | _ => []

/-- What a traversal that leaves further components alone comes to does not use the library. -/
abbrev LacksLibrary (names : LibraryNames) (t : Tree) : Prop := Lacks opensScope (usesLibrary names) t

variable {names : LibraryNames} {body t : Tree}

/-- An element that does not use the library is none that the passes convert. -/
theorem element?_of_usesLibrary (h : t.usesLibrary names = false) {e : Element} (he : t.element? = some e) :
    e.isOfLibrary names = false := by
  rw [usesLibrary, Bool.or_eq_false_iff, he] at h
  exact h.2

/-- A declarator of a block is one of a component or is come to, and then it declares no hook. -/
theorem declarator_inv {o : Origin} {ss : List Tree} (h : LacksLibrary names (.stmt o .block ss)) {d : Tree}
    (hd : d ∈ declarators (.stmt o .block ss)) : d.opensScope = true ∨ d.declaresHook names = false := by
  obtain ⟨s, hs, hd⟩ := List.mem_flatMap.mp hd
  split at hd
  · next ds =>
      obtain ⟨-, hds⟩ := ((h.node_inv rfl).2 _ hs).node_inv rfl
      cases hds d hd with
      | stopped ho => exact .inl ho
      | node _ hp _ => exact .inr (Bool.or_eq_false_iff.mp hp).1
      | list _ => exact .inr rfl
      | absent => exact .inr rfl
  · cases hd

/-- A call stands in no parentheses. -/
theorem unparen_of_calleeName? {x : String} (h : t.calleeName? = some x) : t.unparen = t := by
  unfold calleeName? at h
  split at h
  · rfl
  · cases h

theorem callTo?_eq_none {x : String} (h : t.unparen.calleeName? ≠ some x) : t.callTo? x = none :=
  if_neg fun hx => h (beq_iff_eq.mp hx)

theorem eq_block_of_statements? {ss : List Tree} (h : body.statements? = some ss) :
    ∃ o, body = .stmt o .block ss := by
  unfold statements? at h
  split at h
  · cases h
    exact ⟨_, rfl⟩
  · cases h

end Tree

/-! ## The hooks -/

namespace Context

variable {hook : String} {s : Setting} {body : Tree}

theorem convertHook?_of_initial {d : Tree} (h : d.initial.calleeName? ≠ some hook) : d.convertHook? hook = none := by
  unfold Tree.convertHook?
  split
  · exact if_neg fun hc => h (beq_iff_eq.mp hc)
  · rfl

/-- Without the library the context pass leaves a scope as it is. The hooks of declared
components are asked for apart, since the pass looks at every declarator of the body. -/
theorem convertScope_of_lacks (h : Tree.LacksLibrary s.names body)
    (hown : ∀ d ∈ body.declarators, d.opensScope = true → d.initial.calleeName? ≠ some s.names.useFormikContext) :
    convertScope s body = body := by
  unfold convertScope
  split
  · rfl
  · next ss hss =>
      obtain ⟨o, rfl⟩ := Tree.eq_block_of_statements? hss
      have hnone : mapFirst? (Tree.convertHookIn? s.names.useFormikContext) ss = none := by
        refine mapFirst?_eq_none.mpr fun st hst => ?_
        unfold Tree.convertHookIn?
        split
        · next ds =>
            rw [Option.map_eq_none_iff]
            refine mapFirst?_eq_none.mpr fun d hd => convertHook?_of_initial ?_
            have hmem : d ∈ Tree.declarators (.stmt o .block ss) := List.mem_flatMap.mpr ⟨_, hst, hd⟩
            -- a declarator that the traversal leaves alone is looked at all the same
            rcases Tree.declarator_inv h hmem with ho | hno
            · exact hown d hmem ho
            · intro hcall
              simp [Tree.declaresHook, Tree.unparen_of_calleeName? hcall, hcall] at hno
        · rfl
      rw [hnone]

end Context

namespace FieldHook

variable {s : Setting} {body : Tree}

/-- A component's declarator holds no hook, and neither does one that calls none. -/
theorem ofDeclarator?_eq_none {names : LibraryNames} {d : Tree}
    (h : d.opensScope = true ∨ d.declaresHook names = false) : ofDeclarator? names.useField d = none := by
  unfold ofDeclarator?
  split
  · next o b po pb slots pt e =>
      -- a pattern of places binds no component, so the declarator is come to
      have hno : e.unparen.calleeName? ≠ some names.useField := by
        rcases h with ho | hno
        · cases ho
        · intro hcall
          simp [Tree.declaresHook, Tree.initial, hcall] at hno
      rw [Tree.callTo?_eq_none hno]
  · rfl

/-- In a scope without the library no statement has a field hook. -/
theorem convertStatement?_eq_none (h : Tree.LacksLibrary s.names body) {ss : List Tree} (hss : body.statements? = some ss)
    {st : Tree} (hst : st ∈ ss) (field form : String) : convertStatement? s.names.useField field form st = none := by
  obtain ⟨o, rfl⟩ := Tree.eq_block_of_statements? hss
  unfold convertStatement?
  split
  · next ds =>
      rw [Option.map_eq_none_iff]
      refine mapFirst?_eq_none.mpr fun d hd => ?_
      have hmem : d ∈ Tree.declarators (.stmt o .block ss) := List.mem_flatMap.mpr ⟨_, hst, hd⟩
      rw [convertDeclarator?, ofDeclarator?_eq_none (Tree.declarator_inv h hmem), Option.map_none]
  · rfl

/-- Statements without hooks are done as they are. -/
theorem foldl_step_eq {uses : List Use} {ss : List Tree}
    (h : ∀ st ∈ ss, ∀ field form, convertStatement? s.names.useField field form st = none) (p : Progress) :
    ss.foldl (step s uses) p = { p with done := p.done ++ ss } := by
  induction ss generalizing p with
  | nil => simp
  | cons st ss ih =>
      have hstep : step s uses p st = { p with done := p.done ++ [st] } := by
        rw [step, h st (List.mem_cons_self ..)]
      rw [List.foldl_cons, hstep, ih fun st hst => h st (List.mem_cons_of_mem _ hst)]
      simp

theorem dropAwait_nil (t : Tree) : dropAwait [] t = t := by
  have hno : ∀ e, callsSetter [] e = false := by
    intro e
    unfold callsSetter
    split
    · split
      · rfl
      · next obj _ _ => cases obj.ident? <;> rfl
      · rfl
    · rfl
  unfold dropAwait
  split
  · rw [hno, if_neg Bool.false_ne_true]
  · rfl

/-- Without the library the field hook pass leaves a scope as it is. -/
theorem convertScope_of_lacks (h : Tree.LacksLibrary s.names body) : convertScope s body = body := by
  unfold convertScope
  split
  · rfl
  · next ss hss =>
      dsimp only
      rw [foldl_step_eq fun st hst => convertStatement?_eq_none h hss hst]
      obtain ⟨o, rfl⟩ := Tree.eq_block_of_statements? hss
      exact Tree.mapUp_eq_self dropAwait_nil _

end FieldHook

/-! ## The markup -/

namespace FormWrapper

variable {s : Setting} {body : Tree}

theorem wrapper?_eq_none {names : LibraryNames} {t : Tree} (h : t.usesLibrary names = false) : wrapper? names t = none := by
  unfold wrapper?
  cases he : t.element? with
  | none => rfl
  | some e =>
      have hno := Tree.element?_of_usesLibrary h he
      simp only [Element.isOfLibrary, Bool.or_eq_false_iff] at hno
      rw [Option.filter_some, if_neg (by simp [hno])]

/-- Without the library the wrapper pass leaves a scope as it is, and succeeds. -/
theorem convertScope_of_lacks (h : Tree.LacksLibrary s.names body) : convertScope s body = .ok (body, {}) := by
  have hnone : wrappers s.names body = [] := h.outermost_eq_nil fun _ => wrapper?_eq_none
  simp [convertScope, site?, hnone]
  rfl

end FormWrapper

namespace FieldMarkup

variable {names : LibraryNames} {body : Tree}

theorem hookBinding_eq_nil {t : Tree} (h : t.usesLibrary names = false) : hookBinding names.useField t = [] := by
  unfold hookBinding
  split
  · next e =>
      have hno : e.unparen.calleeName? ≠ some names.useField := by
        intro hcall
        simp [Tree.usesLibrary, Tree.declaresHook, Tree.initial, hcall] at h
      rw [Tree.callTo?_eq_none hno]
      rfl
  · rfl

theorem fieldProps?_eq_none {a : Tree} (h : a.isFieldPropsSpread = false) (fieldset : String) (type : Tree) :
    Element.fieldProps? fieldset type a = none := by
  have hargs : a.spread?.bind Tree.fieldPropsArgs? = none := by
    cases hs : a.spread? with
    | none => rfl
    | some e => simpa [Tree.isFieldPropsSpread, hs] using h
  rw [Element.fieldProps?, hargs]

theorem convertFieldProps?_eq_none {e : Element} (h : e.fieldPropsSpread? = none) (fieldset : String) :
    e.convertFieldProps? fieldset = none := by
  rw [Element.convertFieldProps?, Option.map_eq_none_iff]
  refine mapFirst?_eq_none.mpr fun a ha => ?_
  exact fieldProps?_eq_none (by simpa using List.findIdx?_eq_none_iff.mp h a ha) _ _

theorem takeBinding?_nil (e : Element) : e.takeBinding? [] = none := by
  have hno : ∀ a, Element.spreadOf? [] a = none := by
    intro a
    simp [Element.spreadOf?]
  simp [Element.takeBinding?, hno]

/-- An element of another library is left as it is, and adds no needs. -/
theorem convertElement_eq_pure {e : Element} (h : e.isOfLibrary names = false) : convertElement names [] e = pure e := by
  simp only [Element.isOfLibrary, Bool.or_eq_false_iff, Option.isSome_eq_false_iff, Option.isNone_iff_eq_none] at h
  obtain ⟨⟨⟨⟨⟨-, hform⟩, hfield⟩, -⟩, hwired⟩, hspread⟩ := h
  simp [convertElement, hform, hfield, takeBinding?_nil, hwired, convertFieldProps?_eq_none hspread]

theorem convertNode_eq_pure {t : Tree} (h : t.usesLibrary names = false) : convertNode names [] t = pure t := by
  unfold convertNode
  cases he : t.element? with
  | none => rfl
  | some e =>
      have hno := Tree.element?_of_usesLibrary h he
      have hmessage : e.tag? ≠ some names.errorMessage := by
        simp only [Element.isOfLibrary, Bool.or_eq_false_iff] at hno
        exact beq_eq_false_iff_ne.mp hno.1.1.2
      simp [convertElement_eq_pure hno, hmessage, Tree.toTree_of_element? he]

/-- Without the library the markup pass leaves a scope as it is, and needs nothing. -/
theorem convertScope_of_lacks (h : Tree.LacksLibrary names body) : convertScope names body = (body, {}) := by
  have hbindings : hookBindings names.useField body = [] := h.collect_eq_nil fun _ => hookBinding_eq_nil
  have hmarkup : body.mapUpM Tree.opensScope (convertNode names []) = pure body :=
    h.mapUpM_eq_pure fun _ => convertNode_eq_pure
  unfold convertScope
  rw [hbindings]
  dsimp only
  rw [hmarkup]
  rfl

end FieldMarkup

/-! ## All passes -/

/-- A scope that does not use the library is left as it is by every pass and needs no symbol. The components
that are declared in it may use the library, but their declarators must not be calls of the context hook. -/
theorem convertScope_unchanged (s : Setting) (body : Tree)
    (h : body.any Tree.opensScope (Tree.usesLibrary s.names) = false)
    (hown : ∀ d ∈ body.declarators, d.opensScope = true → d.initial.calleeName? ≠ some s.names.useFormikContext) :
    Context.convertScope s body = body ∧ FieldHook.convertScope s body = body ∧
      FormWrapper.convertScope s body = .ok (body, {}) ∧ FieldMarkup.convertScope s.names body = (body, {}) := by
  have hlacks : Tree.LacksLibrary s.names body := .of_any h
  exact ⟨Context.convertScope_of_lacks hlacks hown, FieldHook.convertScope_of_lacks hlacks,
    FormWrapper.convertScope_of_lacks hlacks, FieldMarkup.convertScope_of_lacks hlacks⟩

/-- `{ const Row = () => <Field/>; return <Row/>; }` -/
def rowBody : Tree :=
  Make.block [Make.constNamed "Row" (Make.arrow [] (Make.element "Field" [] [])), Make.ret (Make.element "Row" [] [])]

/-- The field belongs to the scope of `Row`, so the scope around it is left as it is. -/
theorem rowBody_unchanged :
    rowBody.declarators.any Tree.opensScope = true ∧
      Context.convertScope ⟨{}, true⟩ rowBody = rowBody ∧ FieldHook.convertScope ⟨{}, true⟩ rowBody = rowBody ∧
      FormWrapper.convertScope ⟨{}, true⟩ rowBody = .ok (rowBody, {}) ∧
      FieldMarkup.convertScope {} rowBody = (rowBody, {}) :=
  ⟨by decide, convertScope_unchanged ⟨{}, true⟩ rowBody (by decide) (by decide)⟩

/-- `{ const Ctx = useFormikContext(() => x); }` -/
def contextBody : Tree :=
  Make.block [Make.constNamed "Ctx" (Make.callNamed "useFormikContext" [Make.arrow [] (Make.ident "x")])]

/-- The declaration looks like that of a component, which traversals leave alone, and yet its hook
is converted. -/
theorem convertScope_component :
    contextBody.any Tree.opensScope (Tree.usesLibrary {}) = false ∧
      Context.convertScope ⟨{}, false⟩ contextBody ≠ contextBody := by
  refine ⟨by decide, fun h => ?_⟩
  have hnames := congrArg (fun body => Tree.declaredNames body.statements) h
  revert hnames
  decide

end FormCodemod
