import FormCodemod.Proofs.Fieldset.Normal
import FormCodemod.Proofs.FieldMarkup.Leftover

/-!
# What markup needs

Converted markup may read from the fields of the form. Whether that of a scope will is predicted before any markup is
converted (`Tree.rendersFields`), and what it needs is collected when it is (`FieldMarkup.needsOf`). The prediction is
sound (`FieldMarkup.rendersFields_of_needs`), but for forms that are taken for error messages.

An element is looked at when the markup inside of it is converted already, so it matters what that has brought into its
attributes. Where nothing reads from the fields, elements become the form's element, or inputs of a field hook, or stay what
they are (`Element.Quiet`), and none of this makes a wire (`FieldMarkup.wireless_converted`). So no element around them
becomes a wired input that was none before.
-/

namespace FormCodemod

namespace Tree

variable {t : Tree} {o : Origin} {k : Kind} {ts : List Tree}

/-! ## Wires -/

def isWireName (x : String) : Bool := x == "handleChange" || x == "handleBlur"

/-- Whether a member is a wire, by the variable that its object is and by its fixed key. -/
def isWireMember (obj key : Option String) : Bool :=
  obj == some "values" || key.any fun k => k == "handleChange" || k == "handleBlur" || k == "values"

/-- Whether a node is a wire, by the variables and the fixed keys that its children are. -/
def wireOf : Kind → List (Option String × Option String) → Bool
  | .expr (.ident x), _ => isWireName x
  | .part (.name x), _ => isWireName x
  | .pat (.binding x _), _ => isWireName x
  | .expr .member, [obj, key] => isWireMember obj.1 key.2
  | .expr (.chainMember _), [obj, key] => isWireMember obj.1 key.2
  | .pat .memberTarget, [obj, key] => isWireMember obj.1 key.2
  | _, _ => false

/-- Whether a node is a wire can be told from the names and keys of its children. -/
theorem isWire_node (o : Origin) (k : Kind) (ts : List Tree) :
    (node o k ts).isWire = wireOf k (ts.map fun t => (t.ident?, t.key?)) := by
  cases k with
  | expr k => cases k <;> (rcases ts with _ | ⟨obj, _ | ⟨key, _ | ⟨c, ts⟩⟩⟩ <;> rfl)
  | pat k => cases k <;> (rcases ts with _ | ⟨obj, _ | ⟨key, _ | ⟨c, ts⟩⟩⟩ <;> rfl)
  | part k => cases k <;> rfl
  | _ => rfl

/-- There is no wire in the tree, in whatever scope. -/
abbrev Wireless (t : Tree) : Prop := Lacks nowhere isWire t

/-- A tree is without wires if its top is none and its children are without. -/
theorem wireless_node : Wireless (node o k ts) ↔ (node o k ts).isWire = false ∧ ∀ t ∈ ts, Wireless t :=
  ⟨fun h => h.node_inv rfl, fun h => .node rfl h.1 h.2⟩

theorem wireless_list : Wireless (.list ts) ↔ ∀ t ∈ ts, Wireless t := ⟨Lacks.list_inv, .list⟩

/-- A node of markup is no wire itself. -/
theorem wireless_markup {k : MarkupKind} : Wireless (.markup o k ts) ↔ ∀ t ∈ ts, Wireless t :=
  wireless_node.trans (and_iff_right rfl)

theorem wireless_attrValue (h : Wireless t) : Wireless t.attrValue := by
  unfold attrValue
  split
  · exact wireless_markup.mp h _ (by simp)
  · exact .absent

theorem wireless_asExpr (h : Wireless t) : Wireless t.asExpr := by
  unfold asExpr
  split
  · exact wireless_markup.mpr (wireless_markup.mp h)
  · exact h

theorem wireless_unparen (h : Wireless t) : Wireless t.unparen := by
  fun_induction unparen t with
  | case1 o e ih => exact ih ((wireless_node.mp h).2 e (List.mem_singleton.mpr rfl))
  | case2 t => exact h

theorem wireless_spread? {v : Tree} (h : Wireless t) (hv : t.spread? = some v) : Wireless v := by
  unfold spread? at hv
  split at hv
  · cases hv
    exact (wireless_node.mp h).2 v (List.mem_singleton.mpr rfl)
  · cases hv

theorem wireless_ident {x : String} (h : Wireless t) (hx : t.ident? = some x) : Wireless (Make.ident x) := by
  obtain ⟨o, ts, heq⟩ := ident?_eq_some.mp hx
  have hnode := wireless_unparen h
  rw [heq] at hnode
  exact wireless_node.mpr ⟨(wireless_node.mp hnode).1, nofun⟩

/-- What attributes without wires say is without wires. -/
theorem carried_wireless : Carried Wireless where
  absent := .absent
  str := wireless_node.mpr ⟨rfl, nofun⟩
  bool := wireless_node.mpr ⟨rfl, nofun⟩
  keyValue h := wireless_node.mpr ⟨rfl, by simpa [Make.key, wireless_node, isWire_node, wireOf, isWireName] using h⟩
  contained h := wireless_markup.mp h _ (List.mem_singleton.mpr rfl)

theorem wireless_attr {ko : Origin} {x : String} (h : Wireless t) :
    Wireless (.markup o .attr [.part ko (.key x) [], t]) :=
  wireless_markup.mpr (by simpa [wireless_node, isWire_node, wireOf, isWireName] using h)

theorem wireless_inputProps {field : Tree} {options : List Tree} (hfield : Wireless field)
    (hoptions : ∀ t ∈ options, Wireless t) : Wireless (Make.inputProps field options) := by
  simpa [Make.inputProps, Make.spread, Make.callNamed, Make.call, Make.ident, Make.object, wireless_node, wireless_list,
    isWire_node, wireOf, isWireName, Lacks.absent] using And.intro hfield hoptions

/-- Attributes without wires stay so when they are moved or made. -/
theorem closed_wireless : Attrs.Closed Wireless Wireless where
  whole h := h
  moved h _ _ := wireless_asExpr (wireless_attrValue h)
  inputProps := wireless_inputProps
  id := wireless_attr carried_wireless.str
  ref {a} h := by
    unfold Attrs.toRef
    split
    next o k v => exact wireless_attr (wireless_markup.mp h v (by simp))
    next => exact h
  form {a} ha := by
    simp only [FieldMarkup.formAttrs, List.mem_cons, List.not_mem_nil, or_false] at ha
    rcases ha with rfl | rfl | rfl
    · exact .of_any (by decide)
    · exact .of_any (by decide)
    · exact .of_any (by decide)

/-- An element is without wires exactly if its parts are. -/
theorem wireless_toTree {e : Element} : Wireless e.toTree ↔ e.Parts Wireless Wireless := by
  rw [Element.toTree, wireless_markup]
  simp only [List.forall_mem_cons, List.not_mem_nil, IsEmpty.forall_iff, implies_true, and_true, wireless_list]
  constructor
  · rintro ⟨hname, hattrs, htargs, hchildren, hclosing⟩
    exact ⟨hname, hattrs, htargs, hchildren, hclosing⟩
  · intro h
    exact ⟨h.name, h.attrs, h.typeArgs, h.children, h.closing⟩

end Tree

/-! ## Elements that need no fields -/

/-- An element that does not read from the form's fields, and that does not become a message either. -/
structure Element.Quiet (names : LibraryNames) (e : Element) : Prop where
  field : e.tag? ≠ some names.field
  message : e.tag? ≠ some names.errorMessage
  form : e.tag? = some names.form → names.errorMessage ≠ "form"
  wired : e.isWiredNative = false
  spread : e.fieldPropsSpread? = none

namespace Tree

variable {names : LibraryNames} {e : Element} {g : Tree → Tree}

/-- Nothing that belongs to the scope reads from the form's fields. If messages are called `form`, there is no form either
that could be taken for one. -/
structure Fieldless (names : LibraryNames) (t : Tree) : Prop where
  reads : Lacks opensScope (readsFields names) t
  form : names.errorMessage = "form" → Lacks opensScope (isTagged names.form) t

namespace Fieldless

theorem child (h : Fieldless names (node o k ts)) (hs : (node o k ts).opensScope = false) :
    ∀ t ∈ ts, Fieldless names t :=
  fun t ht => ⟨(h.reads.node_inv hs).2 t ht, fun hname => ((h.form hname).node_inv hs).2 t ht⟩

theorem item (h : Fieldless names (.list ts)) : ∀ t ∈ ts, Fieldless names t :=
  fun t ht => ⟨h.reads.list_inv t ht, fun hname => (h.form hname).list_inv t ht⟩

theorem attrValue {a : Tree} (h : Fieldless names e.toTree) (ha : a ∈ e.attrs) : Fieldless names a.attrValue :=
  ⟨(h.reads.attrs a ha).attrValue, fun hname => ((h.form hname).attrs a ha).attrValue⟩

/-- An element that belongs to a scope without reads of fields does not read any. -/
theorem quiet (h : Fieldless names e.toTree) : e.Quiet names := by
  have hreads := (h.reads.node_inv rfl).1
  have hform : names.errorMessage = "form" → e.toTree.isTagged names.form = false :=
    fun hname => ((h.form hname).node_inv rfl).1
  change e.toTree.readsFields names = false at hreads
  simp only [readsFields, element?_toTree, Bool.or_eq_false_iff, beq_eq_false_iff_ne, Option.isSome_eq_false_iff,
    Option.isNone_iff_eq_none] at hreads
  obtain ⟨⟨⟨hfield, hmessage⟩, hwired⟩, hspread⟩ := hreads
  refine ⟨hfield, hmessage, fun htag hname => ?_, hwired, hspread⟩
  have hno := hform hname
  rw [isTagged, element?_toTree, Option.any_some, htag, beq_self_eq_true] at hno
  cases hno

end Fieldless

/-! ### Spreads -/

/-- A spread of `getFieldProps(...)`, spelled out. -/
theorem isFieldPropsSpread_iff {a : Tree} : a.isFieldPropsSpread = true ↔
    ∃ o e o' callee args targs, a = .part o .spread [e] ∧ e.unparen = .expr o' .call [callee, .list args, targs] ∧
      callee.isFieldPropsGetter = true := by
  have hargs : ∀ e : Tree, e.fieldPropsArgs?.isSome = true ↔ ∃ o' callee args targs,
      e.unparen = .expr o' .call [callee, .list args, targs] ∧ callee.isFieldPropsGetter = true := by
    intro e
    unfold fieldPropsArgs?
    split
    next o' callee args targs heq => cases hcallee : callee.isFieldPropsGetter <;> simp [heq, hcallee]
    next hno =>
      refine iff_of_false nofun ?_
      rintro ⟨o', callee, args, targs, heq, -⟩
      exact hno _ _ _ _ heq
  unfold isFieldPropsSpread spread?
  split
  next o e => simp [hargs]
  next hno =>
    refine iff_of_false nofun ?_
    rintro ⟨o, e, -, -, -, -, rfl, -⟩
    exact hno _ _ rfl

/-! ### Around rewritten parts -/

namespace RewritesMarkup

variable (hg : RewritesMarkup g)
include hg

theorem isWire_node (o : Origin) (k : Kind) (ts : List Tree) : (node o k (ts.map g)).isWire = (node o k ts).isWire := by
  have hsame : ∀ t : Tree, ((g t).ident?, (g t).key?) = (t.ident?, t.key?) := fun t => by rw [hg.ident?, hg.key?]
  rw [Tree.isWire_node, Tree.isWire_node, List.map_map]
  exact congrArg (wireOf k) (List.map_congr_left fun t _ => hsame t)

theorem memberKey? (t : Tree) : (g t).memberKey? = t.memberKey? := by
  conv_rhs => unfold Tree.memberKey?
  split
  next o obj key =>
    rw [hg.eq_expr.mpr ⟨_, rfl, rfl⟩]
    exact hg.key? key
  next hno =>
    unfold Tree.memberKey?
    split
    next heq =>
      obtain ⟨ts, rfl, hts⟩ := hg.eq_expr.mp heq
      obtain ⟨obj, ts₁, rfl, -, h₁⟩ := List.map_eq_cons_iff.mp hts.symm
      obtain ⟨key, rfl, -⟩ := List.map_eq_singleton_iff.mp h₁
      exact (hno _ _ _ rfl).elim
    next => rfl

/-- To rewrite markup makes no getter and loses none. -/
theorem isFieldPropsGetter (t : Tree) : (g t).isFieldPropsGetter = t.isFieldPropsGetter := by
  rw [isFieldPropsGetter_eq, isFieldPropsGetter_eq, hg.ident?, hg.unparen, hg.memberKey?]

/-- A spread of `getFieldProps(...)` was one before. -/
theorem isFieldPropsSpread {a : Tree} (h : (g a).isFieldPropsSpread = true) : a.isFieldPropsSpread = true := by
  have hspread : ∀ {o ts'}, g a = .part o .spread ts' ↔ ∃ ts, a = .part o .spread ts ∧ ts' = ts.map g :=
    hg.eq_node (fun _ => rfl) fun _ => rfl
  obtain ⟨o, e', o', callee', args', targs', ha, he, hcallee⟩ := isFieldPropsSpread_iff.mp h
  obtain ⟨ts, rfl, hts⟩ := hspread.mp ha
  obtain ⟨e, rfl, rfl⟩ := List.map_eq_singleton_iff.mp hts.symm
  rw [hg.unparen] at he
  obtain ⟨ts, he, hts⟩ := hg.eq_expr.mp he
  obtain ⟨callee, ts₁, rfl, rfl, h₁⟩ := List.map_eq_cons_iff.mp hts.symm
  obtain ⟨args, ts₂, rfl, hargs, h₂⟩ := List.map_eq_cons_iff.mp h₁
  obtain ⟨targs, rfl, -⟩ := List.map_eq_singleton_iff.mp h₂
  obtain ⟨as, rfl, -⟩ := hg.eq_list.mp hargs
  rw [hg.isFieldPropsGetter] at hcallee
  exact isFieldPropsSpread_iff.mpr ⟨o, e, o', callee, as, targs, rfl, he, hcallee⟩

/-- An element stays quiet when its parts are rewritten, if the values of its attributes do not become wires. -/
theorem quiet_mapParts (h : e.Quiet names)
    (hvalues : ∀ a ∈ e.attrs, Wireless a.attrValue → Wireless (g a.attrValue)) :
    (e.mapParts g).Quiet names := by
  have htag : (e.mapParts g).tag? = e.tag? := hg.tag? e.name
  refine ⟨htag ▸ h.field, htag ▸ h.message, htag ▸ h.form, ?_, ?_⟩
  · rw [← Bool.not_eq_true]
    intro hwired
    have hno := h.wired
    rw [Element.isWiredNative, htag, Bool.and_eq_true, List.any_eq_true] at hwired
    obtain ⟨hnative, a', ha', hwire⟩ := hwired
    obtain ⟨a, ha, rfl⟩ := List.mem_map.mp ha'
    rw [isWiredAttr, hg.attrName?, hg.attrValue, Bool.and_eq_true] at hwire
    -- the value was a wire before
    have hvalue : a.attrValue.any nowhere isWire = true := by
      rw [← Bool.not_eq_false]
      intro hno
      rw [(hvalues a ha (.of_any hno)).any_eq_false] at hwire
      cases hwire.2
    rw [Element.isWiredNative, hnative, Bool.true_and, List.any_eq_false] at hno
    exact hno a ha (by rw [isWiredAttr, hwire.1, hvalue]; rfl)
  · have hno := h.spread
    rw [Element.fieldPropsSpread?, List.findIdx?_eq_none_iff] at hno ⊢
    intro a' ha'
    obtain ⟨a, ha, rfl⟩ := List.mem_map.mp ha'
    rw [← Bool.not_eq_true]
    intro hspread
    have hbefore := hg.isFieldPropsSpread hspread
    rw [hno a ha] at hbefore
    cases hbefore

end RewritesMarkup

end Tree

/-! ## Steps of quiet elements -/

namespace FieldMarkup

variable {names : LibraryNames} {bindings : List String} {e e' : Element} {t t' : Tree} {n n' : Needs}

/-- A quiet element becomes the form's element, or an input of a field hook, or stays what it is. -/
theorem Converts.quiet_inv (h : Converts names bindings e n e' n') (hquiet : e.Quiet names) :
    (e.tag? = some names.form ∧ e' = toForm e ∧ n' = { n with form := true }) ∨
      (∃ e₁ x, e.takeBinding? bindings = some (e₁, x) ∧ e' = e₁.toInput .native (.binding (Make.ident x)) ∧
        n' = { n with inputProps := true }) ∨
      e' = e ∧ n' = n := by
  cases h with
  | field htag => exact absurd htag hquiet.field
  | form htag => exact .inl ⟨htag, rfl, rfl⟩
  | binding _ _ htake => exact .inr (.inl ⟨_, _, htake, rfl, rfl⟩)
  | wired _ _ hwired =>
      rw [hquiet.wired] at hwired
      cases hwired
  | spread _ _ hspread =>
      rw [convertFieldProps?_eq_none hquiet.spread] at hspread
      cases hspread
  | other => exact .inr (.inr ⟨rfl, rfl⟩)

/-- A quiet element needs no fields, and it does not become a message. -/
theorem Converts.quiet (h : Converts names bindings e n e' n') (hquiet : e.Quiet names) :
    n'.fieldset = n.fieldset ∧ e'.tag? ≠ some names.errorMessage := by
  obtain ⟨htag, rfl, rfl⟩ | ⟨e₁, x, htake, rfl, rfl⟩ | ⟨rfl, rfl⟩ := h.quiet_inv hquiet
  · exact ⟨rfl, fun h => hquiet.form htag (Option.some.inj h).symm⟩
  · obtain ⟨-, rfl⟩ := Element.takeBinding?_inv htake
    refine ⟨rfl, fun h => ?_⟩
    rw [tag?_toInput] at h
    exact hquiet.message h
  · exact ⟨rfl, hquiet.message⟩

/-- A quiet element that is converted adds no need for fields, and stays an element. -/
theorem ConvertsNode.quiet (h : ConvertsNode names bindings n e.toTree t' n') (hquiet : e.Quiet names) :
    n'.fieldset = n.fieldset ∧ ∃ e', Converts names bindings e n e' n' ∧ t' = e'.toTree := by
  obtain ⟨e', n₁, hconverts, ⟨-, -, htag⟩ | ⟨rfl, rfl, -⟩⟩ := h.element_inv
  · exact absurd htag (hconverts.quiet hquiet).2
  · exact ⟨(hconverts.quiet hquiet).1, e', hconverts, rfl⟩

/-- A native form is without wires if the library's form was. -/
theorem wireless_toForm (h : e.Parts Tree.Wireless Tree.Wireless) : (toForm e).Parts Tree.Wireless Tree.Wireless := by
  have hname : Tree.Wireless (Make.name "form") := .of_any (by decide)
  refine Element.Parts.toForm Tree.closed_wireless ⟨hname, h.attrs, h.typeArgs, h.children, ?_⟩
  unfold Element.rename
  dsimp only
  split
  · exact .absent
  · exact hname

/-- A quiet element without wires has none when it is converted: what it is made with is none, and the variable that it
passes on was in it before. -/
theorem Converts.wireless (h : Converts names bindings e n e' n') (hquiet : e.Quiet names)
    (hparts : e.Parts Tree.Wireless Tree.Wireless) : e'.Parts Tree.Wireless Tree.Wireless := by
  obtain ⟨-, rfl, -⟩ | ⟨e₁, x, htake, rfl, -⟩ | ⟨rfl, -⟩ := h.quiet_inv hquiet
  · exact wireless_toForm hparts
  · have hvariable : Tree.Wireless (Make.ident x) := by
      obtain ⟨hfind, -⟩ := Element.takeBinding?_inv htake
      obtain ⟨a, ha, hspread⟩ := List.exists_of_findSome?_eq_some hfind
      obtain ⟨v, hv, hident⟩ := Option.bind_eq_some_iff.mp (Option.eq_some_of_filter_eq_some hspread)
      exact Tree.wireless_ident (Tree.wireless_spread? (hparts.attrs a ha) hv) hident
    exact (hparts.takeBinding? htake).toInput Tree.closed_wireless Tree.carried_wireless nofun hvariable
  · exact hparts

/-! ## Scopes that need no fields -/

/-- A scope without wires has none when it is converted, if nothing in it reads from the fields. -/
theorem wireless_converted (hno : t.Fieldless names) (h : t.Wireless) : (converted names bindings t).Wireless := by
  have hg := converted_rewritesMarkup names bindings
  induction t using Tree.ind with
  | node o k ts ih =>
      cases hs : (Tree.node o k ts).opensScope with
      | true => rwa [hg.component hs]
      | false =>
          have hmapped : Tree.Wireless (.node o k (ts.map (converted names bindings))) := by
            rw [Tree.wireless_node] at h ⊢
            refine ⟨(hg.isWire_node o k ts).trans h.1, fun c' hc' => ?_⟩
            obtain ⟨c, hc, rfl⟩ := List.mem_map.mp hc'
            exact ih c hc (hno.child hs c hc) (h.2 c hc)
          obtain ⟨n', hnode⟩ := converted_node names bindings hs
          cases he : (Tree.node o k (ts.map (converted names bindings))).element? with
          | none => rwa [hnode.eq_of_none he]
          | some e' =>
              obtain ⟨e, htree, rfl⟩ := hg.element? he
              rw [htree] at hno
              rw [← Tree.toTree_of_element? he] at hnode hmapped
              rw [Tree.wireless_toTree] at hmapped
              -- all values are converted already, and none of them has a wire
              have hquiet := hg.quiet_mapParts hno.quiet fun a ha _ => by
                rw [← hg.attrValue]
                exact Tree.wireless_attrValue (hmapped.attrs _ (List.mem_map_of_mem ha))
              obtain ⟨-, e'', hconverts, heq⟩ := hnode.quiet hquiet
              rw [heq, Tree.wireless_toTree]
              exact hconverts.wireless hquiet hmapped
  | list ts ih =>
      rw [hg.other rfl rfl]
      rw [Tree.wireless_list] at h
      refine .list fun c' hc' => ?_
      obtain ⟨c, hc, rfl⟩ := List.mem_map.mp hc'
      exact ih c hc (hno.item c hc) (h c hc)
  | absent => rwa [hg.absent]

/-- A node of a scope in which nothing reads from the fields needs none, around its converted children. -/
theorem fieldset_convertNode {o : Origin} {k : Kind} {ts : List Tree} (hno : (Tree.node o k ts).Fieldless names)
    (n : Needs) :
    ((convertNode names bindings (.node o k (ts.map (converted names bindings)))).run n).2.fieldset = n.fieldset := by
  have hg := converted_rewritesMarkup names bindings
  generalize hrun : (convertNode names bindings _).run n = r
  have hnode := convertNode_inv hrun
  cases he : (Tree.node o k (ts.map (converted names bindings))).element? with
  | none => rw [hnode.needs_eq_of_none he]
  | some e' =>
      obtain ⟨e, htree, rfl⟩ := hg.element? he
      rw [htree] at hno
      rw [← Tree.toTree_of_element? he] at hnode
      exact (hnode.quiet (hg.quiet_mapParts hno.quiet fun a ha => wireless_converted (hno.attrValue ha))).1

def needsOf (names : LibraryNames) (bindings : List String) (body : Tree) : Needs :=
  ((body.mapUpM Tree.opensScope (convertNode names bindings)).run {}).2

/-- A scope in which nothing reads from the fields needs none. -/
theorem fieldset_needsOf (h : t.Fieldless names) : (needsOf names bindings t).fieldset = false :=
  Tree.snd_run_mapUpM (I := fun n => n.fieldset = false) (P := Tree.Fieldless names) fst_run_convertNode
    (fun _ _ _ hs hno => ⟨hno.child hs, fun n hn => (fieldset_convertNode hno n).trans hn⟩)
    (fun _ => Tree.Fieldless.item) h rfl

/-- **The prediction is sound.** A scope that needs fields was predicted to, or a form was taken for a message. -/
theorem rendersFields_of_needs (h : (needsOf names bindings t).fieldset = true) :
    t.rendersFields names = true ∨ names.errorMessage = "form" ∧ t.holds names.form = true := by
  by_contra hno
  rw [not_or, not_and] at hno
  have hfieldless : t.Fieldless names :=
    ⟨.of_any ((Bool.not_eq_true _).mp hno.1), fun hname => .of_any ((Bool.not_eq_true _).mp (hno.2 hname))⟩
  rw [fieldset_needsOf hfieldless] at h
  cases h

end FieldMarkup

end FormCodemod
