import FormCodemod.Proofs.FieldMarkup.Steps
import FormCodemod.Proofs.Imports.Ensured

/-!
# Parts of elements

The field pass takes code out of elements, such as the name of a field or what `disabled` says, and puts it into
elements again, with code that is made. If a property of trees is hereditary (`Tree.Hereditary`), it is not lost on the way:
an element whose parts have it (`Element.Parts`) becomes one whose parts have it (`Element.Parts.converts`), and so
do the errors of a field (`Element.Parts.errorMarkup`).

A bare element that is the value of an attribute becomes an expression when it is taken out of the attribute
(`Tree.asExpr`). Whether it has the property as an expression, too, is a matter of the attribute (`Attrs.Closed`).
-/

namespace FormCodemod

/-! ## Hereditary properties -/

/-- Kinds of nodes that code is taken out of, or put into, when an element is converted. -/
@[simp, reducible] def Kind.isBasic : Kind → Bool
  | .expr (.ident _) => true
  | .expr (.str _ _) => true
  | .expr (.bool _) => true
  | .expr .object => true
  | .expr .call => true
  | .expr .member => true
  | .expr .paren => true
  | .prop .keyValue => true
  | .markup .fragment => true
  | .markup .attr => true
  | .markup .container => true
  | .part (.name _) => true
  | .part (.key _) => true
  | .part .index => true
  | .part .spread => true
  | _ => false

namespace Tree

/-- Most nodes have the property exactly if all their children have it. -/
structure Hereditary (Q : Tree → Prop) : Prop where
  node {o : Origin} {k : Kind} {ts : List Tree} : k.isBasic = true → (Q (.node o k ts) ↔ ∀ t ∈ ts, Q t)
  list {ts : List Tree} : Q (.list ts) ↔ ∀ t ∈ ts, Q t
  absent : Q .absent

/-- What an attribute says has the property if the attribute has it, and so have the options of an input that are made of
such code. -/
structure Carried (Q : Tree → Prop) : Prop where
  absent : Q .absent
  str {s : String} : Q (Make.str s)
  bool {b : Bool} : Q (Make.bool b)
  keyValue {k : String} {v : Tree} : Q v → Q (Make.keyValue k v)
  contained {o : Origin} {e : Tree} : Q (.markup o .container [e]) → Q e

variable {Q : Tree → Prop} {t u e p v : Tree}

theorem holds_getD {o : Option Tree} {d : Tree} (ho : ∀ t, o = some t → Q t) (hd : Q d) : Q (o.getD d) := by
  cases o with
  | none => exact hd
  | some t => exact ho t rfl

namespace Hereditary

variable (hQ : Hereditary Q)
include hQ

theorem ident {x : String} : Q (Make.ident x) := by simp [Make.ident, hQ.node]

theorem str {s : String} : Q (Make.str s) := by simp [Make.str, hQ.node]

theorem bool {b : Bool} : Q (Make.bool b) := by simp [Make.bool, hQ.node]

theorem name {x : String} : Q (Make.name x) := by simp [Make.name, hQ.node]

theorem member {x : String} : Q (Make.member e x) ↔ Q e := by simp [Make.member, Make.key, hQ.node]

theorem index : Q (Make.index e u) ↔ Q e ∧ Q u := by simp [Make.index, hQ.node]

theorem keyValue {x : String} : Q (Make.keyValue x v) ↔ Q v := by simp [Make.keyValue, Make.key, hQ.node]

theorem attr {x : String} : Q (Make.attr x v) ↔ Q v := by simp [Make.attr, Make.key, hQ.node]

theorem container : Q (Make.container e) ↔ Q e := by simp [Make.container, hQ.node]

theorem fragment {ts : List Tree} : Q (Make.fragment ts) ↔ ∀ t ∈ ts, Q t := by simp [Make.fragment, hQ.node]

/-- A spread of `getInputProps` has the property exactly if its arguments have it. -/
theorem inputProps {options : List Tree} : Q (Make.inputProps e options) ↔ Q e ∧ ∀ t ∈ options, Q t := by
  simp [Make.inputProps, Make.spread, Make.callNamed, Make.call, Make.ident, Make.object, hQ.node, hQ.list, hQ.absent]

/-- What an attribute says has every hereditary property that the attribute has. -/
theorem carried : Carried Q where
  absent := hQ.absent
  str := hQ.str
  bool := hQ.bool
  keyValue := hQ.keyValue.mpr
  contained h := (hQ.node rfl).mp h _ (List.mem_singleton.mpr rfl)

/-! ### Parts of code -/

theorem attrValue (h : Q t) : Q t.attrValue := by
  unfold Tree.attrValue
  split
  · exact (hQ.node rfl).mp h _ (by simp)
  · exact hQ.absent

theorem unparen (h : Q t) : Q t.unparen := by
  fun_induction Tree.unparen t with
  | case1 o e ih => exact ih ((hQ.node rfl).mp h e (List.mem_singleton.mpr rfl))
  | case2 t => exact h

theorem spread? (h : Q t) (he : t.spread? = some e) : Q e := by
  unfold Tree.spread? at he
  split at he
  · cases he
    exact (hQ.node rfl).mp h e (List.mem_singleton.mpr rfl)
  · cases he

theorem nameProperty? (hp : Q p) (hv : nameProperty? p = some v) : Q v := by
  unfold Tree.nameProperty? at hv
  split at hv
  · cases hv
    exact (hQ.node rfl).mp hp v (by simp)
  · cases hv
    exact (hQ.node rfl).mpr nofun
  · cases hv

theorem fieldName (h : Q t) : Q t.fieldName := by
  have hspread : Q (t.spread?.getD t) := holds_getD (fun _ => hQ.spread? h) h
  unfold Tree.fieldName
  dsimp only
  split
  · next ps heq =>
      have hps := hQ.unparen hspread
      rw [heq] at hps
      have hps : ∀ p ∈ ps, Q p := by simpa [hQ.node, hQ.list] using hps
      refine holds_getD (fun v hv => ?_) hspread
      obtain ⟨p, hp, hv⟩ := List.exists_of_findSome?_eq_some hv
      exact hQ.nameProperty? (hps p hp) hv
  · exact hspread

/-- The name of a field in the first of some arguments. -/
theorem firstName {args : List Tree} (h : ∀ a ∈ args, Q a) :
    Q ((args.head?.map Tree.fieldName).getD (Make.str "field")) := by
  refine holds_getD (fun t ht => ?_) hQ.str
  obtain ⟨a, ha, rfl⟩ := Option.map_eq_some_iff.mp ht
  exact hQ.fieldName (h a (List.mem_of_head? ha))

theorem fieldPropsArgs? {args : List Tree} (ht : Q t) (h : t.fieldPropsArgs? = some args) : ∀ a ∈ args, Q a := by
  have hu := hQ.unparen ht
  unfold Tree.fieldPropsArgs? at h
  split at h
  · next heq =>
      rw [heq] at hu
      split at h
      · cases h
        exact hQ.list.mp ((hQ.node rfl).mp hu (.list args) (by simp))
      · cases h
  · cases h

end Hereditary

end Tree

/-! ## What attributes say -/

namespace AttrValue

/-- The expression that an attribute says has a property. -/
def Holds (Q : Tree → Prop) : AttrValue → Prop
  | .expr e => Q e
  | _ => True

variable {Q : Tree → Prop} {v : AttrValue} {a e : Tree} (hQ : Tree.Carried Q)
include hQ

/-- What an attribute says has the property if the attribute's value has it. -/
theorem holds_ofAttr (h : Q a.attrValue.asExpr) : (ofAttr a).Holds Q := by
  unfold ofAttr
  split
  · trivial
  · trivial
  · trivial
  · next heq =>
      rw [heq] at h
      split
      · trivial
      · exact hQ.contained h
  · exact h

theorem Holds.toExpr? (h : v.Holds Q) (he : v.toExpr? = some e) : Q e := by
  cases v with
  | literal s =>
      cases he
      exact hQ.str
  | expr e' =>
      cases he
      exact h
  | bare =>
      cases he
      exact hQ.bool
  | absent => cases he

theorem Holds.unlessBare? (h : v.Holds Q) (he : v.unlessBare? = some e) : Q e := by
  cases v with
  | bare => cases he
  | literal s => exact h.toExpr? hQ he
  | expr e' => exact h.toExpr? hQ he
  | absent => cases he

theorem Holds.ofValue? (h : v.Holds Q) {name : FieldName} (hname : FieldName.ofValue? v = some name) : Q name.expr := by
  cases v with
  | literal s =>
      cases hname
      exact hQ.str
  | expr e' =>
      cases hname
      exact h
  | bare => cases hname
  | absent => cases hname

end AttrValue

/-- The tag that the value of an attribute is, as a string or as a variable. -/
def AttrValue.tag? : AttrValue → Option String
  | .literal s => some s
  | .expr e => e.ident?
  | _ => none

def Tree.askedTag? (a : Tree) : Option String :=
  if a.attrName? == some "as" || a.attrName? == some "component" then (AttrValue.ofAttr a).tag? else none

/-- A tag is asked for by a string after `as` or `component`. -/
theorem Tree.askedTag?_eq_some {a : Tree} {tag : String} :
    a.askedTag? = some tag ↔
      (a.attrName? = some "as" ∨ a.attrName? = some "component") ∧ (AttrValue.ofAttr a).tag? = some tag := by
  simp [askedTag?]

namespace Attrs

variable {attrs : List Tree} {a : Tree} {x tag : String}

theorem attrName?_of_find? (h : find? x attrs = some a) : a ∈ attrs ∧ a.attrName? = some x :=
  ⟨List.mem_of_find?_eq_some h, by simpa using List.find?_some h⟩

theorem mem_of_mem_eraseAll {xs : List String} (h : a ∈ eraseAll xs attrs) : a ∈ attrs := by
  unfold eraseAll at h
  induction xs generalizing attrs with
  | nil => exact h
  | cons x xs ih => exact List.mem_of_mem_eraseP (ih h)

theorem mem_of_mem_unwired (h : a ∈ unwired attrs) : a ∈ attrs := (List.mem_filter.mp h).1

/-! ### Tags that are asked for -/

/-- The tag of an input is the default or one that is asked for. -/
theorem inputTag_cases (attrs : List Tree) : inputTag attrs = "input" ∨ ∃ a ∈ attrs, a.askedTag? = some (inputTag attrs) := by
  have hfind : ∀ a, (find? "as" attrs).or (find? "component" attrs) = some a →
      a ∈ attrs ∧ (a.attrName? = some "as" ∨ a.attrName? = some "component") := by
    intro a ha
    rcases Option.or_eq_some_iff.mp ha with ha | ⟨-, ha⟩
    · exact (attrName?_of_find? ha).imp_right .inl
    · exact (attrName?_of_find? ha).imp_right .inr
  unfold inputTag
  split
  · next tag heq =>
      obtain ⟨a, ha, hvalue⟩ := Option.map_eq_some_iff.mp heq
      obtain ⟨hmem, hname⟩ := hfind a ha
      exact .inr ⟨a, hmem, Tree.askedTag?_eq_some.mpr ⟨hname, by rw [hvalue, AttrValue.tag?]⟩⟩
  · next e heq =>
      obtain ⟨a, ha, hvalue⟩ := Option.map_eq_some_iff.mp heq
      obtain ⟨hmem, hname⟩ := hfind a ha
      cases hident : e.ident? with
      | none => exact .inl rfl
      | some y => exact .inr ⟨a, hmem, Tree.askedTag?_eq_some.mpr ⟨hname, by rw [hvalue, AttrValue.tag?, hident]; rfl⟩⟩
  · exact .inl rfl

/-- The tag of an error message is asked for by one of its attributes. -/
theorem exists_of_errorTag? (h : FieldMarkup.errorTag? attrs = some tag) : ∃ a ∈ attrs, a.askedTag? = some tag := by
  have htag : (value "component" attrs).tag? = some tag := by
    unfold FieldMarkup.errorTag? at h
    split at h
    · next heq => rw [heq, AttrValue.tag?, h]
    · next heq => rw [heq, AttrValue.tag?, h]
    · cases h
  unfold value at htag
  cases hfind : find? "component" attrs with
  | none =>
      rw [hfind] at htag
      cases htag
  | some a =>
      rw [hfind] at htag
      obtain ⟨hmem, hname⟩ := attrName?_of_find? hfind
      exact ⟨a, hmem, Tree.askedTag?_eq_some.mpr ⟨.inr hname, htag⟩⟩

/-! ## Attributes that are kept and made -/

/-- `A` is a property of attributes. Those with the property, and what is moved out of them, have the hereditary property
`Q`, and the attributes that are made have it. -/
structure Closed (Q A : Tree → Prop) : Prop where
  whole {a : Tree} : A a → Q a
  moved {a : Tree} {x : String} : A a → x ∈ inputAttrs → a.attrName? = some x → Q a.attrValue.asExpr
  inputProps {field : Tree} {options : List Tree} : Q field → (∀ t ∈ options, Q t) → A (Make.inputProps field options)
  id {s : String} : A (Make.stringAttr "id" s)
  ref {a : Tree} : A a → A (toRef a)
  form {a : Tree} : a ∈ FieldMarkup.formAttrs → A a

variable {Q A : Tree → Prop} (hQ : Tree.Carried Q)

section Carried

include hQ

theorem holds_value (h : ∀ a ∈ attrs, a.attrName? = some x → Q a.attrValue.asExpr) : (value x attrs).Holds Q := by
  unfold value
  cases hfind : find? x attrs with
  | none => trivial
  | some a =>
      obtain ⟨hmem, hname⟩ := attrName?_of_find? hfind
      exact AttrValue.holds_ofAttr hQ (h a hmem hname)

theorem holds_disabled? (h : (value "disabled" attrs).Holds Q) {e : Tree} (he : disabled? attrs = some e) : Q e := by
  unfold disabled? at he
  split at he
  · cases he
  · cases he
    exact hQ.bool
  · cases he
    exact hQ.bool
  · next heq =>
      cases he
      rw [heq] at h
      exact h

/-- The options of an input are made of what its attributes say. -/
theorem holds_inputOptions (h : ∀ x ∈ inputAttrs, (value x attrs).Holds Q) : ∀ t ∈ inputOptions attrs, Q t := by
  intro t ht
  simp only [inputOptions, List.mem_append, List.mem_singleton, Option.mem_toList] at ht
  rcases ht with (rfl | ht) | ht
  · exact hQ.keyValue (Tree.holds_getD (fun _ => (h "type" (by decide)).unlessBare? hQ) hQ.str)
  · obtain ⟨e, he, rfl⟩ := Option.map_eq_some_iff.mp ht
    exact hQ.keyValue ((h "placeholder" (by decide)).unlessBare? hQ he)
  · obtain ⟨e, he, rfl⟩ := Option.map_eq_some_iff.mp ht
    exact hQ.keyValue (holds_disabled? hQ (h "disabled" (by decide)) he)

end Carried

variable (hA : Closed Q A)
include hQ hA

theorem holds_moved (h : ∀ a ∈ attrs, A a) (hx : x ∈ inputAttrs) : (value x attrs).Holds Q :=
  holds_value hQ fun a ha => hA.moved (h a ha) hx

/-- The field name of an input comes from its attributes. -/
theorem holds_inputName (h : ∀ a ∈ attrs, A a) (kind : InputKind) : Q (inputName kind attrs).expr := by
  have hkept : ∀ a ∈ unwired attrs, A a := fun a ha => h a (mem_of_mem_unwired ha)
  have hread : ∀ a name, FieldName.ofRead? a = some name → Q name.expr := by
    intro a name hname
    unfold FieldName.ofRead? at hname
    split at hname
    · obtain ⟨k, -, rfl⟩ := Option.map_eq_some_iff.mp hname
      exact hQ.str
    · cases hname
  unfold inputName
  dsimp only
  generalize hname : ((_ : Option FieldName).or _).or _ = name
  cases name with
  | none => exact hQ.str
  | some name =>
      -- the name is that of the field, or the id, or else what the value reads
      rcases Option.or_eq_some_iff.mp hname with hname | ⟨-, hname⟩
      · rcases Option.or_eq_some_iff.mp hname with hname | ⟨-, hname⟩
        · split at hname
          · exact (holds_moved hQ hA hkept (by decide)).ofValue? hQ hname
          · cases hname
        · exact (holds_moved hQ hA hkept (by decide)).ofValue? hQ hname
      · obtain ⟨a, -, ha⟩ := Option.bind_eq_some_iff.mp hname
        exact hread a name ha

omit hQ in
/-- The `id` of an input is its own, or a made one. -/
theorem holds_inputId (h : ∀ a ∈ attrs, A a) (name : FieldName) : A (inputId name attrs) :=
  Tree.holds_getD (fun a ha => h a (attrName?_of_find? ha).1) hA.id

omit hQ in
/-- The attributes that an input keeps are among those it had, but for a renamed `ref`. -/
theorem holds_inputRest (h : ∀ a ∈ attrs, A a) (kind : InputKind) : ∀ a ∈ inputRest kind attrs, A a := by
  have hrest : ∀ a ∈ eraseAll inputAttrs (unwired attrs), A a :=
    fun a ha => h a (mem_of_mem_unwired (mem_of_mem_eraseAll ha))
  intro a ha
  cases kind with
  | native => exact hrest a ha
  | fieldComponent =>
      simp only [inputRest, List.mem_append, Option.mem_toList] at ha
      rcases ha with ha | ha
      · exact hrest a (mem_of_mem_eraseAll ha)
      · obtain ⟨b, hb, rfl⟩ := Option.map_eq_some_iff.mp ha
        exact hA.ref (hrest b (attrName?_of_find? hb).1)

end Attrs

/-! ## Elements -/

/-- What `getInputProps` is handed for a field that goes by the name. -/
def FieldSource.field (name : Tree) : FieldSource → Tree
  | .fieldset x => Make.index (Make.ident x) name
  | .binding b => b

namespace Element

/-- The parts of an element have a property, the attributes one of their own. -/
structure Parts (Q A : Tree → Prop) (e : Element) : Prop where
  name : Q e.name
  attrs : ∀ a ∈ e.attrs, A a
  typeArgs : Q e.typeArgs
  children : ∀ c ∈ e.children, Q c
  closing : Q e.closing

namespace Parts

variable {Q A : Tree → Prop} {e e' : Element} {x : String} {attrs : List Tree}

theorem withAttrs (h : e.Parts Q A) (hattrs : ∀ a ∈ attrs, A a) : { e with attrs }.Parts Q A :=
  ⟨h.name, hattrs, h.typeArgs, h.children, h.closing⟩

/-- An element without a spread that it had consists of parts that it had. -/
theorem takeBinding? {xs : List String} (h : e.Parts Q A) (he : e.takeBinding? xs = some (e', x)) : e'.Parts Q A := by
  obtain ⟨-, rfl⟩ := Element.takeBinding?_inv he
  exact h.withAttrs fun a ha => h.attrs a (List.mem_of_mem_eraseP ha)

theorem settle (hQ : Tree.Carried Q) (h : e.Parts Q A) : e.settle.Parts Q A := by
  unfold Element.settle
  split
  · exact ⟨h.name, h.attrs, h.typeArgs, nofun, hQ.absent⟩
  · refine ⟨h.name, h.attrs, h.typeArgs, h.children, ?_⟩
    dsimp only
    split
    · exact h.name
    · exact h.closing

variable (hQ : Tree.Hereditary Q) (hA : Attrs.Closed Q A)

include hA in
/-- An input consists of parts of its element and made attributes. -/
theorem toInput (hC : Tree.Carried Q) (h : e.Parts Q A) {kind : InputKind} {source : FieldSource}
    (hrename : kind = .fieldComponent → ∀ x, (e.rename x).Parts Q A)
    (hfield : Q (source.field (Attrs.inputName kind e.attrs).expr)) : (e.toInput kind source).Parts Q A := by
  have hkept : ∀ a ∈ Attrs.unwired e.attrs, A a := fun a ha => h.attrs a (Attrs.mem_of_mem_unwired ha)
  have hattrs : ∀ a ∈ Make.inputProps (source.field (Attrs.inputName kind e.attrs).expr)
        (Attrs.inputOptions (Attrs.unwired e.attrs)) ::
      Attrs.inputId (Attrs.inputName kind e.attrs) (Attrs.unwired e.attrs) :: Attrs.inputRest kind e.attrs, A a := by
    intro a ha
    rcases List.mem_cons.mp ha with rfl | ha
    · exact hA.inputProps hfield (Attrs.holds_inputOptions hC fun _ => Attrs.holds_moved hC hA hkept)
    · rcases List.mem_cons.mp ha with rfl | ha
      · exact Attrs.holds_inputId hA hkept _
      · exact Attrs.holds_inputRest hA h.attrs kind a ha
  -- the attributes are made from those of `e`, whatever tag the input gets
  cases kind with
  | native => exact (h.withAttrs hattrs).settle hC
  | fieldComponent => exact ((hrename rfl _).withAttrs hattrs).settle hC

include hA in
/-- A native form consists of parts of the library's form and the attributes of a form. -/
theorem toForm (h : (e.rename "form").Parts Q A) : (FieldMarkup.toForm e).Parts Q A := by
  refine h.withAttrs fun a ha => ?_
  rcases List.mem_append.mp ha with ha | ha
  · exact hA.form ha
  · exact h.attrs a (List.mem_filter.mp ha).1

include hQ in
theorem rename (h : e.Parts Q A) (x : String) : (e.rename x).Parts Q A := by
  refine ⟨hQ.name, h.attrs, h.typeArgs, h.children, ?_⟩
  unfold Element.rename
  dsimp only
  split
  · exact hQ.absent
  · exact hQ.name

include hQ hA

/-- An element with its field properties converted has the parts it had, and a made spread. -/
theorem convertFieldProps? {fieldset : String} (h : e.Parts Q A) (he : e.convertFieldProps? fieldset = some e') :
    e'.Parts Q A := by
  have htype : Q ((Attrs.value "type" e.attrs).toExpr?.getD (Make.str "text")) :=
    Tree.holds_getD (fun _ => (Attrs.holds_moved hQ.carried hA h.attrs (by decide)).toExpr? hQ.carried) hQ.str
  unfold Element.convertFieldProps? at he
  obtain ⟨⟨attrs', i, u⟩, hfirst, rfl⟩ := Option.map_eq_some_iff.mp he
  obtain ⟨pre, a, a', post, hattrs, ha, rfl, -⟩ := mapFirst?_eq_some hfirst
  have hfits := h.attrs
  rw [hattrs] at hfits
  have ha' : A a' := by
    unfold fieldProps? at ha
    split at ha
    · cases ha
    · next args hargs =>
        cases ha
        obtain ⟨t, ht, hcall⟩ := Option.bind_eq_some_iff.mp hargs
        have hspread : Q t := hQ.spread? (hA.whole (hfits a (by simp))) ht
        have hname := hQ.firstName (hQ.fieldPropsArgs? hspread hcall)
        refine hA.inputProps (hQ.index.mpr ⟨hQ.ident, hname⟩) fun t ht => ?_
        obtain rfl := List.mem_singleton.mp ht
        exact hQ.keyValue.mpr htype
  exact h.withAttrs fun b hb => forall_mem_replace hfits ha' b (List.mem_of_mem_eraseP hb)

/-- However an element is converted, its parts keep the properties. -/
theorem converts {names : LibraryNames} {bindings : List String} {n n' : FieldMarkup.Needs} (h : e.Parts Q A)
    (hconverts : FieldMarkup.Converts names bindings e n e' n') : e'.Parts Q A := by
  have hfield : ∀ kind, Q ((FieldSource.fieldset fieldsName).field (Attrs.inputName kind e.attrs).expr) :=
    fun kind => hQ.index.mpr ⟨hQ.ident, Attrs.holds_inputName hQ.carried hA h.attrs kind⟩
  cases hconverts with
  | field => exact h.toInput hA hQ.carried (fun _ => h.rename hQ) (hfield _)
  | form => exact (h.rename hQ "form").toForm hA
  | binding _ _ htake => exact (h.takeBinding? htake).toInput hA hQ.carried nofun hQ.ident
  | wired => exact h.toInput hA hQ.carried nofun (hfield _)
  | spread _ _ hspread => exact h.convertFieldProps? hQ hA hspread
  | other => exact h

/-- The errors of a field stand in an element with the tag that was asked for, or in a fragment. -/
theorem errorMarkup {R : Tree → Prop} (h : e.Parts Q A)
    (helement : ∀ tag attrs children, FieldMarkup.errorTag? e.attrs = some tag → (∀ a ∈ attrs, A a) →
      (∀ c ∈ children, Q c) → R (Make.element tag attrs children))
    (hfragment : ∀ children, (∀ c ∈ children, Q c) → R (Make.fragment children)) : R (FieldMarkup.errorMarkup e) := by
  have hname : Q ((Attrs.value "name" e.attrs).unlessBare?.getD (Make.str "field")) :=
    Tree.holds_getD (fun _ => (Attrs.holds_moved hQ.carried hA h.attrs (by decide)).unlessBare? hQ.carried) hQ.str
  have herrors : ∀ c ∈ [Make.container (Make.member (Make.index (Make.ident fieldsName)
      ((Attrs.value "name" e.attrs).unlessBare?.getD (Make.str "field"))) "errors")], Q c := by
    intro c hc
    obtain rfl := List.mem_singleton.mp hc
    exact hQ.container.mpr (hQ.member.mpr (hQ.index.mpr ⟨hQ.ident, hname⟩))
  unfold FieldMarkup.errorMarkup
  dsimp only
  split
  · next tag htag => exact helement tag _ _ htag (fun a ha => h.attrs a (Attrs.mem_of_mem_eraseAll ha)) herrors
  · exact hfragment _ herrors

end Parts

end Element

end FormCodemod
