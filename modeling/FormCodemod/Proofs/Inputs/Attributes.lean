import FormCodemod.Proofs.Convert.Parts

/-!
# Attributes of inputs

An input has three sorts of attributes: the spread of `getInputProps`, an `id`, and what is left of the attributes that the
element had (`Element.toInput_attributes`). What is left is said by place (`Attrs.kept`): an attribute goes if it wires the
input to the form, or if it is the first one with one of some names. The attributes are taken out one after the other, each
from what the ones before left over, and that makes no difference (`Attrs.eraseAll_unwired`), because no attribute has two
names.

What an input is made from is looked up when the wiring is gone already, and still it is what the element said at first
(`Attrs.find?_unwired`). So the name of the field may be told from the element itself (`Attrs.SaysName`).
-/

namespace FormCodemod

namespace Attrs

variable {attrs : List Tree} {xs ys : List String} {x y : String} {a : Tree} {kind : InputKind} {n : FieldName}

/-! ## Attributes by place -/

def place? (x : String) (attrs : List Tree) : Option Nat := attrs.findIdx? fun a => a.attrName? == some x

/-- The attribute at the place is the first one with one of the names. -/
def isFirst (xs : List String) (attrs : List Tree) (i : Nat) : Bool := xs.any fun x => place? x attrs == some i

/-- The attributes without those that wire an input to the form and without the first of each of the names. -/
def kept (xs : List String) (attrs : List Tree) : List Tree :=
  (attrs.zipIdx.filter fun p => !p.1.isStrippedAttr && !isFirst xs attrs p.2).map Prod.fst

def isNamed (xs : List String) (a : Tree) : Bool := xs.any fun x => a.attrName? == some x

def othersOf (a : Tree) (xs : List String) : List String := xs.filter fun x => a.attrName? != some x

theorem place?_cons : place? x (a :: attrs) = if a.attrName? == some x then some 0 else (place? x attrs).map (· + 1) :=
  List.findIdx?_cons

theorem isFirst_zero : isFirst xs (a :: attrs) 0 = isNamed xs a := by
  refine List.any_congr rfl fun x => ?_
  rw [place?_cons]
  split
  next h => simp [h]
  next h => simp [h]

theorem isFirst_succ (i : Nat) : isFirst xs (a :: attrs) (i + 1) = isFirst (othersOf a xs) attrs i := by
  unfold isFirst othersOf
  rw [List.any_filter]
  refine List.any_congr rfl fun x => ?_
  rw [place?_cons]
  split
  next h => simp [bne, h]
  next h => cases place? x attrs <;> simp [bne, h]

/-- The first attribute is kept unless it is stripped or is the first one with one of the
names. -/
theorem kept_cons (xs : List String) (a : Tree) (attrs : List Tree) :
    kept xs (a :: attrs) =
      (if a.isStrippedAttr || isNamed xs a then [] else [a]) ++ kept (othersOf a xs) attrs := by
  -- behind the first attribute all places are one further
  have hrest : ((attrs.zipIdx (0 + 1)).filter fun p => !p.1.isStrippedAttr && !isFirst xs (a :: attrs) p.2).map Prod.fst =
      kept (othersOf a xs) attrs := by
    rw [List.zipIdx_succ, List.filter_map, List.map_map]
    unfold kept
    refine congrArg (List.map Prod.fst) (List.filter_congr fun p _ => ?_)
    exact congrArg (fun b => !p.1.isStrippedAttr && !b) (isFirst_succ p.2)
  rw [kept, List.zipIdx_cons, List.filter_cons, isFirst_zero, ← hrest]
  cases a.isStrippedAttr <;> cases isNamed xs a <;> rfl

theorem othersOf_of_not_named (h : isNamed xs a = false) : othersOf a xs = xs := by
  rw [othersOf, List.filter_eq_self]
  intro x hx
  rw [isNamed, List.any_eq_false] at h
  rw [bne, Bool.not_eq_true', ← Bool.not_eq_true]
  exact h x hx

theorem isNamed_of_sublist (hsub : xs.Sublist ys) (h : isNamed ys a = false) : isNamed xs a = false := by
  rw [isNamed, List.any_eq_false] at h ⊢
  exact fun x hx => h x (hsub.subset hx)

/-! ## One after the other -/

theorem eraseAll_nil (xs : List String) : eraseAll xs [] = [] := by
  induction xs with
  | nil => rfl
  | cons x xs ih => exact ih

/-- To erase each name once goes through the attributes once, if no name is given twice. -/
theorem eraseAll_cons (hxs : xs.Nodup) (a : Tree) (attrs : List Tree) :
    eraseAll xs (a :: attrs) = (if isNamed xs a then [] else [a]) ++ eraseAll (othersOf a xs) attrs := by
  induction xs generalizing attrs with
  | nil => rfl
  | cons x xs ih =>
      have hstep : eraseAll (x :: xs) (a :: attrs) = eraseAll xs (erase x (a :: attrs)) := rfl
      obtain ⟨hx, hxs⟩ := List.nodup_cons.mp hxs
      rw [hstep, erase, List.eraseP_cons, isNamed, List.any_cons, othersOf, List.filter_cons, bne]
      cases hname : a.attrName? == some x with
      | true =>
          -- the attribute has none of the other names
          have hno : isNamed xs a = false := by
            rw [isNamed, List.any_eq_false]
            intro y hy hyes
            rw [beq_iff_eq] at hname hyes
            exact hx (Option.some.inj (hname.symm.trans hyes) ▸ hy)
          exact congrArg (eraseAll · attrs) (othersOf_of_not_named hno).symm
      | false => exact ih hxs _

/-- Attributes that are erased one after the other from those that are no wiring are the first of their names. -/
theorem eraseAll_unwired (hxs : xs.Nodup) (hwiring : ∀ a : Tree, a.isStrippedAttr = true → isNamed xs a = false)
    (attrs : List Tree) : eraseAll xs (unwired attrs) = kept xs attrs := by
  induction attrs generalizing xs with
  | nil => exact eraseAll_nil xs
  | cons a attrs ih =>
      have hsub : (othersOf a xs).Sublist xs := List.filter_sublist
      rw [kept_cons, unwired, List.filter_cons]
      cases hstripped : a.isStrippedAttr with
      | true =>
          rw [othersOf_of_not_named (hwiring a hstripped)]
          exact ih hxs hwiring
      | false =>
          have hothers := ih (hsub.nodup hxs) fun b hb => isNamed_of_sublist hsub (hwiring b hb)
          exact (eraseAll_cons hxs a _).trans (congrArg _ hothers)

/-! ## Attributes that wire an input -/

/-- The names of the attributes that may wire an input to the form. -/
def wiringAttrs : List String := ["onChange", "onBlur", "value", "onClick"]

/-- Only attributes with certain names are stripped. -/
theorem exists_of_isStrippedAttr (h : a.isStrippedAttr = true) : ∃ x ∈ wiringAttrs, a.attrName? = some x := by
  unfold Tree.isStrippedAttr at h
  split at h
  next x hx =>
    refine ⟨x, ?_, hx⟩
    simp only [Bool.or_eq_true, Bool.and_eq_true, beq_iff_eq] at h
    rcases h with ((rfl | rfl) | rfl) | ⟨rfl, -⟩ <;> decide
  next => cases h

theorem isNamed_of_isStrippedAttr (hxs : ∀ x ∈ xs, x ∉ wiringAttrs) (h : a.isStrippedAttr = true) :
    isNamed xs a = false := by
  obtain ⟨x, hx, hname⟩ := exists_of_isStrippedAttr h
  rw [isNamed, List.any_eq_false]
  intro y hy hyes
  rw [hname, beq_iff_eq] at hyes
  exact hxs y hy (Option.some.inj hyes ▸ hx)

/-- An attribute with another name is not stripped. -/
theorem isStrippedAttr_of_name (hname : a.attrName? = some x) (hx : x ∉ wiringAttrs) : a.isStrippedAttr = false := by
  rw [← Bool.not_eq_true]
  intro h
  obtain ⟨y, hy, hname'⟩ := exists_of_isStrippedAttr h
  exact hx (Option.some.inj (hname.symm.trans hname') ▸ hy)

/-- The first attribute with a name that is no wiring is found when the wiring is gone. -/
theorem find?_unwired (hx : x ∉ wiringAttrs) (attrs : List Tree) : find? x (unwired attrs) = find? x attrs := by
  unfold find? unwired
  rw [List.find?_filter]
  congr 1
  funext a
  rw [Bool.eq_iff_iff, decide_eq_true_iff, Bool.not_eq_true', beq_iff_eq]
  exact and_iff_right_of_imp fun hname => isStrippedAttr_of_name hname hx

/-- Stripping leaves what attributes of other names say. -/
theorem value_unwired (hx : x ∉ wiringAttrs) (attrs : List Tree) : value x (unwired attrs) = value x attrs := by
  rw [value, find?_unwired hx, value]

theorem find?_erase (hxy : x ≠ y) (attrs : List Tree) : find? x (erase y attrs) = find? x attrs := by
  unfold find? erase
  induction attrs with
  | nil => rfl
  | cons a attrs ih =>
      rw [List.eraseP_cons, List.find?_cons]
      cases hy : a.attrName? == some y with
      | true =>
          have hx : (a.attrName? == some x) = false := by
            rw [beq_iff_eq] at hy
            rw [hy]
            exact beq_eq_false_iff_ne.mpr fun h => hxy (Option.some.inj h).symm
          rw [hx]
          rfl
      | false =>
          rw [cond_false, List.find?_cons, ih]

/-- To erase some names leaves the attributes of others. -/
theorem find?_eraseAll (hx : x ∉ xs) (attrs : List Tree) : find? x (eraseAll xs attrs) = find? x attrs := by
  induction xs generalizing attrs with
  | nil => rfl
  | cons y xs ih =>
      obtain ⟨hxy, hx⟩ := not_or.mp (mt List.mem_cons.mpr hx)
      exact (ih hx _).trans (find?_erase hxy attrs)

/-! ## What is left -/

/-- The names of the attributes that an element loses one of when it becomes an input. -/
def takenAttrs : InputKind → List String
  | .native => inputAttrs
  | .fieldComponent => inputAttrs ++ fieldAttrs

/-- The `ref` that a field component gets for its first `innerRef`. -/
def refs (kind : InputKind) (attrs : List Tree) : List Tree :=
  match kind with
  | .native => []
  | .fieldComponent => ((find? "innerRef" attrs).map toRef).toList

/-- The attributes that are left of those of an element. -/
def left (kind : InputKind) (attrs : List Tree) : List Tree := kept (takenAttrs kind) attrs ++ refs kind attrs

/-- The attributes that an input keeps, after all removals, are the ones that are left by
place. -/
theorem inputRest_eq (kind : InputKind) (attrs : List Tree) : inputRest kind attrs = left kind attrs := by
  have hkept : ∀ kind, eraseAll (takenAttrs kind) (unwired attrs) = kept (takenAttrs kind) attrs := by
    intro kind
    refine eraseAll_unwired ?_ (fun a ha => isNamed_of_isStrippedAttr ?_ ha) attrs
    · cases kind <;> decide
    · cases kind <;> decide
  cases kind with
  | native => exact (hkept .native).trans (List.append_nil _).symm
  | fieldComponent =>
      have herase : eraseAll fieldAttrs (eraseAll inputAttrs (unwired attrs)) =
          eraseAll (takenAttrs .fieldComponent) (unwired attrs) := (List.foldl_append ..).symm
      unfold inputRest left refs
      dsimp only
      rw [herase, hkept, find?_eraseAll (by decide), find?_unwired (by decide)]

theorem attrName?_toRef (h : a.attrName? = some x) : (toRef a).attrName? = some "ref" := by
  unfold Tree.attrName? at h
  split at h
  next => rfl
  next => cases h

theorem attrName?_of_mem_refs (h : a ∈ refs kind attrs) : a.attrName? = some "ref" := by
  cases kind with
  | native => cases h
  | fieldComponent =>
      obtain ⟨b, hb, rfl⟩ := Option.map_eq_some_iff.mp (Option.mem_toList.mp h)
      exact attrName?_toRef (attrName?_of_find? hb).2

/-- A kept attribute is one of those that were there, and is not stripped. -/
theorem mem_of_mem_kept {xs : List String} (h : a ∈ kept xs attrs) : a ∈ attrs ∧ a.isStrippedAttr = false := by
  obtain ⟨⟨b, i⟩, hb, rfl⟩ := List.mem_map.mp h
  obtain ⟨hmem, hkept⟩ := List.mem_filter.mp hb
  rw [Bool.and_eq_true, Bool.not_eq_true'] at hkept
  exact ⟨List.fst_mem_of_mem_zipIdx hmem, hkept.1⟩

/-- No wiring is left. -/
theorem isStrippedAttr_of_mem_left (h : a ∈ left kind attrs) : a.isStrippedAttr = false := by
  rcases List.mem_append.mp h with h | h
  · exact (mem_of_mem_kept h).2
  · exact isStrippedAttr_of_name (attrName?_of_mem_refs h) (by decide)

/-- An attribute without a name is no wiring and has none of the names. -/
theorem filter_kept (xs : List String) (attrs : List Tree) :
    ((kept xs attrs).filter fun a => a.attrName?.isNone) = attrs.filter fun a => a.attrName?.isNone := by
  induction attrs generalizing xs with
  | nil => rfl
  | cons a attrs ih =>
      rw [kept_cons, List.filter_append, ih, List.filter_cons]
      cases hname : a.attrName? with
      | none =>
          have hstripped : a.isStrippedAttr = false := by rw [Tree.isStrippedAttr, hname]
          have hnamed : isNamed xs a = false := by rw [isNamed, hname, List.any_eq_false]; exact fun _ _ => nofun
          simp [hstripped, hnamed, hname]
      | some x => split <;> simp [hname]

/-- All spreads are left, and all attributes with a colon. -/
theorem filter_left (kind : InputKind) (attrs : List Tree) :
    ((left kind attrs).filter fun a => a.attrName?.isNone) = attrs.filter fun a => a.attrName?.isNone := by
  have hrefs : (refs kind attrs).filter (fun a => a.attrName?.isNone) = [] := by
    rw [List.filter_eq_nil_iff]
    intro a ha
    rw [attrName?_of_mem_refs ha]
    exact Bool.false_ne_true
  rw [left, List.filter_append, filter_kept, hrefs, List.append_nil]

/-! ## The name of the field -/

/-- The attributes say that the field goes by the name. A field component is named by `name`; an element that this does
not name goes by its `id`, or else by the key of the values that `value` reads, or else it is called `"field"`. The first
attribute of each name is the one that counts, and only if it is a text or an expression: a bare attribute and an empty
one name nothing. -/
inductive SaysName (kind : InputKind) (attrs : List Tree) : FieldName → Prop
  | name {n : FieldName} : kind = .fieldComponent → FieldName.ofValue? (value "name" attrs) = some n →
      SaysName kind attrs n
  | id {n : FieldName} : (kind = .fieldComponent → FieldName.ofValue? (value "name" attrs) = none) →
      FieldName.ofValue? (value "id" attrs) = some n → SaysName kind attrs n
  | read {a : Tree} {o : Origin} {e : Tree} {k : String} :
      (kind = .fieldComponent → FieldName.ofValue? (value "name" attrs) = none) →
      FieldName.ofValue? (value "id" attrs) = none → find? "value" attrs = some a →
      a.attrValue = .markup o .container [e] → e.memberOf? "values" = some k → SaysName kind attrs (.fixed k)
  | unnamed : (kind = .fieldComponent → FieldName.ofValue? (value "name" attrs) = none) →
      FieldName.ofValue? (value "id" attrs) = none →
      (∀ a o e, find? "value" attrs = some a → a.attrValue = .markup o .container [e] →
        e.memberOf? "values" = none) →
      SaysName kind attrs (.fixed "field")

/-- A read of the values says a field's name by its key. -/
theorem ofRead?_eq_some : FieldName.ofRead? a = some n ↔
    ∃ o e k, a.attrValue = .markup o .container [e] ∧ e.memberOf? "values" = some k ∧ n = .fixed k := by
  unfold FieldName.ofRead?
  split
  next o e heq =>
    rw [Option.map_eq_some_iff]
    constructor
    · rintro ⟨k, hk, rfl⟩
      exact ⟨o, e, k, heq, hk, rfl⟩
    · rintro ⟨o', e', k, heq', hk, rfl⟩
      cases heq.symm.trans heq'
      exact ⟨k, hk, rfl⟩
  next hno =>
    refine iff_of_false nofun ?_
    rintro ⟨o, e, k, heq, -⟩
    exact hno o e heq

/-- The name that the conversion finds is the one that the attributes say. -/
theorem saysName_inputName (kind : InputKind) (attrs : List Tree) : SaysName kind attrs (inputName kind attrs) := by
  unfold inputName
  dsimp only
  rw [value_unwired (by decide), value_unwired (by decide)]
  cases hname : (if kind == .fieldComponent then FieldName.ofValue? (value "name" attrs) else none) with
  | some n =>
      obtain ⟨hkind, hname⟩ := Option.ite_none_right_eq_some.mp hname
      exact .name (beq_iff_eq.mp hkind) hname
  | none =>
      have hno : kind = .fieldComponent → FieldName.ofValue? (value "name" attrs) = none := by
        rintro rfl
        exact hname
      rw [Option.none_or]
      cases hid : FieldName.ofValue? (value "id" attrs) with
      | some n => exact .id hno hid
      | none =>
          rw [Option.none_or]
          cases hread : (find? "value" attrs).bind FieldName.ofRead? with
          | some n =>
              obtain ⟨a, ha, hn⟩ := Option.bind_eq_some_iff.mp hread
              obtain ⟨o, e, k, heq, hk, rfl⟩ := ofRead?_eq_some.mp hn
              exact .read hno hid ha heq hk
          | none =>
              refine .unnamed hno hid fun a o e ha heq => ?_
              cases hk : e.memberOf? "values" with
              | none => rfl
              | some k =>
                  rw [ha, Option.bind_some, ofRead?_eq_some.mpr ⟨o, e, k, heq, hk, rfl⟩] at hread
                  cases hread

/-! ## What else an input is made from -/

/-- Stripped attributes do not go into the options of an input. -/
theorem inputOptions_unwired (attrs : List Tree) : inputOptions (unwired attrs) = inputOptions attrs := by
  unfold inputOptions disabled?
  rw [value_unwired (by decide), value_unwired (by decide), value_unwired (by decide)]

theorem inputId_unwired (n : FieldName) (attrs : List Tree) : inputId n (unwired attrs) = inputId n attrs := by
  rw [inputId, find?_unwired (by decide), inputId]

end Attrs

/-! ## Inputs -/

namespace Element

theorem attrs_settle (e : Element) : e.settle.attrs = e.attrs := by
  unfold settle
  split <;> rfl

/-- The attributes of an input, as they are made from those of the element. -/
theorem attrs_toInput (e : Element) (kind : InputKind) (source : FieldSource) :
    (e.toInput kind source).attrs =
      Make.inputProps (source.field (Attrs.inputName kind e.attrs).expr) (Attrs.inputOptions e.attrs) ::
        Attrs.inputId (Attrs.inputName kind e.attrs) e.attrs :: Attrs.left kind e.attrs := by
  rw [← Attrs.inputOptions_unwired, ← Attrs.inputRest_eq, ← Attrs.inputId_unwired]
  unfold toInput
  rw [attrs_settle]
  cases source <;> rfl

/-- The attributes of an input: the spread of `getInputProps` for the field that the element names, with its options; the
element's first `id`, or one made from the name if that is a text; and what is left of the other attributes, in their
order. No wiring is left, and all spreads and attributes with a colon are. -/
theorem toInput_attributes (e : Element) (kind : InputKind) (source : FieldSource) :
    ∃ name, Attrs.SaysName kind e.attrs name ∧
      (e.toInput kind source).attrs =
        Make.inputProps (source.field name.expr) (Attrs.inputOptions e.attrs) ::
          (Attrs.find? "id" e.attrs).getD (Make.stringAttr "id" (name.text?.getD "field-id")) ::
            Attrs.left kind e.attrs ∧
      (∀ a ∈ Attrs.left kind e.attrs, a.isStrippedAttr = false) ∧
      ((Attrs.left kind e.attrs).filter fun a => a.attrName?.isNone) = e.attrs.filter fun a => a.attrName?.isNone :=
  ⟨_, Attrs.saysName_inputName kind e.attrs, attrs_toInput e kind source,
    fun _ => Attrs.isStrippedAttr_of_mem_left, Attrs.filter_left kind e.attrs⟩

end Element

end FormCodemod
