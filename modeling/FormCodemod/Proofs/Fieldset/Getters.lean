import FormCodemod.Proofs.Convert.Frame
import FormCodemod.Proofs.Fieldset.Normal

/-!
# Two conversions of one call

A call of `getFieldProps` becomes a member of the fields in two ways. Where an element spreads it, `getInputProps` is handed
the member that goes by the name the call gives (`Tree.fieldName`), and an options object gives one by its property `name`.
Anywhere else normalization puts the member that goes by the argument as it is.

Normalized, the two are the same member exactly if the argument is no options object with a name
(`Fieldset.getters_agree_iff`). That they differ otherwise is a matter of sizes: what a property holds is smaller than the
object (`Fieldset.size_normalized_lt`), whatever normalization makes of the two.
-/

namespace FormCodemod

namespace Tree

variable {t a v : Tree}

def isAccess : Tree → Bool
  | .expr _ .call _ => true
  | .expr _ .member _ => true
  | _ => false

/-! ## Names of fields -/

/-- The field's name that an options object gives: what its first property `name` holds. -/
def namedField? (a : Tree) : Option Tree :=
  match a.unparen with
  | .expr _ .object [.list ps] => ps.findSome? nameProperty?
  | _ => none

/-- The name that an options object gives is what its first property `name` holds. -/
theorem namedField?_eq_some :
    a.namedField? = some v ↔ ∃ o ps, a.unparen = .expr o .object [.list ps] ∧ ps.findSome? nameProperty? = some v := by
  unfold namedField?
  split
  next o ps heq => simp [heq]
  next hno =>
    refine iff_of_false nofun ?_
    rintro ⟨o, ps, heq, -⟩
    exact hno o ps heq

/-- The name of a field is the one that the argument gives, or else the argument itself. -/
theorem fieldName_eq (h : a.spread? = none) : a.fieldName = a.namedField?.getD a := by
  unfold fieldName
  simp only [h, Option.getD_none]
  split
  next o ps heq => rw [namedField?, heq]
  next hno =>
    have hnone : a.namedField? = none := by
      rw [Option.eq_none_iff_forall_ne_some]
      intro v hv
      obtain ⟨o, ps, heq, -⟩ := namedField?_eq_some.mp hv
      exact hno o ps heq
    rw [hnone, Option.getD_none]

/-! ## Sizes -/

theorem size_unparen_le (t : Tree) : t.unparen.size ≤ t.size := by
  fun_induction unparen t with
  | case1 o e ih => exact Nat.le_trans ih (Nat.le_of_lt (size_lt_of_child (List.mem_singleton.mpr rfl)))
  | case2 => exact Nat.le_refl _

end Tree

namespace Fieldset

variable {t a c callee arg targs v : Tree} {o so : Origin} {k : Kind} {ts : List Tree} {x : String} {e : Element}
  {before after : List Tree} {p : Place}

/-! ## Converted calls -/

/-- A node that is no call stays what it is, around what is converted. -/
theorem gotten_other (hk : (k == .expr .call) = false) : gotten (.node o k ts) = .node o k (ts.map gotten) := by
  rw [gotten_node]
  rcases convertGetter_cases (.node o k (ts.map gotten)) with ⟨-, h⟩ | ⟨o', callee, arg, targs, h, -, -⟩
  · exact h
  · rw [(Tree.node.inj h).2.1] at hk
    cases hk

/-- A call stays one or becomes a member. -/
theorem isAccess_gotten_call (o : Origin) (ts : List Tree) : (gotten (.expr o .call ts)).isAccess = true := by
  rw [Tree.expr, gotten_node]
  rcases convertGetter_cases (.node o (.expr .call) (ts.map gotten)) with ⟨-, h⟩ | ⟨_, _, _, _, -, -, h⟩
  · rw [h]
    rfl
  · rw [h]
    rfl

/-! ### Shapes -/

/-- Calls and members are the nodes that need not stay what they are. -/
theorem rewrites_gotten : Tree.Rewrites Tree.isAccess gotten where
  inside {t} h := by
    unfold Tree.isAccess at h
    split at h
    next o ts => exact isAccess_gotten_call o ts
    next o ts =>
      rw [gotten_other rfl]
      rfl
    next => cases h
  outside {t} h := by
    cases t with
    | node o k ts =>
        refine gotten_other ?_
        rw [beq_eq_false_iff_ne]
        rintro rfl
        cases h
    | list ts => exact gotten_list ts
    | absent => rfl
  shape {t} h := by
    unfold Tree.isShape at h
    split at h
    all_goals first | rfl | cases h

theorem memberKey?_gotten (h : t.memberKey? = some x) : (gotten t).memberKey? = some x := by
  unfold Tree.memberKey? at h
  split at h
  next o obj key =>
    have hmember : gotten (.expr o .member [obj, key]) = .expr o .member [gotten obj, gotten key] := gotten_other rfl
    rw [hmember]
    exact (rewrites_gotten.key? key).trans h
  next => cases h

/-- What is called `getFieldProps` is still called that. -/
theorem isFieldPropsGetter_gotten (h : t.isFieldPropsGetter = true) : (gotten t).isFieldPropsGetter = true := by
  rw [Tree.isFieldPropsGetter_eq, Bool.or_eq_true, beq_iff_eq, beq_iff_eq] at h ⊢
  rw [rewrites_gotten.unparen, rewrites_gotten.ident?]
  exact h.imp_right memberKey?_gotten

/-! ## Normalized trees -/

/-- A node that is neither a call nor a member stays what it is, around what is normalized. -/
theorem normalized_other (hcall : (k == .expr .call) = false) (hmember : (k == .expr .member) = false) :
    normalized (.node o k ts) = .node o k (ts.map normalized) := by
  rw [normalized, gotten_other hcall, spelled_other hmember, List.map_map]
  rfl

/-- Normalization goes on inside parentheses. -/
theorem unparen_normalized (t : Tree) : (normalized t).unparen = normalized t.unparen := by
  rw [normalized, rewrites_spelled.unparen, rewrites_gotten.unparen]
  rfl

/-- A member in brackets is normal apart from its key. -/
theorem spelled_index (a : Tree) :
    spelled (Make.index (Make.ident fieldsName) a) = Make.index (Make.ident fieldsName) (spelled a) := by
  have hkey : spelled (.part .made .index [a]) = .part .made .index [spelled a] := spelled_other rfl
  rw [Make.index, Tree.expr, spelled_node]
  simp only [List.map_cons, List.map_nil, hkey]
  rfl

theorem normalized_index (a : Tree) :
    normalized (Make.index (Make.ident fieldsName) a) = Make.index (Make.ident fieldsName) (normalized a) := by
  have hkey : gotten (.part .made .index [a]) = .part .made .index [gotten a] := gotten_other rfl
  have hindex : gotten (Make.index (Make.ident fieldsName) a) = Make.index (Make.ident fieldsName) (gotten a) := by
    rw [Make.index, Tree.expr, gotten_other rfl]
    simp only [List.map_cons, List.map_nil, hkey]
    rfl
  rw [normalized, hindex, spelled_index]
  rfl

/-- A call that asks for a field becomes the member that goes by the argument. -/
theorem normalized_getter (hcallee : callee.isFieldPropsGetter = true) (harg : arg.spread? = none) :
    normalized (.expr o .call [callee, .list [arg], targs]) = Make.index (Make.ident fieldsName) (normalized arg) := by
  have hgetter := isFieldPropsGetter_gotten hcallee
  have hgotten : gotten (.expr o .call [callee, .list [arg], targs]) = Make.index (Make.ident fieldsName) (gotten arg) := by
    rw [Tree.expr, gotten_node]
    simp only [List.map_cons, List.map_nil, gotten_list]
    simp [convertGetter, hgetter, rewrites_gotten.spread?, harg]
  rw [normalized, hgotten, spelled_index]
  rfl

/-! ### Places -/

/-- Normalization leaves the node what it is, around what is normalized. -/
def IsKept (t : Tree) : Prop := normalized t = t.withChildren (t.children.map normalized)

theorem isKept_list (ts : List Tree) : IsKept (.list ts) := normalized_list ts

theorem isKept_other (hcall : (k == .expr .call) = false) (hmember : (k == .expr .member) = false) :
    IsKept (.node o k ts) :=
  normalized_other hcall hmember

/-- Below nodes that are kept everything stays in its place. -/
theorem at?_normalized (h : t.at? p = some c)
    (habove : ∀ q u, q <+: p → q ≠ p → t.at? q = some u → IsKept u) : (normalized t).at? p = some (normalized c) := by
  induction p generalizing t with
  | nil =>
      cases h
      rfl
  | cons i p ih =>
      obtain ⟨d, hd, hc⟩ := Tree.at?_cons_eq_some.mp h
      have hkept : IsKept t := habove [] t List.nil_prefix (List.cons_ne_nil i p).symm rfl
      refine Tree.at?_cons_eq_some.mpr ⟨normalized d, ?_, ih hc ?_⟩
      · rw [hkept, Tree.children_withChildren (List.length_map _), List.getElem?_map, hd]
        rfl
      · intro q u hq hne hu
        apply habove (i :: q) u
        · exact List.cons_prefix_cons.mpr ⟨rfl, hq⟩
        · exact fun heq => hne (List.cons.inj heq).2
        · rw [Tree.at?_cons_of_some hd, hu]

/-! ## The names are told apart -/

/-- The name in a property does not outgrow the property when both are normalized. -/
theorem size_normalized_nameProperty (h : a.nameProperty? = some v) : (normalized v).size ≤ (normalized a).size := by
  unfold Tree.nameProperty? at h
  split at h
  next o ko ts v =>
    cases h
    rw [normalized_other rfl rfl]
    exact Nat.le_of_lt (Tree.size_lt_of_child (by simp))
  next o ts =>
    cases h
    have hident : normalized (.expr o (.ident "name") []) = .expr o (.ident "name") [] := normalized_other rfl rfl
    rw [hident, Tree.size_eq (normalized _)]
    exact Nat.le_add_left 1 _
  next => cases h

/-- A name that an object gives stays smaller than the object. -/
theorem size_normalized_lt (h : arg.namedField? = some v) : (normalized v).size < (normalized arg).size := by
  obtain ⟨o, ps, harg, hname⟩ := Tree.namedField?_eq_some.mp h
  obtain ⟨a, ha, hv⟩ := List.exists_of_findSome?_eq_some hname
  have hobject : (normalized arg).unparen = .expr o .object [.list (ps.map normalized)] := by
    rw [unparen_normalized, harg, Tree.expr, normalized_other rfl rfl, List.map_singleton, normalized_list]
  calc (normalized v).size
      ≤ (normalized a).size := size_normalized_nameProperty hv
    _ < (Tree.list (ps.map normalized)).size := Tree.size_lt_of_child (List.mem_map_of_mem ha)
    _ < (Tree.expr o .object [.list (ps.map normalized)]).size := Tree.size_lt_of_child (List.mem_singleton.mpr rfl)
    _ ≤ (normalized arg).size := hobject ▸ Tree.size_unparen_le (normalized arg)

theorem index_inj {obj a b : Tree} (h : Make.index obj a = Make.index obj b) : a = b := by
  simpa [Make.index] using h

/-! ## The two conversions -/

/-- A spread of a getter's call becomes one of `getInputProps`, for the field that the
argument names. -/
theorem fieldProps?_spread (hcallee : callee.isFieldPropsGetter = true) (harg : arg.spread? = none)
    (hcall : c.unparen = .expr o .call [callee, .list [arg], targs]) (fieldset : String) (type : Tree) :
    Element.fieldProps? fieldset type (.part so .spread [c]) = some
      (Make.inputProps (Make.index (Make.ident fieldset) (arg.namedField?.getD arg)) [Make.keyValue "type" type], ()) := by
  have hargs : c.fieldPropsArgs? = some [arg] := by
    rw [Tree.fieldPropsArgs?, hcall]
    exact if_pos hcallee
  have hbind : (Tree.part so .spread [c]).spread?.bind Tree.fieldPropsArgs? = some [arg] := hargs
  rw [Element.fieldProps?, hbind, ← Tree.fieldName_eq harg]
  rfl

/-- The first spread of the call is converted, and the `type` of the element moves into the options. -/
theorem convertFieldProps?_eq_some (hcallee : callee.isFieldPropsGetter = true) (harg : arg.spread? = none)
    (hcall : c.unparen = .expr o .call [callee, .list [arg], targs])
    (hattrs : e.attrs = before ++ .part so .spread [c] :: after)
    (hfirst : ∀ b ∈ before, b.isFieldPropsSpread = false) (fieldset : String) :
    e.convertFieldProps? fieldset = some
      { e with attrs := Attrs.erase "type" (before ++
          Make.inputProps (Make.index (Make.ident fieldset) (arg.namedField?.getD arg))
            [Make.keyValue "type" ((Attrs.value "type" e.attrs).toExpr?.getD (Make.str "text"))] :: after) } := by
  have hbefore : ∀ type, ∀ b ∈ before, Element.fieldProps? fieldset type b = none :=
    fun type b hb => FieldMarkup.fieldProps?_eq_none (hfirst b hb) fieldset type
  rw [Element.convertFieldProps?, hattrs]
  rw [mapFirst?_append (hbefore _) (fieldProps?_spread hcallee harg hcall fieldset _)]
  rfl

/-- Two conversions of one call of `getFieldProps` with one argument, which is no spread. Where the call is the first that
an element spreads, `getInputProps` is handed the member of the fields that goes by the name the argument gives, which is
the argument itself if it is no options object with a name. Anywhere else normalization puts the member that goes by the
normalized argument, in the place of the call if what is above is kept. Normalized, the two are the same exactly if the
argument is no such object. -/
theorem getters_agree_iff (hcallee : callee.isFieldPropsGetter = true) (harg : arg.spread? = none)
    (hcall : c.unparen = .expr o .call [callee, .list [arg], targs])
    (hattrs : e.attrs = before ++ .part so .spread [c] :: after)
    (hfirst : ∀ b ∈ before, b.isFieldPropsSpread = false) :
    ∃ handed put,
      handed = Make.index (Make.ident fieldsName) (arg.namedField?.getD arg) ∧
      e.convertFieldProps? fieldsName = some
        { e with attrs := Attrs.erase "type" (before ++
            Make.inputProps handed
              [Make.keyValue "type" ((Attrs.value "type" e.attrs).toExpr?.getD (Make.str "text"))] :: after) } ∧
      put = Make.index (Make.ident fieldsName) (normalized arg) ∧
      (∀ (m : Module) p, m.at? p = some (.expr o .call [callee, .list [arg], targs]) →
        (∀ q u, q <+: p → q ≠ p → m.at? q = some u → IsKept u) → (normalize m).at? p = some put) ∧
      (normalized handed = put ↔ arg.namedField? = none) := by
  refine ⟨_, _, rfl, convertFieldProps?_eq_some hcallee harg hcall hattrs hfirst fieldsName, rfl, ?_, ?_⟩
  · intro m p hplace habove
    have hput : normalized (.expr o .call [callee, .list [arg], targs]) = _ := normalized_getter hcallee harg
    rw [items_normalize, Module.at?, ← normalized_list, ← hput]
    exact at?_normalized hplace habove
  · rw [normalized_index]
    cases hname : arg.namedField? with
    | none => exact iff_of_true rfl rfl
    | some v =>
        refine iff_of_false (fun heq => ?_) nofun
        -- the name that an object gives is smaller than the object
        have hlt := size_normalized_lt hname
        rw [Option.getD_some] at heq
        rw [index_inj heq] at hlt
        exact Nat.lt_irrefl _ hlt

/-- `{ name: "x" }` -/
def optionsArg : Tree := Make.object [Make.keyValue "name" (Make.str "x")]

/-- `<input {...getFieldProps({ name: "x" })}/>` -/
def optionsInput : Element where
  origin := .made
  asValue := false
  selfClosing := true
  name := Make.name "input"
  attrs := [Make.spread (Make.callNamed "getFieldProps" [optionsArg])]
  typeArgs := .absent
  children := []
  closing := .absent

/-- The module of the one statement `getFieldProps({ name: "x" });`. -/
def optionsModule : Module := { origin := .made, items := [Make.exprStmt (Make.callNamed "getFieldProps" [optionsArg])] }

/-- The spread of the call goes by the name `"x"`, and elsewhere the whole object becomes the key: `fields[{ name: "x" }]`. -/
theorem optionsCall_disagrees :
    optionsInput.convertFieldProps? fieldsName = some
      { optionsInput with attrs := [Make.inputProps (Make.index (Make.ident fieldsName) (Make.str "x"))
          [Make.keyValue "type" (Make.str "text")]] } ∧
      (normalize optionsModule).at? [0, 0] = some (Make.index (Make.ident fieldsName) optionsArg) ∧
      normalized (Make.index (Make.ident fieldsName) (Make.str "x")) ≠ Make.index (Make.ident fieldsName) optionsArg := by
  have habove : ∀ q u, q <+: [0, 0] → q ≠ [0, 0] → optionsModule.at? q = some u → IsKept u := by
    intro q u hq hne hu
    obtain rfl | ⟨q, rfl, hrest⟩ := List.prefix_cons_iff.mp hq
    · cases hu
      exact isKept_list _
    · obtain rfl | ⟨q, rfl, hnil⟩ := List.prefix_cons_iff.mp hrest
      · cases hu
        exact isKept_other rfl rfl
      · exact (hne (by rw [List.prefix_nil.mp hnil])).elim
  have hgetter : (Make.ident "getFieldProps").isFieldPropsGetter = true := rfl
  have hattrs : optionsInput.attrs = [] ++ [Make.spread (Make.callNamed "getFieldProps" [optionsArg])] := rfl
  obtain ⟨handed, put, rfl, hhanded, rfl, hput, hiff⟩ := getters_agree_iff hgetter rfl rfl hattrs nofun
  exact ⟨hhanded, hput optionsModule [0, 0] rfl habove, fun heq => nomatch hiff.mp heq⟩

end Fieldset

end FormCodemod
