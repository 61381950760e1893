import FormCodemod.Convert.Capabilities
import FormCodemod.Proofs.Inputs.Attributes
import FormCodemod.Proofs.Scope.Uses

/-!
# Names that inputs refer to

Which helpers a scope gets is decided before its inputs are converted, from the names that the scope refers to outside the
wiring of its inputs. Nothing that an input keeps is overlooked that way (`Element.uses_toInput`): what is left of its
attributes is no wiring, and what is moved into the options or into the name of the field was no wiring before
(`Attrs.unwiredUses_value`). The one exception, the field that `value` shows, is named by a text.
-/

namespace FormCodemod

variable {names : LibraryNames} {use : Use} {a : Tree} {attrs : List Tree} {kind : InputKind} {n : FieldName} {x : String}

/-! ## The opening tag -/

namespace Element

def openingUses (s : Skip) (e : Element) : List Use :=
  if s.wired e then e.name.usesWith s ++ Tree.usesKept s e.attrs
  else e.name.usesWith s ++ Tree.allUsesWith s e.attrs ++ e.typeArgs.usesWith s

/-- What an input is made from. -/
def inputKind (names : LibraryNames) (e : Element) : InputKind :=
  if e.tag? == some names.field then .fieldComponent else .native

end Element

namespace Tree

/-- The uses of an element are those of its opening tag, its children and its closing tag. -/
theorem usesWith_toTree (s : Skip) (e : Element) :
    e.toTree.usesWith s = e.openingUses s ++ allUsesWith s e.children ++ e.closing.usesWith s := by
  unfold Element.openingUses
  split
  next h => exact usesWith_of_wired h
  next h =>
    rw [Element.toTree, usesWith, if_neg (by exact Bool.false_ne_true)]
    exact if_neg h

/-! ## Attributes and what they say -/

theorem usesWith_attr (s : Skip) (o : Origin) (k v : Tree) :
    (markup o .attr [k, v]).usesWith s = k.usesWith s ++ v.usesWith s :=
  congrArg (k.usesWith s ++ ·) (List.append_nil (v.usesWith s))

theorem usesWith_container (s : Skip) (o : Origin) (e : Tree) :
    (markup o .container [e]).usesWith s = e.usesWith s := List.append_nil _

theorem usesWith_spread (s : Skip) (e : Tree) : (Make.spread e).usesWith s = e.usesWith s := List.append_nil _

theorem usesWith_keyValue (s : Skip) (k : String) (v : Tree) : (Make.keyValue k v).usesWith s = v.usesWith s :=
  List.append_nil _

theorem usesWith_object (s : Skip) (ps : List Tree) : (Make.object ps).usesWith s = allUsesWith s ps := List.append_nil _

theorem usesWith_callNamed (s : Skip) (f : String) (args : List Tree) :
    (Make.callNamed f args).usesWith s = .call f :: .ref f :: allUsesWith s args :=
  congrArg (Use.call f :: Use.ref f :: ·) (List.append_nil (allUsesWith s args))

theorem usesWith_index (s : Skip) (x : String) (k : Tree) :
    (Make.index (Make.ident x) k).usesWith s = .ref x :: k.usesWith s :=
  congrArg (Use.ref x :: ·) ((List.append_nil _).trans (List.append_nil (k.usesWith s)))

/-- Whether an element stands bare as the value of an attribute makes no difference. -/
theorem unwiredUses_asExpr (names : LibraryNames) (t : Tree) : t.asExpr.unwiredUses names = t.unwiredUses names := by
  cases he : t.element? with
  | some e =>
      obtain rfl := toTree_of_element? he
      have hbare : e.toTree.asExpr = { e with asValue := false }.toTree := rfl
      rw [unwiredUses, hbare, usesWith_toTree, unwiredUses, usesWith_toTree]
      rfl
  | none =>
      unfold asExpr
      split
      next o sc av ts =>
        have hno : ∀ av, (markup o (.element sc av) ts).unwiredUses names = allUsesWith (.wiring names) ts := by
          intro av
          rw [unwiredUses, usesWith, if_neg (by exact Bool.false_ne_true)]
          · rfl
          · rintro _ _ _ _ _ _ _ _ ⟨⟩ ⟨⟩
            cases he
        rw [hno, hno]
      next => rfl

/-- What the value of an attribute refers to, the attribute refers to. -/
theorem mem_unwiredUses_of_attrValue (h : use ∈ a.attrValue.unwiredUses names) : use ∈ a.unwiredUses names := by
  unfold attrValue at h
  split at h
  next o k v =>
    rw [unwiredUses, usesWith_attr]
    exact List.mem_append_right _ h
  next => cases h

/-- What attributes say uses no more than they do. -/
theorem carried_unwiredUses (names : LibraryNames) (uses : List Use) :
    Carried fun t => t.unwiredUses names ⊆ uses where
  absent := nofun
  str := nofun
  bool := nofun
  keyValue {k v} h := by rwa [unwiredUses, usesWith_keyValue]
  contained h := by rwa [unwiredUses, usesWith_container] at h

theorem usesWith_toRef {s : Skip} (h : use ∈ (Attrs.toRef a).usesWith s) : use ∈ a.usesWith s := by
  unfold Attrs.toRef at h
  split at h
  next o k v =>
    rw [usesWith_attr] at h ⊢
    exact List.mem_append_right _ h
  next => exact h

end Tree

/-! ## Moved attributes -/

namespace Attrs

/-- An attribute that is no wiring is not left out. -/
theorem unwiredUses_subset (ha : a ∈ attrs) (hstripped : a.isStrippedAttr = false) :
    a.unwiredUses names ⊆ Tree.usesKept (.wiring names) attrs := by
  intro use h
  rw [Tree.usesKept_eq_flatMap]
  exact List.mem_flatMap.mpr ⟨a, List.mem_filter.mpr ⟨ha, Bool.not_eq_true' _ ▸ hstripped⟩, h⟩

/-- What attributes with a name say that no wiring has is not left out. -/
theorem unwiredUses_value (names : LibraryNames) (attrs : List Tree) (hx : x ∉ wiringAttrs) :
    (value x attrs).Holds fun t => t.unwiredUses names ⊆ Tree.usesKept (.wiring names) attrs := by
  refine holds_value (Tree.carried_unwiredUses names _) fun a ha hname use h => ?_
  rw [Tree.unwiredUses_asExpr] at h
  exact unwiredUses_subset ha (isStrippedAttr_of_name hname hx) (Tree.mem_unwiredUses_of_attrValue h)

/-- The options refer to nothing that is left out. -/
theorem unwiredUses_inputOptions (names : LibraryNames) (attrs : List Tree) :
    ∀ t ∈ inputOptions attrs, t.unwiredUses names ⊆ Tree.usesKept (.wiring names) attrs := by
  have hwiring : ∀ x ∈ inputAttrs, x ∉ wiringAttrs := by decide
  exact holds_inputOptions (Tree.carried_unwiredUses names _) fun x hx => unwiredUses_value names attrs (hwiring x hx)

/-- The name of the field refers to nothing that is left out. -/
theorem SaysName.unwiredUses (names : LibraryNames) (h : SaysName kind attrs n) :
    n.expr.unwiredUses names ⊆ Tree.usesKept (.wiring names) attrs := by
  have hQ := Tree.carried_unwiredUses names (Tree.usesKept (.wiring names) attrs)
  cases h with
  | name _ hname => exact (unwiredUses_value names attrs (by decide)).ofValue? hQ hname
  | id _ hid => exact (unwiredUses_value names attrs (by decide)).ofValue? hQ hid
  | read => exact hQ.str
  | unnamed => exact hQ.str

/-! ## Attributes that are left -/

/-- An attribute that is left uses nothing but what the kept ones used. -/
theorem unwiredUses_of_mem_left (names : LibraryNames) (h : a ∈ left kind attrs) :
    a.unwiredUses names ⊆ Tree.usesKept (.wiring names) attrs := by
  rcases List.mem_append.mp h with h | h
  · obtain ⟨hmem, hstripped⟩ := mem_of_mem_kept h
    exact unwiredUses_subset hmem hstripped
  · cases kind with
    | native => cases h
    | fieldComponent =>
        obtain ⟨b, hb, rfl⟩ := Option.map_eq_some_iff.mp (Option.mem_toList.mp h)
        obtain ⟨hmem, hname⟩ := attrName?_of_find? hb
        exact fun use h => unwiredUses_subset hmem (isStrippedAttr_of_name hname (by decide)) (Tree.usesWith_toRef h)

/-- The `id` refers to nothing that is left out. -/
theorem unwiredUses_inputId (names : LibraryNames) (n : FieldName) (attrs : List Tree) :
    (inputId n attrs).unwiredUses names ⊆ Tree.usesKept (.wiring names) attrs := by
  unfold inputId
  cases hfind : find? "id" attrs with
  | some id =>
      obtain ⟨hmem, hname⟩ := attrName?_of_find? hfind
      exact unwiredUses_subset hmem (isStrippedAttr_of_name hname (by decide))
  | none => exact List.nil_subset _

end Attrs

/-! ## Inputs -/

namespace Capabilities

variable {taken : Renaming} {uses uses' : List Use} {declared : List String}

/-- Which capabilities are needed depends on nothing but the uses of their own names. -/
theorem resolve_congr (h : ∀ k ∈ flattened, .ref k ∈ uses ↔ .ref k ∈ uses') :
    resolve taken uses declared = resolve taken uses' declared := by
  have hcontains : ∀ k ∈ flattened, uses.contains (.ref k) = uses'.contains (.ref k) := by
    intro k hk
    rw [Bool.eq_iff_iff, List.contains_iff_mem, List.contains_iff_mem]
    exact h k hk
  unfold resolve
  dsimp only
  rw [hcontains "values" (by decide), hcontains "setFieldValue" (by decide), hcontains "setFieldTouched" (by decide),
    hcontains "isSubmitting" (by decide), hcontains "getFieldProps" (by decide)]

theorem wholeHelper_congr (h : .ref x ∈ uses ↔ .ref x ∈ uses') :
    wholeHelper uses (some x) = wholeHelper uses' (some x) := by
  have hcontains : uses.contains (.ref x) = uses'.contains (.ref x) := by
    rw [Bool.eq_iff_iff, List.contains_iff_mem, List.contains_iff_mem]
    exact h
  unfold wholeHelper
  dsimp only
  rw [hcontains]

end Capabilities

namespace Element

variable {e : Element} {fieldset : String}

def inputUses (names : LibraryNames) (fieldset : String) (e : Element) : List Use :=
  Tree.allUsesWith (.wiring names) (e.toInput (e.inputKind names) (.fieldset fieldset)).attrs

def madeUses (fieldset : String) : List Use := [.call "getInputProps", .ref "getInputProps", .ref fieldset]

/-- What is referred to by the spread of `getInputProps` for a member of the fields. -/
theorem usesWith_inputProps (s : Skip) (fieldset : String) (key : Tree) (options : List Tree) :
    (Make.inputProps (Make.index (Make.ident fieldset) key) options).usesWith s =
      madeUses fieldset ++ key.usesWith s ++ Tree.allUsesWith s options := by
  rw [Make.inputProps, Tree.usesWith_spread, Tree.usesWith_callNamed, Tree.allUsesWith_eq_flatMap, List.flatMap_cons,
    List.flatMap_singleton, Tree.usesWith_index, Tree.usesWith_object]
  rfl

/-- An input refers to nothing but what it is made with and what the element refers to outside its wiring. -/
theorem mem_usesKept_of_mem_inputUses (h : use ∈ e.inputUses names fieldset) (hno : use ∉ madeUses fieldset) :
    use ∈ Tree.usesKept (.wiring names) e.attrs := by
  rw [inputUses, attrs_toInput, Tree.allUsesWith, Tree.allUsesWith, FieldSource.field, usesWith_inputProps] at h
  simp only [List.mem_append, or_assoc] at h
  rcases h with hmade | hkey | hoptions | hid | hleft
  · exact absurd hmade hno
  · exact (Attrs.saysName_inputName _ _).unwiredUses names hkey
  · rw [Tree.allUsesWith_eq_flatMap] at hoptions
    obtain ⟨option, hmem, hoption⟩ := List.mem_flatMap.mp hoptions
    exact Attrs.unwiredUses_inputOptions names e.attrs option hmem hoption
  · exact Attrs.unwiredUses_inputId names _ e.attrs hid
  · rw [Tree.allUsesWith_eq_flatMap] at hleft
    obtain ⟨a, hmem, ha⟩ := List.mem_flatMap.mp hleft
    exact Attrs.unwiredUses_of_mem_left names hmem ha

/-- All that the attributes of an input refer to, but the fields and `getInputProps`, the opening tag of the element refers
to outside its wiring. So a scope that refers to what the opening tag refers to needs the same capabilities whether what the
input refers to is counted or not, and it keeps the whole form state under a name just the same. -/
theorem uses_toInput (h : e.isConvertedInput names = true) (fieldset : String) :
    (∀ use ∈ e.inputUses names fieldset, use ∉ madeUses fieldset → use ∈ e.openingUses (.wiring names)) ∧
      ∀ uses, e.openingUses (.wiring names) ⊆ uses →
        (fieldset ∉ flattened → ∀ taken declared,
          Capabilities.resolve taken (uses ++ e.inputUses names fieldset) declared =
            Capabilities.resolve taken uses declared) ∧
        ∀ x, x ≠ fieldset → x ≠ "getInputProps" →
          Capabilities.wholeHelper (uses ++ e.inputUses names fieldset) (some x) =
            Capabilities.wholeHelper uses (some x) := by
  have hopening :
      ∀ use ∈ e.inputUses names fieldset, use ∉ madeUses fieldset → use ∈ e.openingUses (.wiring names) := by
    intro use huse hno
    rw [openingUses, if_pos (by exact h)]
    exact List.mem_append_right _ (mem_usesKept_of_mem_inputUses huse hno)
  refine ⟨hopening, fun uses hsub => ?_⟩
  have hrefs : ∀ x, x ≠ fieldset → x ≠ "getInputProps" →
      (.ref x ∈ uses ++ e.inputUses names fieldset ↔ .ref x ∈ uses) := by
    intro x hx hx'
    rw [List.mem_append]
    exact or_iff_left_of_imp fun huse => hsub (hopening _ huse (by simp [madeUses, hx, hx']))
  refine ⟨fun hfieldset taken declared => Capabilities.resolve_congr fun k hk => hrefs k ?_ ?_,
    fun x hx hx' => Capabilities.wholeHelper_congr (hrefs x hx hx')⟩
  · rintro rfl
    exact hfieldset hk
  · rintro rfl
    revert hk
    decide

/-- `<input id={id} value={values.name} onChange={handleChange} placeholder={values.hint} />` -/
def hintedInput : Element :=
  let valuesMember := Make.member (Make.ident "values")
  { origin := .made, asValue := false, selfClosing := true, name := Make.name "input"
    attrs :=
      [Make.exprAttr "id" (Make.ident "id"), Make.exprAttr "value" (valuesMember "name"),
        Make.exprAttr "onChange" (Make.ident "handleChange"), Make.exprAttr "placeholder" (valuesMember "hint")]
    typeArgs := .absent, children := [], closing := .absent }

/-- The values are needed for the placeholder, though the value that is shown goes. -/
theorem hintedInput_uses :
    hintedInput.isConvertedInput {} = true ∧ .ref "values" ∈ hintedInput.inputUses {} fieldsName ∧
      .ref "values" ∈ hintedInput.openingUses (.wiring {}) ∧
      Capabilities.resolve [] (hintedInput.openingUses (.wiring {}) ++ hintedInput.inputUses {} fieldsName) [] =
        Capabilities.resolve [] (hintedInput.openingUses (.wiring {})) [] := by
  have h : hintedInput.isConvertedInput {} = true := by decide
  have hvalues : .ref "values" ∈ hintedInput.inputUses {} fieldsName := by decide
  obtain ⟨hopening, hneeds⟩ := uses_toInput h fieldsName
  exact ⟨h, hvalues, hopening _ hvalues (by decide), (hneeds _ (List.Subset.refl _)).1 (by decide) [] []⟩

end Element

end FormCodemod
