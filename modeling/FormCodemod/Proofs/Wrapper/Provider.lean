import FormCodemod.Proofs.Wrapper.Converted

/-!
# The provider around the markup

What a wrapper renders may ask for the form, if it renders components of the user's own (`Element.IsCustom`). A provider
around the markup answers them. It is put there exactly if one of these components has a plain tag that begins with a
capital from `A` to `Z` (`FormWrapper.takeApart_provides`): the search goes everywhere in the markup, but it knows no other
tags. Markup whose components all go by dotted tags, such as `Ui.Input`, is left without.
-/

namespace FormCodemod

/-- An element of a component that is not the library's. Its tag is dotted, or it is plain, not the library's, and begins
with something else than a lower-case letter. -/
inductive Element.IsCustom (names : LibraryNames) (e : Element) : Prop
  | dotted (o : Origin) (ts : List Tree) (hname : e.name = .markup o .tagMember ts)
  | plain (x : String) (htag : e.tag? = some x) (hlower : x.toList.head?.any Char.isLower = false)
      (hlibrary : names.isLibraryTag x = false)

namespace FormWrapper

variable {names : LibraryNames} {e : Element} {s : Site} {x : String} {P : String → Bool} {body t : Tree} {p : Place}

/-! ## The search -/

theorem hasTag_eq_false_iff :
    hasTag P t = false ↔ ∀ (q : Place) (e : Element) (x : String),
      t.at? q = some e.toTree → e.tag? = some x → P x = false := by
  rw [hasTag, Tree.any_eq_false_iff]
  constructor
  · intro h q e x hq hx
    have hno := h q e.toTree hq rfl
    rwa [Tree.element?_toTree, Option.any_some, hx, Option.any_some] at hno
  · intro h q u hu _
    cases he : u.element? with
    | none => rfl
    | some e =>
        rw [← Tree.toTree_of_element? he] at hu
        cases hx : e.tag? with
        | none => rw [Option.any_some, hx, Option.any_none]
        | some x => rw [Option.any_some, hx, Option.any_some, h q e x hu hx]

/-- The search finds exactly the elements with a plain tag of the sort. -/
theorem hasTag_iff : hasTag P t = true ↔
    ∃ (q : Place) (e : Element) (x : String), t.at? q = some e.toTree ∧ e.tag? = some x ∧ P x = true := by
  constructor
  · intro h
    by_contra hno
    have hfalse : hasTag P t = false := by
      refine hasTag_eq_false_iff.mpr fun q e x hq hx => ?_
      rw [← Bool.not_eq_true]
      exact fun hP => hno ⟨q, e, x, hq, hx, hP⟩
    rw [hfalse] at h
    cases h
  · rintro ⟨q, e, x, hq, hx, hP⟩
    rw [← Bool.not_eq_false]
    intro hfalse
    rw [hasTag_eq_false_iff.mp hfalse q e x hq hx] at hP
    cases hP

/-- A capital is no lower-case letter. -/
theorem isLower_of_isComponentName (h : isComponentName x = true) : x.toList.head?.any Char.isLower = false := by
  unfold isComponentName at h
  cases hc : x.toList.head? with
  | none => rfl
  | some c =>
      rw [hc, Option.any_some] at h
      have hupper : c.val ≥ 'A'.val ∧ c.val ≤ 'Z'.val := of_decide_eq_true h
      have hnot : ¬ c.val ≥ 'a'.val := fun hlower => absurd (UInt32.le_trans hlower hupper.2) (by decide)
      show (decide (c.val ≥ 'a'.val) && decide (c.val ≤ 'z'.val)) = false
      rw [decide_eq_false hnot, Bool.false_and]

/-- What the search takes for a component is one with a plain tag that begins with a capital. -/
theorem isCustomTag_iff (htag : e.tag? = some x) :
    isCustomTag names x = true ↔ e.IsCustom names ∧ isComponentName x = true := by
  rw [isCustomTag, Bool.and_eq_true, Bool.not_eq_true']
  constructor
  · rintro ⟨hname, hlibrary⟩
    exact ⟨.plain x htag (isLower_of_isComponentName hname) hlibrary, hname⟩
  · rintro ⟨hcustom, hname⟩
    refine ⟨hname, ?_⟩
    cases hcustom with
    | dotted o ts hdotted =>
        rw [Element.tag?, hdotted] at htag
        cases htag
    | plain y hy hlower hlibrary =>
        obtain rfl := Option.some.inj (hy.symm.trans htag)
        exact hlibrary

/-! ## The provider -/

def withProvider (markup : Tree) : Tree :=
  Make.element "FormProvider" [Make.exprAttr "context" (Make.member (Make.ident formName) "context")] [markup]

theorem withProvider_ne (markup : Tree) : withProvider markup ≠ markup := by
  intro heq
  have hlt : markup.size < (withProvider markup).size :=
    calc markup.size
        < (Tree.list [markup]).size := Tree.size_lt_of_child (List.mem_singleton.mpr rfl)
      _ < (withProvider markup).size := Tree.size_lt_of_child (by simp [withProvider, Make.element])
  rw [heq] at hlt
  exact Nat.lt_irrefl _ hlt

/-- A provider is put around markup exactly if the search finds a custom tag in it. -/
theorem provide_eq_withProvider_iff (markup : Tree) :
    provide names markup = withProvider markup ↔ hasTag (isCustomTag names) markup = true := by
  unfold provide
  split
  next h => exact iff_of_true rfl h
  next h => exact iff_of_false (withProvider_ne markup).symm h

/-- What is put in the place of a wrapper stands where the wrapper stood. -/
theorem at?_fill (h : StandsAt names body p e) (M : Tree) : (fill names M body).at? p = some M := by
  obtain ⟨hreached, ⟨u, hu, hw⟩, hfirst⟩ := standsAt_iff.mp h
  have hnode : ∀ v, v.isNode = false → fillRule names M v = none := by
    intro v hv
    rw [fillRule, (only_nodes_matter v hv).2, Option.map_none]
  refine Tree.FindsFirst.at?_mapDown hnode ⟨hreached, ⟨u, hu, ?_⟩, ?_⟩
  · rw [fillRule, hw, Option.map_some]
  · intro q hq hne v hv
    rw [fillRule, hfirst q hq hne v hv, Option.map_none]

/-- What takes the place of a wrapper is the markup that is inside of it, in a provider of the form or bare. It is in a
provider exactly if the markup holds, at any place, an element of a component of the user's own that has a plain tag which
begins with a capital from `A` to `Z`. -/
theorem takeApart_provides (h : takeApart names e = .ok s) :
    Rendering.Inside e s.rendering ∧
      (∀ body p, StandsAt names body p e → (fill names s.markup body).at? p = some s.markup) ∧
      (s.markup = withProvider s.rendering.markup ∨ s.markup = s.rendering.markup) ∧
      (s.markup = withProvider s.rendering.markup ↔
        ∃ (q : Place) (c : Element) (x : String), s.rendering.markup.at? q = some c.toTree ∧ c.IsCustom names ∧
          c.tag? = some x ∧ isComponentName x = true) := by
  obtain ⟨hinside, -, -, hmarkup⟩ := takeApart_inv h
  refine ⟨hinside, ?_, ?_, ?_⟩
  · exact fun body p hstands => at?_fill hstands s.markup
  · rw [hmarkup, provide]
    split
    next => exact .inl rfl
    next => exact .inr rfl
  · rw [hmarkup, provide_eq_withProvider_iff, hasTag_iff]
    constructor
    · rintro ⟨q, c, x, hq, hx, hcustom⟩
      obtain ⟨hc, hname⟩ := (isCustomTag_iff hx).mp hcustom
      exact ⟨q, c, x, hq, hc, hx, hname⟩
    · rintro ⟨q, c, x, hq, hc, hx, hname⟩
      exact ⟨q, c, x, hq, hx, (isCustomTag_iff hx).mpr ⟨hc, hname⟩⟩

/-- `<Ui.Input/>` -/
def dottedInput : Element :=
  { origin := .made, asValue := false, selfClosing := true,
    name := .markup .made .tagMember [Make.name "Ui", Make.key "Input"],
    attrs := [], typeArgs := .absent, children := [], closing := .absent }

/-- `<Formik onSubmit={save}>{() => <form><Ui.Input/></form>}</Formik>` -/
def dottedForm : Element :=
  { origin := .made, asValue := false, selfClosing := false, name := Make.name "Formik",
    attrs := [Make.exprAttr "onSubmit" (Make.ident "save")], typeArgs := .absent,
    children := [Make.container (Make.arrow [] (Make.element "form" [] [dottedInput.toTree]))],
    closing := Make.name "Formik" }

/-- A component with a dotted tag is rendered without a provider. -/
theorem dottedForm_without_provider :
    ∃ s, takeApart {} dottedForm = .ok s ∧
      (∃ (q : Place) (c : Element), s.rendering.markup.at? q = some c.toTree ∧ c.IsCustom {}) ∧
      s.markup ≠ withProvider s.rendering.markup ∧ s.markup = s.rendering.markup := by
  refine ⟨_, rfl, ⟨[3, 0], dottedInput, rfl, .dotted _ _ rfl⟩, ?_⟩
  have hok : takeApart {} dottedForm = .ok _ := rfl
  obtain ⟨-, -, hor, hiff⟩ := takeApart_provides hok
  have hplain : hasTag isComponentName (Make.element "form" [] [dottedInput.toTree]) = false := by decide
  have hbare := mt hiff.mp fun ⟨q, c, x, hq, _, hx, hname⟩ => by
    rw [hasTag_eq_false_iff.mp hplain q c x hq hx] at hname
    cases hname
  exact ⟨hbare, hor.resolve_left hbare⟩

end FormWrapper

end FormCodemod
