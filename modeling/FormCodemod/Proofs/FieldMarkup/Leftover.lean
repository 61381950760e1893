import FormCodemod.Proofs.Convert.Frame
import FormCodemod.Proofs.Convert.Settled
import FormCodemod.Proofs.FieldMarkup.Converted
import FormCodemod.Proofs.Names.Elements

/-!
# Markup that is left

The field pass converts the forms, the fields and the error messages of the library. `FieldMarkup.convertScope_markup`
says what is left of them in a scope: no form and no field, wherever they stood, and no error message that stands as an
expression or as a child.

The last of these does not hold in general. An error message that stands bare as the value of an attribute is neither, and is
left alone. But some attributes are taken out of their elements (`Attrs.inputAttrs`), so the message becomes an
expression after all, and it is not looked at again (`movedBody_markup`).
-/

namespace FormCodemod

/-! ## What is looked for -/

namespace Tree

/-- An element with the tag that stands bare as the value of an attribute. -/
def isBare (x : String) (t : Tree) : Bool := t.element?.any fun e => e.tag? == some x && e.asValue

/-- An element with the tag that stands as an expression or as a child. -/
def isLoose (x : String) (t : Tree) : Bool := t.element?.any fun e => e.tag? == some x && !e.asValue

/-- An attribute of those that are taken out of their elements, with a bare element as its value. -/
def movesBare (x : String) (a : Tree) : Bool :=
  (a.attrName?.any Attrs.inputAttrs.contains) && a.attrValue.isBare x

/-! ## Scopes without an element -/

variable {p : Element → Bool} {bad : Tree → Bool} {t v a : Tree} {e : Element} {x : String} {tags : List String}

/-- No element of the sort belongs to the scope. -/
abbrev LacksElement (p : Element → Bool) (t : Tree) : Prop := Lacks opensScope (fun u => u.element?.any p) t

/-- A scope lacks an element if it is none itself and its parts lack it. -/
theorem lacksElement_of_children (hp : t.element?.any p = false) (h : ∀ c ∈ t.children, LacksElement p c) :
    LacksElement p t := by
  cases t with
  | node o k ts =>
      cases hs : (node o k ts).opensScope with
      | true => exact .stopped hs
      | false => exact .node hs hp h
  | list ts => exact .list h
  | absent => exact .absent

theorem element?_of_isNeutral {o : Origin} {k : Kind} {ts : List Tree} (h : k.isNeutral = true) :
    (node o k ts).element? = none := by
  cases he : (node o k ts).element? with
  | none => rfl
  | some e =>
      have htree := toTree_of_element? he
      rw [Element.toTree, node.injEq] at htree
      obtain ⟨-, rfl, -⟩ := htree
      cases h

/-- Most nodes lack an element exactly if their children do. -/
theorem lacksElement_node {o : Origin} {k : Kind} {ts : List Tree} (h : k.isNeutral = true) :
    LacksElement p (node o k ts) ↔ ∀ t ∈ ts, LacksElement p t := by
  constructor
  · intro hlacks
    exact (hlacks.node_inv (opensScope_of_isNeutral h)).2
  · intro hts
    refine lacksElement_of_children ?_ hts
    rw [element?_of_isNeutral h]
    rfl

/-- What a run of trees lacks, each of them lacks. -/
theorem Lacks.list_inv {stop P : Tree → Bool} {ts : List Tree} (h : Lacks stop P (.list ts)) : ∀ t ∈ ts, Lacks stop P t := by
  cases h with
  | list hts => exact hts

theorem lacksElement_hereditary (p : Element → Bool) : Hereditary (LacksElement p) where
  node hk := lacksElement_node (isNeutral_of_isBasic hk)
  list := ⟨Lacks.list_inv, .list⟩
  absent := .absent

/-- An element lacks others if its parts do. -/
theorem lacksElement_toTree {A : Tree → Prop} (hp : p e = false) (h : e.Parts (LacksElement p) A)
    (hA : ∀ a, A a → LacksElement p a) : LacksElement p e.toTree := by
  refine lacksElement_of_children hp fun c hc => ?_
  simp only [Element.toTree, children_node, List.mem_cons, List.not_mem_nil, or_false] at hc
  rcases hc with rfl | rfl | rfl | rfl | rfl
  · exact h.name
  · exact .list fun a ha => hA a (h.attrs a ha)
  · exact h.typeArgs
  · exact .list h.children
  · exact h.closing

theorem Lacks.statements (h : LacksElement p t) : ∀ u ∈ t.statements, LacksElement p u := by
  unfold Tree.statements Tree.statements?
  split
  · exact (lacksElement_node rfl).mp h
  · simpa [Make.ret, lacksElement_node] using h

/-- A scope that lacks elements of the sort is none itself. -/
theorem Lacks.element (h : LacksElement p e.toTree) : p e = false := by
  have hnode := (h.node_inv rfl).1
  exact hnode

/-- An element that becomes an expression is judged anew, its parts are not. -/
theorem lacksElement_asExpr (h : LacksElement p v) (hv : ∀ e, v.element? = some e → p { e with asValue := false } = false) :
    LacksElement p v.asExpr := by
  unfold asExpr
  split
  next o s b ts =>
    refine lacksElement_of_children ?_ (h.node_inv rfl).2
    rw [Option.any_eq_false]
    intro e' he'
    have htree := toTree_of_element? he'
    rw [Element.toTree, node.injEq] at htree
    obtain ⟨rfl, hkind, rfl⟩ := htree
    simp only [Kind.markup.injEq, MarkupKind.element.injEq] at hkind
    obtain ⟨rfl, hvalue⟩ := hkind
    have hsame : { e' with asValue := false } = e' := by rw [← hvalue]
    exact hsame ▸ hv { e' with asValue := b } rfl
  next => exact h

/-! ## Attributes -/

theorem exists_of_attrName? (h : a.attrName? = some x) : ∃ o ts, a = .markup o .attr ts := by
  unfold attrName? at h
  split at h
  · exact ⟨_, _, rfl⟩
  · cases h

/-- A traversal comes to the attributes of the elements that it comes to. -/
theorem Lacks.attr (h : Lacks opensScope bad a) (hname : a.attrName? = some x) : bad a = false := by
  obtain ⟨o, ts, rfl⟩ := exists_of_attrName? hname
  exact (h.node_inv rfl).1

/-- What an element lacks, its attributes lack. -/
theorem Lacks.attrs (h : Lacks opensScope bad e.toTree) : ∀ a ∈ e.attrs, Lacks opensScope bad a :=
  ((h.node_inv rfl).2 (.list e.attrs) (by simp)).list_inv

/-- Only attributes ask for tags. -/
theorem Lacks.asksFor_eq_false (h : Lacks opensScope (asksFor tags) a) : a.asksFor tags = false := by
  rw [← Bool.not_eq_true]
  intro hasks
  obtain ⟨tag, -, htag⟩ := asksFor_eq_true.mp hasks
  rcases (askedTag?_eq_some.mp htag).1 with hname | hname
  · rw [h.attr hname] at hasks
    cases hasks
  · rw [h.attr hname] at hasks
    cases hasks

/-- Only nodes have values as attributes, and a traversal that comes to them comes to the values. -/
theorem Lacks.attrValue (h : Lacks opensScope bad a) : Lacks opensScope bad a.attrValue := by
  unfold Tree.attrValue
  split
  · exact (h.node_inv rfl).2 _ (by simp)
  · exact .absent

/-- Elements around rewritten parts ask for the tags that they asked for. -/
theorem Lacks.asksFor_mapParts {g : Tree → Tree} (hg : RewritesMarkup g) (h : Lacks opensScope (asksFor tags) e.toTree) :
    ∀ a ∈ (e.mapParts g).attrs, a.asksFor tags = false := by
  intro a' ha'
  obtain ⟨a, ha, rfl⟩ := List.mem_map.mp ha'
  rw [Tree.asksFor, hg.askedTag?]
  exact (h.attrs a ha).asksFor_eq_false

/-- The attribute does not bring an element of the sort to where it has not been. -/
structure Movable (p : Element → Bool) (a : Tree) : Prop where
  lacks : LacksElement p a
  value : ∀ x ∈ Attrs.inputAttrs, a.attrName? = some x → LacksElement p a.attrValue.asExpr

/-- Attributes that may be moved, and those that are made, bring in no element of the sort. -/
theorem movable_closed (p : Element → Bool) : Attrs.Closed (LacksElement p) (Movable p) where
  whole h := h.lacks
  moved h hx hname := h.value _ hx hname
  inputProps hfield hoptions := ⟨(lacksElement_hereditary p).inputProps.mpr ⟨hfield, hoptions⟩, nofun⟩
  id {s} := by
    have hvalue : LacksElement p (Make.str s) := (lacksElement_hereditary p).str
    exact ⟨(lacksElement_hereditary p).attr.mpr hvalue, fun _ _ _ => hvalue⟩
  ref {a} h := by
    unfold Attrs.toRef
    split
    next o k v =>
      have hv : LacksElement p v := (lacksElement_node rfl).mp h.lacks v (by simp)
      refine ⟨(lacksElement_node rfl).mpr ?_, fun x hx hname => ?_⟩
      · simpa [lacksElement_node] using hv
      · cases hname
        exact absurd hx (by decide)
    next => exact h
  form {a} ha := by
    have hQ := lacksElement_hereditary p
    have hmember : ∀ k, LacksElement p (Make.container (FieldMarkup.formMember k)) :=
      fun k => hQ.container.mpr (hQ.member.mpr hQ.ident)
    simp only [FieldMarkup.formAttrs, List.mem_cons, List.not_mem_nil, or_false] at ha
    rcases ha with rfl | rfl | rfl
    · exact ⟨hQ.attr.mpr (hmember _), fun _ _ _ => hmember _⟩
    · exact ⟨hQ.attr.mpr (hmember _), fun _ _ _ => hmember _⟩
    · exact ⟨hQ.attr.mpr hQ.absent, fun _ _ _ => hQ.absent⟩

/-- An element with a tag has it wherever it stands. -/
theorem movable_of_tag (h : LacksElement (fun e => e.tag? == some x) a) : Movable (fun e => e.tag? == some x) a := by
  have hvalue := (lacksElement_hereditary _).attrValue h
  refine ⟨h, fun _ _ _ => lacksElement_asExpr hvalue fun e he => ?_⟩
  rw [← toTree_of_element? he] at hvalue
  exact hvalue.element

end Tree

/-! ## Converted scopes -/

namespace FieldMarkup

variable {names : LibraryNames} {bindings : List String} {e e' : Element} {t v : Tree} {n n' : Needs}

/-- The markup of an error does not stand bare behind an attribute's name. -/
theorem isBare_errorMarkup (x : String) (e : Element) : (errorMarkup e).isBare x = false := by
  rw [Tree.isBare, Option.any_eq_false]
  intro e' he'
  rw [(errorMarkup_cases e).2 e' he', Bool.and_false]

section Scope

variable (hinput : "input" ∉ names.markup) (hform : "form" ∉ names.markup)
include hinput hform

/-- A bare error message was there before. -/
theorem isBare_of_converted (hasks : Tree.Lacks Tree.opensScope (Tree.asksFor names.markup) v)
    (h : (converted names bindings v).isBare names.errorMessage = true) : v.isBare names.errorMessage = true := by
  have hg := converted_rewritesMarkup names bindings
  cases v with
  | node o k ts =>
      cases hs : (Tree.node o k ts).opensScope with
      | true => rwa [hg.component hs] at h
      | false =>
          obtain ⟨n', hnode⟩ := converted_node names bindings hs
          cases he : (Tree.node o k (ts.map (converted names bindings))).element? with
          | none =>
              rw [hnode.eq_of_none he, Tree.isBare, he] at h
              cases h
          | some e₁ =>
              obtain ⟨e, htree, rfl⟩ := hg.element? he
              rw [← Tree.toTree_of_element? he] at hnode
              obtain ⟨e', n₁, hconverts, ⟨heq, -⟩ | ⟨heq, -⟩⟩ := hnode.element_inv
              · -- a message has been put in its place, which is not bare
                rw [heq, isBare_errorMarkup] at h
                cases h
              · rw [htree] at hasks ⊢
                rw [heq] at h
                simp only [Tree.isBare, Tree.element?_toTree, Option.any_some, Bool.and_eq_true, beq_iff_eq] at h ⊢
                obtain ⟨htag, -⟩ :=
                  hconverts.tag?_inv hinput hform (hasks.asksFor_mapParts hg) (by simp [LibraryNames.markup]) h.1
                rw [hconverts.asValue_eq] at h
                exact ⟨(hg.tag? _).symm.trans htag, h.2⟩
  | list ts => cases h
  | absent => cases h

/-- An attribute that had no bare error message as its value does not move one to where it is an expression. -/
theorem movable_of_movesBare {a : Tree} (hno : a.movesBare names.errorMessage = false)
    (hasks : Tree.Lacks Tree.opensScope (Tree.asksFor names.markup) a)
    (ha : Tree.LacksElement (fun e => e.tag? == some names.errorMessage && !e.asValue) (converted names bindings a)) :
    Tree.Movable (fun e => e.tag? == some names.errorMessage && !e.asValue) (converted names bindings a) := by
  have hg := converted_rewritesMarkup names bindings
  have hvalue := (Tree.lacksElement_hereditary _).attrValue ha
  refine ⟨ha, fun x hx hname => Tree.lacksElement_asExpr hvalue fun e he => ?_⟩
  rw [hg.attrName?] at hname
  have hbare : a.attrValue.isBare names.errorMessage = false := by
    rw [Tree.movesBare, hname] at hno
    simpa [hx] using hno
  rw [← Bool.not_eq_true, Bool.and_eq_true, beq_iff_eq]
  rintro ⟨htag : e.tag? = some names.errorMessage, -⟩
  -- it was no expression before, so it stood bare, and so it did in the beginning
  have hasValue : e.asValue = true := by
    rw [← Tree.toTree_of_element? he] at hvalue
    simpa [htag] using hvalue.element
  have hconverted : (converted names bindings a.attrValue).isBare names.errorMessage = true := by
    rw [← hg.attrValue, Tree.isBare, he]
    simp [htag, hasValue]
  rw [isBare_of_converted hinput hform hasks.attrValue hconverted] at hbare
  cases hbare

variable {p : Element → Bool} {bad : Tree → Bool}
  (hp : ∀ e, e.tag? ≠ some names.field → e.tag? ≠ some names.form →
    (e.tag? = some names.errorMessage → e.asValue = true) → p e = false)
include hp

omit hinput hform in
/-- The errors of a field stand in an element that is none of the library, or in a fragment. -/
theorem lacksElement_errorMarkup (hasks : ∀ a ∈ e.attrs, a.asksFor names.markup = false)
    (h : e.Parts (Tree.LacksElement p) (Tree.Movable p)) : Tree.LacksElement p (errorMarkup e) := by
  have hQ := Tree.lacksElement_hereditary p
  refine h.errorMarkup hQ (Tree.movable_closed p) (fun tag attrs children htag hattrs hchildren => ?_) fun _ =>
    hQ.fragment.mpr
  -- the tag was asked for by an attribute, and none asks for one of the library
  have hother : tag ∉ names.markup := by
    intro hmem
    obtain ⟨a, ha, hasked⟩ := Attrs.exists_of_errorTag? htag
    have hno := hasks a ha
    rw [Tree.asksFor_eq_true.mpr ⟨tag, hmem, hasked⟩] at hno
    cases hno
  simp only [LibraryNames.markup, List.mem_cons, List.not_mem_nil, or_false, not_or] at hother
  obtain ⟨made, heq, hname, rfl, htargs, rfl, hclosing⟩ := Tree.exists_element_eq tag attrs children
  have hmade : made.Parts (Tree.LacksElement p) (Tree.Movable p) := by
    refine ⟨hname ▸ hQ.name, hattrs, htargs ▸ hQ.absent, hchildren, ?_⟩
    rcases hclosing with h | h
    · exact h ▸ hQ.absent
    · exact h ▸ hQ.name
  have htag' : made.tag? = some tag := by
    rw [Element.tag?, hname]
    rfl
  rw [heq]
  refine Tree.lacksElement_toTree (hp made ?_ ?_ ?_) hmade fun _ h => h.lacks
  · rw [htag']
    exact fun h => hother.2.1 (Option.some.inj h)
  · rw [htag']
    exact fun h => hother.1 (Option.some.inj h)
  · rw [htag']
    exact fun h => absurd (Option.some.inj h) hother.2.2

/-- What an element becomes holds no element of a sort to which converted elements do not belong, if its parts do not. -/
theorem lacksElement_convertsNode {u : Tree} (hnode : ConvertsNode names bindings n e.toTree u n')
    (hasks : ∀ a ∈ e.attrs, a.asksFor names.markup = false) (h : e.Parts (Tree.LacksElement p) (Tree.Movable p)) :
    Tree.LacksElement p u := by
  have hQ := Tree.lacksElement_hereditary p
  have hA := Tree.movable_closed p
  obtain ⟨e', n₁, hconverts, ⟨rfl, -⟩ | ⟨rfl, -, hmessage⟩⟩ := hnode.element_inv
  · exact lacksElement_errorMarkup hp (hconverts.asksFor_eq_false hasks) (h.converts hQ hA hconverts)
  · refine Tree.lacksElement_toTree (hp _ ?_ ?_ hmessage) (h.converts hQ hA hconverts) fun _ h => h.lacks
    · intro htag
      exact (hconverts.tag?_inv hinput hform hasks (by simp [LibraryNames.markup]) htag).2.1 rfl
    · intro htag
      exact (hconverts.tag?_inv hinput hform hasks (by simp [LibraryNames.markup]) htag).2.2 rfl

variable (hmoved : ∀ a, bad a = false → Tree.Lacks Tree.opensScope (Tree.asksFor names.markup) a →
  Tree.LacksElement p (converted names bindings a) → Tree.Movable p (converted names bindings a))
include hmoved

omit hinput hform hp in
/-- The parts of an element around its converted parts, the attributes of which are movable. -/
theorem parts_mapParts (hasks : Tree.Lacks Tree.opensScope (Tree.asksFor names.markup) e.toTree)
    (hbad : Tree.Lacks Tree.opensScope bad e.toTree)
    (hchildren : ∀ c ∈ (e.mapParts (converted names bindings)).toTree.children, Tree.LacksElement p c) :
    (e.mapParts (converted names bindings)).Parts (Tree.LacksElement p) (Tree.Movable p) := by
  have hg := converted_rewritesMarkup names bindings
  simp only [Element.toTree, Tree.children_node, List.forall_mem_cons, List.not_mem_nil] at hchildren
  obtain ⟨hname, hattrs, htargs, hcontent, hclosing, -⟩ := hchildren
  refine ⟨hname, fun a' ha' => ?_, htargs, hcontent.list_inv, hclosing⟩
  have hlacks := hattrs.list_inv a' ha'
  obtain ⟨a, ha, rfl⟩ := List.mem_map.mp ha'
  cases hx : a.attrName? with
  | none =>
      refine ⟨hlacks, fun x _ hx' => ?_⟩
      rw [hg.attrName?, hx] at hx'
      cases hx'
  | some x => exact hmoved a ((hbad.attrs a ha).attr hx) (hasks.attrs a ha) hlacks

/-- A sort of elements to which converted elements do not belong is gone, if no attribute brings one back. -/
theorem lacksElement_converted (hasks : Tree.Lacks Tree.opensScope (Tree.asksFor names.markup) t)
    (hbad : Tree.Lacks Tree.opensScope bad t) : Tree.LacksElement p (converted names bindings t) := by
  have hg := converted_rewritesMarkup names bindings
  induction t using Tree.ind with
  | node o k ts ih =>
      cases hs : (Tree.node o k ts).opensScope with
      | true =>
          rw [hg.component hs]
          exact .stopped hs
      | false =>
          have hchildren : ∀ c ∈ ts.map (converted names bindings), Tree.LacksElement p c := by
            intro c' hc'
            obtain ⟨c, hc, rfl⟩ := List.mem_map.mp hc'
            exact ih c hc ((hasks.node_inv hs).2 c hc) ((hbad.node_inv hs).2 c hc)
          obtain ⟨n', hnode⟩ := converted_node names bindings hs
          cases he : (Tree.node o k (ts.map (converted names bindings))).element? with
          | none =>
              rw [hnode.eq_of_none he]
              exact Tree.lacksElement_of_children (by rw [he]; rfl) hchildren
          | some e' =>
              obtain ⟨e, htree, rfl⟩ := hg.element? he
              rw [htree] at hasks hbad
              have hmapped := Tree.toTree_of_element? he
              rw [← hmapped] at hnode
              exact lacksElement_convertsNode hinput hform hp hnode (hasks.asksFor_mapParts hg)
                (parts_mapParts hmoved hasks hbad (hmapped ▸ hchildren))
  | list ts ih =>
      rw [hg.other rfl rfl]
      refine .list fun c' hc' => ?_
      obtain ⟨c, hc, rfl⟩ := List.mem_map.mp hc'
      exact ih c hc (hasks.list_inv c hc) (hbad.list_inv c hc)
  | absent =>
      rw [hg.absent]
      exact .absent

end Scope

/-- What is declared for the markup holds no markup. -/
theorem lacksElement_convertScope {p : Element → Bool} {body : Tree}
    (h : Tree.LacksElement p (converted names (hookBindings names.useField body) body)) :
    Tree.LacksElement p (convertScope names body).1 := by
  rw [← fst_run_mapUpM_convertNode body {}] at h
  unfold convertScope
  dsimp only
  generalize (body.mapUpM Tree.opensScope (convertNode names (hookBindings names.useField body))).run {} = r at h ⊢
  obtain ⟨body', needs⟩ := r
  dsimp only at h ⊢
  split
  · have hstatements : ∀ t ∈ (declareNeeds needs body'.statements).1, Tree.LacksElement p t := by
      intro t ht
      rcases mem_declareNeeds ht with ht | ⟨rfl, -⟩ | rfl
      · exact h.statements t ht
      · exact .of_any rfl
      · exact .of_any rfl
    unfold Tree.withStatements
    split <;> exact (Tree.lacksElement_node rfl).mpr hstatements
  · exact h

/-- **What is left of the library's markup.** No form and no field belongs to a converted scope, wherever it stands. No error
message belongs to it that stands as an expression or as a child, unless one stood bare as the value of an attribute
that is taken out of its element. -/
theorem convertScope_markup (names : LibraryNames) (body : Tree) (hinput : "input" ∉ names.markup)
    (hform : "form" ∉ names.markup) (hasks : body.any Tree.opensScope (Tree.asksFor names.markup) = false) :
    (convertScope names body).1.holds names.form = false ∧
      (convertScope names body).1.holds names.field = false ∧
      (body.any Tree.opensScope (Tree.movesBare names.errorMessage) = false →
        (convertScope names body).1.any Tree.opensScope (Tree.isLoose names.errorMessage) = false) := by
  have hlacks := Tree.Lacks.of_any hasks
  have htag : ∀ x, x = names.form ∨ x = names.field → (convertScope names body).1.holds x = false := by
    intro x hx
    refine (lacksElement_convertScope (lacksElement_converted hinput hform ?_ ?_ hlacks hlacks)).any_eq_false
    · intro e hfield hform' _
      rw [beq_eq_false_iff_ne]
      rcases hx with rfl | rfl
      · exact hform'
      · exact hfield
    · exact fun a _ _ ha => Tree.movable_of_tag ha
  refine ⟨htag _ (.inl rfl), htag _ (.inr rfl), fun hbare => ?_⟩
  refine (lacksElement_convertScope (lacksElement_converted hinput hform ?_ ?_ hlacks (.of_any hbare))).any_eq_false
  · intro e _ _ hmessage
    rw [← Bool.not_eq_true, Bool.and_eq_true, beq_iff_eq, Bool.not_eq_true']
    rintro ⟨htag, hloose⟩
    rw [hmessage htag] at hloose
    cases hloose
  · exact fun a hno hasks ha => movable_of_movesBare hinput hform hno hasks ha

/-- `{ return <Field name=<ErrorMessage name="x" /> />; }` -/
def movedBody : Tree :=
  let message : Element :=
    ⟨.made, true, true, Make.name "ErrorMessage", [Make.stringAttr "name" "x"], .absent, [], .absent⟩
  Make.block [Make.ret (Make.element "Field" [Make.attr "name" message.toTree] [])]

/-- The error message becomes the key of a field of the form, where it is left. -/
theorem movedBody_markup :
    (convertScope {} movedBody).1.holds "Form" = false ∧ (convertScope {} movedBody).1.holds "Field" = false ∧
      movedBody.any Tree.opensScope (Tree.movesBare "ErrorMessage") = true ∧
      (convertScope {} movedBody).1.any Tree.opensScope (Tree.isLoose "ErrorMessage") = true := by
  obtain ⟨hform, hfield, -⟩ := convertScope_markup {} movedBody (by decide) (by decide) (by decide)
  exact ⟨hform, hfield, by decide, by decide⟩

end FieldMarkup

end FormCodemod
