import FormCodemod.Convert.Fieldset
import FormCodemod.Proofs.Convert.Items
import FormCodemod.Proofs.Convert.Parts
import FormCodemod.Proofs.Names.Elements
import FormCodemod.Proofs.Names.Hooks

/-!
# Names that field markup puts in

Inputs read their properties off `getInputProps`, and a scope that declares the form for its markup
calls `useFormMetadata`. Both are collected (`FieldMarkup.clear_convert`). Spelling out the fields
puts in no name (`Fieldset.clear_normalize`).
-/

namespace FormCodemod

open Observed (Gives)

variable {w : Watch}

/-! ## Attributes -/

namespace Attrs

variable {attrs : List Tree} {e : Tree} {x : String}

theorem clear_unwired (h : ∀ a ∈ attrs, a.Clear w) : ∀ a ∈ unwired attrs, a.Clear w :=
  fun a ha => h a (List.mem_filter.mp ha).1

/-- A value that attributes say is clear if they are. -/
theorem clear_unlessBare? (h : ∀ a ∈ attrs, a.Clear w) (he : (value x attrs).unlessBare? = some e) : e.Clear w := by
  refine Tree.Clear.value h (x := x) ?_
  cases hv : value x attrs with
  | bare =>
      rw [hv] at he
      cases he
  | literal s =>
      rw [hv] at he
      exact he
  | expr e' =>
      rw [hv] at he
      exact he
  | absent =>
      rw [hv] at he
      exact he

/-- An attribute that asks for a tag does not ask for the symbol. -/
theorem literal_ne {a : Tree} {s : String} (ha : a.Clear w) (hx : a.attrName? = some x)
    (htag : x = "as" ∨ x = "component") (hs : AttrValue.ofAttr a = .literal s) : s ≠ w.symbol := by
  have hliteral := Tree.literal_face hs
  unfold Tree.attrName? at hx
  split at hx
  · next o ko k ts v =>
      cases hx
      have hasks := (Tree.clear_attr.mp ha).1
      have hkey : (Tree.part ko (.key x) ts).face.key = some x := Tree.key_face.mpr ⟨_, _, rfl⟩
      have hcond : (some x == some "as" || some x == some "component") = true := by
        rcases htag with rfl | rfl <;> rfl
      have hvalue : v.face.literal = some s := hliteral
      rw [List.map_cons, List.map_cons, List.map_nil, Watch.asks, hkey, hcond, hvalue] at hasks
      simpa using hasks
  · cases hx

/-- The tag that an attribute asks for. -/
theorem askedTag_ne {a : Tree} (ha : a.Clear w) {tag : String} (h : a.askedTag? = some tag) : tag ≠ w.symbol := by
  obtain ⟨hname, htag⟩ := Tree.askedTag?_eq_some.mp h
  cases hvalue : AttrValue.ofAttr a with
  | literal s =>
      rw [hvalue] at htag
      cases htag
      rcases hname with hname | hname
      · exact literal_ne ha hname (.inl rfl) hvalue
      · exact literal_ne ha hname (.inr rfl) hvalue
  | expr e =>
      rw [hvalue] at htag
      exact (ha.ofAttr hvalue).ident?_ne htag
  | bare =>
      rw [hvalue] at htag
      cases htag
  | absent =>
      rw [hvalue] at htag
      cases htag

theorem inputTag_ne (hw : w.symbol ∈ emittedNames) (h : ∀ a ∈ attrs, a.Clear w) : inputTag attrs ≠ w.symbol := by
  rcases inputTag_cases attrs with hinput | ⟨a, ha, htag⟩
  · rw [hinput]
    exact ne_symbol hw (by decide)
  · exact askedTag_ne (h a ha) htag

theorem errorTag?_ne (h : ∀ a ∈ attrs, a.Clear w) {y : String} (hy : FieldMarkup.errorTag? attrs = some y) :
    y ≠ w.symbol := by
  obtain ⟨a, ha, htag⟩ := exists_of_errorTag? hy
  exact askedTag_ne (h a ha) htag

/-! ### Inputs -/

theorem clear_ofValue? (h : ∀ a ∈ attrs, a.Clear w) {n : FieldName} (hn : FieldName.ofValue? (value x attrs) = some n) :
    n.expr.Clear w := by
  cases hv : value x attrs with
  | literal s =>
      rw [hv] at hn
      cases hn
      exact Make.clear_str
  | expr e =>
      rw [hv] at hn
      cases hn
      exact Tree.Clear.value h (congrArg AttrValue.toExpr? hv)
  | bare =>
      rw [hv] at hn
      cases hn
  | absent =>
      rw [hv] at hn
      cases hn

theorem clear_inputName (h : ∀ a ∈ attrs, a.Clear w) (kind : InputKind) : (inputName kind attrs).expr.Clear w := by
  have hkept := clear_unwired h
  have hread : ∀ a n, FieldName.ofRead? a = some n → n.expr.Clear w := by
    intro a n hn
    unfold FieldName.ofRead? at hn
    split at hn
    · obtain ⟨k, -, rfl⟩ := Option.map_eq_some_iff.mp hn
      exact Make.clear_str
    · cases hn
  unfold inputName
  dsimp only
  generalize hname : ((_ : Option FieldName).or _).or _ = name
  cases name with
  | none => exact Make.clear_str
  | some n =>
      rcases Option.or_eq_some_iff.mp hname with hname | ⟨-, hname⟩
      · rcases Option.or_eq_some_iff.mp hname with hname | ⟨-, hname⟩
        · split at hname
          · exact clear_ofValue? hkept hname
          · cases hname
        · exact clear_ofValue? hkept hname
      · obtain ⟨a, -, ha⟩ := Option.bind_eq_some_iff.mp hname
        exact hread a n ha

theorem clear_inputOptions (h : ∀ a ∈ attrs, a.Clear w) : ∀ t ∈ inputOptions attrs, t.Clear w := by
  intro t ht
  simp only [inputOptions, List.mem_append, List.mem_singleton, Option.mem_toList] at ht
  rcases ht with (rfl | ht) | ht
  · refine Make.clear_keyValue.mpr ?_
    cases htype : (value "type" attrs).unlessBare? with
    | none => exact Make.clear_str
    | some e => exact clear_unlessBare? h htype
  · obtain ⟨e, he, rfl⟩ := Option.map_eq_some_iff.mp ht
    exact Make.clear_keyValue.mpr (clear_unlessBare? h he)
  · obtain ⟨e, he, rfl⟩ := Option.map_eq_some_iff.mp ht
    refine Make.clear_keyValue.mpr ?_
    unfold disabled? at he
    split at he
    · cases he
    · cases he
      exact Make.clear_bool
    · cases he
      exact Make.clear_bool
    · next heq =>
        cases he
        exact Tree.Clear.value h (congrArg AttrValue.toExpr? heq)

theorem clear_inputId (h : ∀ a ∈ attrs, a.Clear w) (name : FieldName) : (inputId name attrs).Clear w := by
  unfold inputId
  cases hfind : find? "id" attrs with
  | none => exact (Make.clear_attr (by decide)).mpr Make.clear_str
  | some a => exact h a (attrName?_of_find? hfind).1

theorem clear_toRef {a : Tree} (ha : a.Clear w) : (toRef a).Clear w := by
  unfold toRef
  split
  · next o k v =>
      have hv := (Tree.clear_attr.mp ha).2 v (by simp)
      refine Tree.clear_attr.mpr ⟨?_, by simpa using hv⟩
      simp [Watch.asks, Tree.face_node, Face.ofKind]
  · exact ha

theorem clear_inputRest (h : ∀ a ∈ attrs, a.Clear w) (kind : InputKind) : ∀ a ∈ inputRest kind attrs, a.Clear w := by
  have hrest : ∀ a ∈ eraseAll inputAttrs (unwired attrs), a.Clear w :=
    fun a ha => clear_unwired h a (mem_of_mem_eraseAll ha)
  intro a ha
  cases kind with
  | native => exact hrest a ha
  | fieldComponent =>
      simp only [inputRest, List.mem_append, Option.mem_toList] at ha
      rcases ha with ha | ha
      · exact hrest a (mem_of_mem_eraseAll ha)
      · obtain ⟨b, hb, rfl⟩ := Option.map_eq_some_iff.mp ha
        exact clear_toRef (hrest b (attrName?_of_find? hb).1)

end Attrs

/-! ## Elements -/

namespace Element

/-- The parts of an element are clear. -/
structure Clear (w : Watch) (e : Element) : Prop where
  name : e.name.Clear w
  attrs : ∀ a ∈ e.attrs, a.Clear w
  typeArgs : e.typeArgs.Clear w
  children : ∀ c ∈ e.children, c.Clear w
  closing : e.closing.Clear w

variable {e e' : Element} {x : String}

/-- If no elements are watched for, an element is clear exactly if its parts are. -/
theorem clear_iff (htag : w.asTag = false) (hnone : w.tag = none) : e.toTree.Clear w ↔ e.Clear w := by
  have hbans : Tree.bansElement w e = false := by simp [Tree.bansElement, hnone]
  rw [Tree.clear_toTree htag]
  constructor
  · rintro ⟨-, hname, hattrs, htargs, hchildren, hclosing⟩
    exact ⟨hname, hattrs, htargs, hchildren, hclosing⟩
  · intro h
    exact ⟨hbans, h.name, h.attrs, h.typeArgs, h.children, h.closing⟩

theorem clear_rename (he : e.Clear w) (hx : x ≠ w.symbol) : (e.rename x).Clear w := by
  refine ⟨Make.clear_name.mpr hx, he.attrs, he.typeArgs, he.children, ?_⟩
  unfold rename
  dsimp only
  split
  · exact Tree.clear_absent
  · exact Make.clear_name.mpr hx

theorem clear_settle (he : e.Clear w) : e.settle.Clear w := by
  unfold settle
  split
  · exact ⟨he.name, he.attrs, he.typeArgs, nofun, Tree.clear_absent⟩
  · refine ⟨he.name, he.attrs, he.typeArgs, he.children, ?_⟩
    dsimp only
    split
    · exact he.name
    · exact he.closing

theorem clear_inputProps {field : Tree} {options : List Tree} (hprops : "getInputProps" ≠ w.symbol)
    (hfield : field.Clear w) (hoptions : ∀ t ∈ options, t.Clear w) : (Make.inputProps field options).Clear w := by
  simpa [Make.inputProps, hprops, hfield] using hoptions

/-- What an input is made from, where the field is `fields[name]` or the variable `x`. -/
theorem clear_toInput (hw : w.symbol ∈ emittedNames) (hprops : "getInputProps" ≠ w.symbol) (he : e.Clear w)
    (kind : InputKind) {source : FieldSource}
    (hsource : source = .fieldset fieldsName ∨ ∃ b, source = .binding b ∧ b.Clear w) :
    (e.toInput kind source).Clear w := by
  have hkept := Attrs.clear_unwired he.attrs
  have hinput : ∀ {e₁ : Element} {field : Tree}, e₁.Clear w → field.Clear w →
      (settle { e₁ with
        attrs := Make.inputProps field (Attrs.inputOptions (Attrs.unwired e.attrs)) ::
          Attrs.inputId (Attrs.inputName kind e.attrs) (Attrs.unwired e.attrs) ::
          Attrs.inputRest kind e.attrs }).Clear w := by
    intro e₁ field he₁ hfield
    refine clear_settle ⟨he₁.name, ?_, he₁.typeArgs, he₁.children, he₁.closing⟩
    intro a ha
    simp only [List.mem_cons] at ha
    rcases ha with rfl | rfl | ha
    · exact clear_inputProps hprops hfield (Attrs.clear_inputOptions hkept)
    · exact Attrs.clear_inputId hkept _
    · exact Attrs.clear_inputRest he.attrs kind a ha
  have hrenamed := clear_rename he (Attrs.inputTag_ne hw hkept)
  rcases hsource with rfl | ⟨b, rfl, hb⟩
  · have hfield : (Make.index (Make.ident fieldsName) (Attrs.inputName kind e.attrs).expr).Clear w := by
      simp [Attrs.clear_inputName he.attrs kind, ne_symbol hw, emittedNames, fieldsName]
    cases kind with
    | native => exact hinput he hfield
    | fieldComponent => exact hinput hrenamed hfield
  · cases kind with
    | native => exact hinput he hb
    | fieldComponent => exact hinput hrenamed hb

theorem clear_fieldProps? (hw : w.symbol ∈ emittedNames) (hprops : "getInputProps" ≠ w.symbol) {type a a' : Tree}
    {u : Unit} (htype : type.Clear w) (ha : a.Clear w) (h : fieldProps? fieldsName type a = some (a', u)) :
    a'.Clear w := by
  unfold fieldProps? at h
  split at h
  · cases h
  · next args hargs =>
      cases h
      obtain ⟨t, ht, hcall⟩ := Option.bind_eq_some_iff.mp hargs
      have hclear : ∀ b ∈ args, b.Clear w := by
        have hu := (ha.spread? ht).unparen
        unfold Tree.fieldPropsArgs? at hcall
        split at hcall
        · next heq =>
            rw [heq] at hu
            split at hcall
            · cases hcall
              simp at hu
              exact hu.2.1
            · cases hcall
        · cases hcall
      have hname : ((args.head?.map Tree.fieldName).getD (Make.str "field")).Clear w := by
        cases args with
        | nil => exact Make.clear_str
        | cons b args => exact (hclear b (List.mem_cons_self ..)).fieldName hw
      refine clear_inputProps hprops ?_ (by simpa using htype)
      simp [hname, ne_symbol hw, emittedNames, fieldsName]

/-- An element with its field properties converted is clear where `getInputProps` may be named. -/
theorem clear_convertFieldProps? (hw : w.symbol ∈ emittedNames) (hprops : "getInputProps" ≠ w.symbol)
    (he : e.Clear w) (h : e.convertFieldProps? fieldsName = some e') : e'.Clear w := by
  unfold convertFieldProps? at h
  obtain ⟨⟨attrs', n, u⟩, hfirst, rfl⟩ := Option.map_eq_some_iff.mp h
  obtain ⟨pre, a, a', post, hattrs, ha, rfl, -⟩ := mapFirst?_eq_some hfirst
  have htype : ((Attrs.value "type" e.attrs).toExpr?.getD (Make.str "text")).Clear w := by
    cases hvalue : (Attrs.value "type" e.attrs).toExpr? with
    | none => exact Make.clear_str
    | some t => exact Tree.Clear.value he.attrs hvalue
  have hclear := he.attrs
  rw [hattrs] at hclear
  have ha' := clear_fieldProps? hw hprops htype (hclear a (by simp)) ha
  refine ⟨he.name, ?_, he.typeArgs, he.children, he.closing⟩
  intro b hb
  exact forall_mem_replace hclear ha' b (List.mem_of_mem_eraseP hb)

/-- Taking a spread out of an element leaves it clear, and the spread name is not the symbol. -/
theorem clear_takeBinding? {xs : List String} (he : e.Clear w) (h : e.takeBinding? xs = some (e', x)) :
    e'.Clear w ∧ x ≠ w.symbol := by
  obtain ⟨hfind, rfl⟩ := takeBinding?_inv h
  refine ⟨⟨he.name, ?_, he.typeArgs, he.children, he.closing⟩, ?_⟩
  · intro a ha
    exact he.attrs a (List.mem_of_mem_eraseP ha)
  · obtain ⟨a, ha, hspread⟩ := List.exists_of_findSome?_eq_some hfind
    obtain ⟨hbind, -⟩ := Option.filter_eq_some_iff.mp hspread
    obtain ⟨t, ht, hident⟩ := Option.bind_eq_some_iff.mp hbind
    exact ((he.attrs a ha).spread? ht).ident?_ne hident

theorem clear_toForm (hw : w.symbol ∈ emittedNames) (he : e.Clear w) : (FieldMarkup.toForm e).Clear w := by
  have hform := clear_rename he (ne_symbol hw (x := "form") (by decide))
  refine ⟨hform.name, ?_, hform.typeArgs, hform.children, hform.closing⟩
  have hmember : ∀ k, (FieldMarkup.formMember k).Clear w := by
    intro k
    simp [FieldMarkup.formMember, ne_symbol hw, emittedNames, formName]
  intro a ha
  rcases List.mem_append.mp ha with ha | ha
  · simp only [FieldMarkup.formAttrs, List.mem_cons, List.not_mem_nil, or_false] at ha
    rcases ha with rfl | rfl | rfl
    · exact (Make.clear_attr (by decide)).mpr (by simpa using hmember "id")
    · exact (Make.clear_attr (by decide)).mpr (by simpa using hmember "onSubmit")
    · exact (Make.clear_attr (by decide)).mpr Tree.clear_absent
  · exact he.attrs a (List.mem_filter.mp ha).1

/-- The markup of an error is clear, and looks like nothing to its parent. -/
theorem clear_errorMarkup (hw : w.symbol ∈ emittedNames) (hnone : w.tag = none) (he : e.Clear w) :
    (FieldMarkup.errorMarkup e).Clear w ∧ (FieldMarkup.errorMarkup e).face = {} := by
  have hname : ((Attrs.value "name" e.attrs).unlessBare?.getD (Make.str "field")).Clear w := by
    cases hvalue : (Attrs.value "name" e.attrs).unlessBare? with
    | none => exact Make.clear_str
    | some t => exact Attrs.clear_unlessBare? he.attrs hvalue
  have hfields : fieldsName ≠ w.symbol := ne_symbol hw (by decide)
  unfold FieldMarkup.errorMarkup
  dsimp only
  split
  · next tag htag =>
      refine ⟨Tree.clear_made_element (.inl (Attrs.errorTag?_ne he.attrs htag)) (.inl (by simp [hnone])) ?_ ?_,
        Tree.face_node ..⟩
      · exact fun a ha => he.attrs a (Attrs.mem_of_mem_eraseAll ha)
      · simp [hname, hfields]
  · refine ⟨?_, Tree.face_node ..⟩
    simp [hname, hfields]

end Element

/-! ## Markup -/

/-- Two steps with a state in a row, taken apart. -/
theorem exists_of_run_bind {S α β : Type} {x : StateM S α} {f : α → StateM S β} {n n' : S} {b : β}
    (h : (x >>= f).run n = (b, n')) : ∃ a n₁, x.run n = (a, n₁) ∧ (f a).run n₁ = (b, n') :=
  ⟨_, _, rfl, h⟩

/-- A step that runs with a state keeps a tree. `P` is what must be known of the state at the end. -/
def KeepsWhere (w : Watch) {S : Type} (P : S → Prop) (f : Tree → StateM S Tree) (t : Tree) : Prop :=
  ∀ n t' n', (f t).run n = (t', n') → P n' → P n ∧ (t.Free w → Tree.Keeps w t t')

namespace Tree

variable {S : Type} {P : S → Prop} {f : Tree → StateM S Tree} {stop : Tree → Bool}

/-- The state is known at the end, so the trees are gone through from the last one to the first. -/
theorem keeps_mapUpAllM {ts ts' : List Tree} {n n' : S} (ih : ∀ t ∈ ts, KeepsWhere w P (mapUpM stop f) t)
    (h : (mapUpAllM stop f ts).run n = (ts', n')) (hn' : P n') :
    P n ∧ ((∀ t ∈ ts, t.Free w) → List.Forall₂ (Keeps w) ts ts') := by
  induction ts generalizing ts' n n' with
  | nil =>
      cases h
      exact ⟨hn', fun _ => .nil⟩
  | cons t ts ihts =>
      rw [mapUpAllM] at h
      obtain ⟨t₁, n₁, ht, h⟩ := exists_of_run_bind h
      obtain ⟨ts₁, n₂, hts, h⟩ := exists_of_run_bind h
      cases h
      obtain ⟨hn₁, hkeeps⟩ := ihts (fun t ht => ih t (List.mem_cons_of_mem _ ht)) hts hn'
      obtain ⟨hn, hkeep⟩ := ih t (List.mem_cons_self ..) n t₁ n₁ ht hn₁
      refine ⟨hn, fun hfree => .cons (hkeep (hfree t (List.mem_cons_self ..))) (hkeeps fun t ht => ?_)⟩
      exact hfree t (List.mem_cons_of_mem _ ht)

/-- `mapUpM` keeps a tree if its rule does. -/
theorem keeps_mapUpM (hf : ∀ t, KeepsWhere w P f t) (t : Tree) : KeepsWhere w P (mapUpM stop f) t := by
  induction t using ind with
  | node o k ts ih =>
      intro n t' n' h hn'
      rw [mapUpM] at h
      split at h
      · cases h
        exact ⟨hn', .refl⟩
      · obtain ⟨ts₁, n₁, hts, h⟩ := exists_of_run_bind h
        obtain ⟨hn₁, hkeep⟩ := hf _ _ _ _ h hn'
        obtain ⟨hn, hkeeps⟩ := keeps_mapUpAllM ih hts hn₁
        refine ⟨hn, fun hfree => ?_⟩
        have hparent : Keeps w (node o k ts) (node o k ts₁) := .parent hfree (hkeeps fun c hc => hfree.child hc)
        exact hparent.trans (hkeep hparent.free)
  | list ts ih =>
      intro n t' n' h hn'
      rw [mapUpM] at h
      obtain ⟨ts₁, n₁, hts, h⟩ := exists_of_run_bind h
      cases h
      obtain ⟨hn, hkeeps⟩ := keeps_mapUpAllM ih hts hn'
      exact ⟨hn, fun hfree => .parent hfree (hkeeps fun c hc => hfree.child hc)⟩
  | absent =>
      intro n t' n' h hn'
      cases h
      exact ⟨hn', .refl⟩

end Tree

namespace FieldMarkup

def Needs.Without (w : Watch) (n : Needs) : Prop := w.symbol = "getInputProps" → n.inputProps = false

variable {names : LibraryNames} {bindings : List String} {e e' : Element} {t t' : Tree} {n n' : Needs}

/-- A converted element is clear where the needs at the end leave the symbol out. -/
theorem clear_converts (hw : w.symbol ∈ emittedNames) (h : Converts names bindings e n e' n') (hn' : n'.Without w) :
    n.Without w ∧ (e.Clear w → e'.Clear w) := by
  have hprops : ∀ {b b' : Bool}, Needs.Without w ⟨b, b', true⟩ → "getInputProps" ≠ w.symbol :=
    fun h heq => Bool.noConfusion (h heq.symm)
  cases h with
  | field =>
      have hne := hprops hn'
      exact ⟨fun h => absurd h.symm hne, fun he => Element.clear_toInput hw hne he _ (.inl rfl)⟩
  | form => exact ⟨hn', Element.clear_toForm hw⟩
  | binding _ _ htake =>
      have hne := hprops hn'
      refine ⟨fun h => absurd h.symm hne, fun he => ?_⟩
      obtain ⟨he₁, hx⟩ := Element.clear_takeBinding? he htake
      exact Element.clear_toInput hw hne he₁ _ (.inr ⟨_, rfl, Make.clear_ident.mpr hx⟩)
  | wired =>
      have hne := hprops hn'
      exact ⟨fun h => absurd h.symm hne, fun he => Element.clear_toInput hw hne he _ (.inl rfl)⟩
  | spread _ _ hspread =>
      have hne := hprops hn'
      exact ⟨fun h => absurd h.symm hne, fun he => Element.clear_convertFieldProps? hw hne he hspread⟩
  | other => exact ⟨hn', id⟩

/-- Converting a node keeps it free where the needs at the end leave the symbol out. -/
theorem keeps_convertNode (hw : w.symbol ∈ emittedNames) (htag : w.asTag = false) (hnone : w.tag = none)
    (t : Tree) : KeepsWhere w (fun n => n.Without w) (convertNode names bindings) t := by
  have hclear : ∀ {e : Element}, e.toTree.Free w → e.Clear w :=
    fun hfree => (Element.clear_iff htag hnone).mp (hfree.clear Tree.face_element)
  intro n t' n' h hn'
  cases convertNode_inv h with
  | kept => exact ⟨hn', .refl⟩
  | message hconverts =>
      obtain ⟨hn, he'⟩ := clear_converts hw hconverts hn'
      refine ⟨hn, fun hfree => ?_⟩
      obtain ⟨hmarkup, hface⟩ := Element.clear_errorMarkup hw hnone (he' (hclear hfree))
      exact .of_clear Tree.face_element hface hmarkup
  | element hconverts =>
      obtain ⟨hn, he'⟩ := clear_converts hw hconverts hn'
      refine ⟨hn, fun hfree => ?_⟩
      exact .of_clear Tree.face_element Tree.face_element ((Element.clear_iff htag hnone).mpr (he' (hclear hfree)))

/-! ## Scopes -/

/-- Declarations that markup needs. The form is declared only if its hook is collected. -/
theorem clear_declareNeeds (hw : w.symbol ∈ emittedNames) {ss : List Tree} (hss : ∀ t ∈ ss, t.Clear w)
    (hσ : w.symbol ∉ (declareNeeds n ss).2.toList) : ∀ t ∈ (declareNeeds n ss).1, t.Clear w := by
  have hform : formName ≠ w.symbol := ne_symbol hw (by decide)
  have hfields : fieldsName ≠ w.symbol := ne_symbol hw (by decide)
  intro t ht
  rcases mem_declareNeeds ht with ht | ⟨rfl, hneeds⟩ | rfl
  · exact hss t ht
  · have hhook : "useFormMetadata" ≠ w.symbol := by
      intro heq
      exact hσ (Symbols.mem_toList.mpr (.inr (.inr ⟨hneeds, heq.symm⟩)))
    simp [formDecl, hform, hhook]
  · simp [Capabilities.fieldsetHelper, hform, hfields]

/-- The markup pass keeps a scope clear of any symbol that it does not collect. -/
theorem clear_convertScope (hw : w.symbol ∈ emittedNames) (htag : w.asTag = false) (hnone : w.tag = none)
    {body : Tree} (hσ : w.symbol ∉ (convertScope names body).2.toList) (hbody : body.Clear w) :
    (convertScope names body).1.Clear w := by
  obtain ⟨⟨body₁, needs⟩, hrun⟩ : ∃ r, (body.mapUpM Tree.opensScope
      (convertNode names (hookBindings names.useField body))).run {} = r := ⟨_, rfl⟩
  have hmarkup : w.symbol ∉ ({ getInputProps := needs.inputProps } : Symbols).toList → body₁.Clear w := by
    intro hne
    have hwithout : needs.Without w := by
      intro heq
      rw [← Bool.not_eq_true]
      intro hprops
      exact hne (Symbols.mem_toList.mpr (.inr (.inl ⟨hprops, heq⟩)))
    have hkeeps := Tree.keeps_mapUpM (keeps_convertNode hw htag hnone) body {} body₁ needs hrun hwithout
    exact (hkeeps.2 hbody.free).clear hbody
  unfold convertScope at hσ ⊢
  dsimp only at hσ ⊢
  rw [hrun] at hσ ⊢
  dsimp only at hσ ⊢
  split at hσ
  · next hneeds =>
      rw [if_pos hneeds]
      rw [Symbols.mem_toList_append, not_or] at hσ
      rw [Tree.clear_withStatements]
      exact clear_declareNeeds hw (hmarkup hσ.1).statements hσ.2
  · next hneeds =>
      rw [if_neg hneeds]
      exact hmarkup hσ

/-- The markup of a module puts in a symbol only if it is collected. -/
theorem clear_convert (hw : w.symbol ∈ emittedNames) (htag : w.asTag = false) (hnone : w.tag = none) {s : Setting}
    {m m' : Module} {σ σ' : Symbols} (h : (convert s m).run σ = (m', σ')) (hσ' : w.symbol ∉ σ'.toList) :
    w.symbol ∉ σ.toList ∧ (m.Clear w → m'.Clear w) := by
  refine Module.clear_forEachScope (P := fun σ => w.symbol ∉ σ.toList) ?_
    (show Gives (convert s m) σ m' σ' from h) hσ'
  intro k body σ body' σ' hgives hσ'
  cases hgives
  rw [Symbols.mem_toList_append, not_or] at hσ'
  exact ⟨hσ'.1, clear_convertScope hw htag hnone hσ'.2⟩

end FieldMarkup

/-! ## Access to fields -/

namespace Fieldset

variable {t : Tree}

/-- Spelling a field out brings nothing in. -/
theorem keeps_spellOut (ht : t.Free w) : Tree.Keeps w t (spellOut t) := by
  unfold spellOut
  split
  · split
    · have hclear := ht.clear rfl
      simp at hclear
      exact .of_clear rfl rfl (by simp [hclear])
    · exact .refl ht
  · exact .refl ht

theorem keeps_convertGetter (hw : w.symbol ∈ emittedNames) (ht : t.Free w) : Tree.Keeps w t (convertGetter t) := by
  unfold convertGetter
  split
  · split
    · have hclear := ht.clear rfl
      simp at hclear
      exact .of_clear rfl rfl (by simp [hclear, ne_symbol hw, emittedNames, fieldsName])
    · exact .refl ht
  · exact .refl ht

/-- Normalization keeps a module clear. -/
theorem clear_normalize (hw : w.symbol ∈ emittedNames) {m : Module} (hm : m.Clear w) : (normalize m).Clear w := by
  rw [items_normalize]
  refine List.forall_mem_map.mpr fun t ht => ?_
  have hgotten := Tree.Keeps.mapUp (fun t => keeps_convertGetter hw) Tree.nowhere (hm t ht).free
  exact (hgotten.trans (.mapUp (fun t => keeps_spellOut) Tree.nowhere hgotten.free)).clear (hm t ht)

end Fieldset

end FormCodemod
