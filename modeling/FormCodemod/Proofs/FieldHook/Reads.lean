import FormCodemod.Proofs.FieldHook.Awaits

/-!
# What the declarations behind a hook read

The declarations that are put in behind a hook refer to the field and the form of the hook, and to what the name of the
field and the type of its value refer to, and to nothing else (`FieldHook.freeIn_of_mem_inserted`).
-/

namespace FormCodemod

namespace Make

open FormCodemod.Tree (FreeIn)

variable {x y k : String} {t u : Tree} {ts ps : List Tree}

@[simp] theorem freeIn_list : (Tree.list ts).FreeIn x ↔ ∃ c ∈ ts, c.FreeIn x := Tree.freeIn_plain rfl fun _ => rfl

@[simp] theorem freeIn_absent : ¬ Tree.FreeIn x .absent := by
  rw [Tree.freeIn_plain rfl fun _ => rfl]
  rintro ⟨c, hc, -⟩
  cases hc

@[simp] theorem freeIn_ident : (ident y).FreeIn x ↔ y = x := by
  rw [Tree.freeIn_iff]
  simp [ident, Tree.mentions, Tree.isVariable, Tree.hasShorthand, Tree.tagMentions, Tree.assigns]

@[simp] theorem freeIn_key : ¬ (key k).FreeIn x := by
  rw [Tree.freeIn_plain rfl fun _ => rfl]
  rintro ⟨c, hc, -⟩
  cases hc

@[simp] theorem freeIn_name : ¬ (name k).FreeIn x := by
  rw [Tree.freeIn_plain rfl fun _ => rfl]
  rintro ⟨c, hc, -⟩
  cases hc

@[simp] theorem freeIn_binding : ¬ (binding y).FreeIn x := by
  rw [Tree.freeIn_plain rfl fun _ => rfl]
  simp [binding]

@[simp] theorem freeIn_keywordType : ¬ (keywordType k).FreeIn x := by
  rw [Tree.freeIn_plain rfl fun _ => rfl]
  simp [keywordType]

@[simp] theorem freeIn_typedParam {b : Bool} : (typedParam y t b).FreeIn x ↔ t.FreeIn x := by
  have htype : (Tree.part .made .typeAnn [t]).FreeIn x ↔ t.FreeIn x := by
    rw [Tree.freeIn_plain rfl fun _ => rfl]
    simp
  rw [typedParam, Tree.freeIn_plain rfl fun _ => rfl]
  simp [htype]

@[simp] theorem freeIn_member : (member t k).FreeIn x ↔ t.FreeIn x := by
  rw [member, Tree.freeIn_plain rfl fun _ => rfl]
  simp

@[simp] theorem freeIn_call : (call t ts).FreeIn x ↔ t.FreeIn x ∨ ∃ c ∈ ts, c.FreeIn x := by
  rw [call, Tree.freeIn_plain rfl fun _ => rfl]
  simp

@[simp] theorem freeIn_keyValue : (keyValue k t).FreeIn x ↔ t.FreeIn x := by
  rw [keyValue, Tree.freeIn_plain rfl fun _ => rfl]
  simp

@[simp] theorem freeIn_doubleNot : (doubleNot t).FreeIn x ↔ t.FreeIn x := by
  have hnot : ∀ u, (Tree.expr .made (.unary "!") [u]).FreeIn x ↔ u.FreeIn x := by
    intro u
    rw [Tree.freeIn_plain rfl fun _ => rfl]
    simp
  rw [doubleNot, hnot, hnot]

/-- A shorthand property refers to the variable of its name. -/
@[simp] theorem freeIn_object :
    (object ts).FreeIn x ↔ (∃ c ∈ ts, c.tag? = some x) ∨ ∃ c ∈ ts, c.FreeIn x := by
  have hmentions : (object ts).mentions x = ts.any fun t => t.tag? == some x := by
    simp [object, Tree.mentions, Tree.isVariable, Tree.hasShorthand, Tree.tagMentions, Tree.assigns]
  rw [Tree.freeIn_open fun _ => rfl, hmentions]
  simp [object]

/-- A function binds its parameters, and an expression that is its body declares nothing. -/
theorem freeIn_arrow (h : t.hoisted = []) :
    (arrow ps t).FreeIn x ↔ x ∉ Tree.allBoundNames ps ∧ ((∃ p ∈ ps, p.FreeIn x) ∨ t.FreeIn x) := by
  have hnames : ∀ i, (arrow ps t).namesFor i = Tree.allBoundNames ps := by
    intro i
    show Tree.allBoundNames ps ++ (if i = 0 then [] else t.hoisted) = _
    rw [h, ite_self, List.append_nil]
  have hmentions : (arrow ps t).mentions x = false := rfl
  rw [Tree.freeIn_of_namesFor hnames, hmentions]
  simp [arrow]

@[simp] theorem freeIn_constNamed : (constNamed y t).FreeIn x ↔ t.FreeIn x := by
  have hdeclarator : ∀ p e, (Tree.part .made (.declarator false) [p, e]).FreeIn x ↔ p.FreeIn x ∨ e.FreeIn x := by
    intro p e
    rw [Tree.freeIn_plain rfl fun _ => rfl]
    simp
  rw [constNamed, const, constFrom, Tree.freeIn_plain rfl fun _ => rfl]
  simp [hdeclarator]

end Make

namespace FieldHook

open FormCodemod.Tree (FreeIn)

variable {s : Setting} {uses : List Use} {q : Progress} {c : Site} {h : FieldHook} {setters : List String}
  {x field form k : String} {t d v : Tree}

/-! ## Setters -/

/-- The tree, with the awaits of setters or without them, refers to the variable. -/
def Mentions (setters : List String) (x : String) (t : Tree) : Prop := t.FreeIn x ∨ (withoutAwaits setters t).FreeIn x

theorem mentions_of_same (h : withoutAwaits setters t = t) : Mentions setters x t ↔ t.FreeIn x := by
  rw [Mentions, h, or_self]

/-- `(value, shouldValidate) => form.update({ name: e, value, validated: !!shouldValidate })` -/
def setterArrow (params : List Tree) (form : String) (e : Tree) : Tree :=
  Make.arrow params <|
    Make.call (Make.member (Make.ident form) "update")
      [Make.object
        [Make.keyValue "name" e, Make.name "value",
          Make.keyValue "validated" (Make.doubleNot (Make.ident "shouldValidate"))]]

def setterParams (s : Setting) (h : FieldHook) : List Tree :=
  [if s.typed then
      Make.typedParam "value" (if h.valueType.isAbsent then Make.keywordType "any" else h.valueType) false
    else Make.binding "value",
    s.param "shouldValidate" "boolean" true]

theorem setValue_eq (s : Setting) (h : FieldHook) (form : String) :
    setValue s h form = setterArrow (setterParams s h) form h.name :=
  rfl

theorem withoutAwaits_setterArrow (setters : List String) (params : List Tree) (form : String) (e : Tree) :
    withoutAwaits setters (setterArrow params form e) =
      setterArrow (params.map (withoutAwaits setters)) form (withoutAwaits setters e) := by
  have hparams : Tree.mapUpAll Tree.opensScope (dropAwait setters) params = params.map (withoutAwaits setters) :=
    Tree.mapUpAll_eq_map ..
  rw [← hparams]
  rfl

/-- Free in a setter are the form, the name of the field, and what its parameters refer to. -/
theorem freeIn_setterArrow {params : List Tree} {e : Tree}
    (hparams : Tree.allBoundNames params = ["value", "shouldValidate"])
    (h : (setterArrow params form e).FreeIn x) : (∃ p ∈ params, p.FreeIn x) ∨ x = form ∨ e.FreeIn x := by
  rw [setterArrow, Make.freeIn_arrow rfl, hparams] at h
  obtain ⟨hno, hp | hbody⟩ := h
  · exact .inl hp
  · right
    simp only [List.mem_cons, List.not_mem_nil, or_false, not_or] at hno
    -- the parameters are bound, so that leaves the form and the name of the field
    have hkey : ∀ k v, (Make.keyValue k v).tag? = none := fun _ _ => rfl
    have hname : (Make.name "value").tag? = some "value" := rfl
    simp [hkey, hname, Ne.symm hno.1, Ne.symm hno.2] at hbody
    exact hbody.imp_left Eq.symm

theorem allBoundNames_setterParams (setters : List String) (s : Setting) (h : FieldHook) :
    Tree.allBoundNames (setterParams s h) = ["value", "shouldValidate"] ∧
      Tree.allBoundNames ((setterParams s h).map (withoutAwaits setters)) = ["value", "shouldValidate"] := by
  obtain ⟨names, typed⟩ := s
  cases typed with
  | true => exact ⟨rfl, rfl⟩
  | false => exact ⟨rfl, rfl⟩

theorem not_mentions_param (setters : List String) (y type : String) (b : Bool) : ¬ Mentions setters x (s.param y type b) := by
  have hsame : withoutAwaits setters (s.param y type b) = s.param y type b := by
    unfold Setting.param
    split <;> rfl
  rw [mentions_of_same hsame, Setting.param]
  split
  · rw [Make.freeIn_typedParam]
    exact Make.freeIn_keywordType
  · exact Make.freeIn_binding

/-- Of the parameters only the type of the value refers to anything. -/
theorem mentions_setterParams (hd : d ∈ setterParams s h) (hx : Mentions setters x d) : Mentions setters x h.valueType := by
  have htyped : ∀ t : Tree, Mentions setters x (Make.typedParam "value" t false) → Mentions setters x t := by
    intro t ht
    have hbelow : withoutAwaits setters (Make.typedParam "value" t false) =
        Make.typedParam "value" (withoutAwaits setters t) false := rfl
    rw [Mentions, hbelow, Make.freeIn_typedParam, Make.freeIn_typedParam] at ht
    exact ht
  rcases List.mem_pair.mp hd with rfl | rfl
  · split at hx
    · have htype := htyped _ hx
      split at htype
      · exact absurd ((mentions_of_same rfl).mp htype) Make.freeIn_keywordType
      · exact htype
    · exact absurd ((mentions_of_same rfl).mp hx) Make.freeIn_binding
  · exact (not_mentions_param _ _ _ _ hx).elim

/-- The setter of a field's value refers to the form, and to what the name of the field and the type of its value do. -/
theorem mentions_setValue (hx : Mentions setters x (setValue s h form)) :
    x = form ∨ Mentions setters x h.name ∨ Mentions setters x h.valueType := by
  obtain ⟨hbound, hbound'⟩ := allBoundNames_setterParams setters s h
  rw [setValue_eq, Mentions, withoutAwaits_setterArrow] at hx
  rcases hx with hx | hx
  · rcases freeIn_setterArrow hbound hx with ⟨d, hd, hx⟩ | rfl | hx
    · exact .inr (.inr (mentions_setterParams hd (.inl hx)))
    · exact .inl rfl
    · exact .inr (.inl (.inl hx))
  · rcases freeIn_setterArrow hbound' hx with ⟨d', hd', hx⟩ | rfl | hx
    · obtain ⟨d, hd, rfl⟩ := List.mem_map.mp hd'
      exact .inr (.inr (mentions_setterParams hd (.inr hx)))
    · exact .inl rfl
    · exact .inr (.inl (.inr hx))

/-- The setter of the touched mark refers to nothing. -/
theorem not_mentions_setTouched (setters : List String) : ¬ Mentions setters x (setTouched s) := by
  have hblock : ¬ (Make.block []).FreeIn x := by
    rw [Tree.freeIn_plain rfl fun _ => rfl]
    rintro ⟨c, hc, -⟩
    cases hc
  have hsame : withoutAwaits setters (setTouched s) = setTouched s := by
    obtain ⟨names, typed⟩ := s
    cases typed <;> rfl
  rw [mentions_of_same hsame, setTouched, Make.freeIn_arrow rfl]
  rintro ⟨-, ⟨d, hd, hx⟩ | hx⟩
  · rcases List.mem_pair.mp hd with rfl | rfl
    · exact not_mentions_param setters _ _ _ (.inl hx)
    · exact not_mentions_param setters _ _ _ (.inl hx)
  · exact hblock hx

/-- An object of setters refers to what the setter of the value does. -/
theorem mentions_setterObject (hx : Mentions setters x (setterObject s h form)) :
    x = form ∨ Mentions setters x h.name ∨ Mentions setters x h.valueType := by
  have hpair : ∀ v w : Tree, (Make.object [Make.keyValue "setValue" v, Make.keyValue "setTouched" w]).FreeIn x ↔
      v.FreeIn x ∨ w.FreeIn x := by
    intro v w
    have hkey : ∀ k v, (Make.keyValue k v).tag? = none := fun _ _ => rfl
    simp [hkey]
  have hbelow : withoutAwaits setters (setterObject s h form) =
      Make.object
        [Make.keyValue "setValue" (withoutAwaits setters (setValue s h form)),
          Make.keyValue "setTouched" (withoutAwaits setters (setTouched s))] := rfl
  rw [Mentions, hbelow, setterObject, hpair, hpair] at hx
  rcases hx with (hx | hx) | (hx | hx)
  · exact mentions_setValue (.inl hx)
  · exact (not_mentions_setTouched setters (.inl hx)).elim
  · exact mentions_setValue (.inr hx)
  · exact (not_mentions_setTouched setters (.inr hx)).elim

/-! ## Declarations -/

theorem freeIn_fieldMember : (fieldMember field k).FreeIn x ↔ field = x := by
  rw [fieldMember, Make.freeIn_member, Make.freeIn_ident]

theorem freeIn_firstError : (firstError field).FreeIn x ↔ field = x := by
  have hzero : ¬ (Tree.part .made .index [.expr .made (.num "0") []]).FreeIn x := by
    rw [Tree.freeIn_plain rfl fun _ => rfl]
    rintro ⟨c, hc, hx⟩
    obtain rfl := List.mem_singleton.mp hc
    rw [Tree.freeIn_plain rfl fun _ => rfl] at hx
    obtain ⟨c, hc, -⟩ := hx
    cases hc
  rw [firstError, Tree.freeIn_plain rfl fun _ => rfl]
  simp [freeIn_fieldMember, hzero]

theorem freeIn_metaObject : (metaObject field).FreeIn x ↔ field = x := by
  have hkey : ∀ k v, (Make.keyValue k v).tag? = none := fun _ _ => rfl
  simp [metaObject, hkey, freeIn_fieldMember, freeIn_firstError]

/-- What is read off the field refers to the field. -/
theorem mentions_readEntries {values metas : Tree} {e : String × Tree} (he : e ∈ readEntries uses field values metas)
    (hx : Mentions setters x e.2) : x = field := by
  have hmember : ∀ k, Mentions setters x (fieldMember field k) → x = field :=
    fun k h => (freeIn_fieldMember.mp ((mentions_of_same rfl).mp h)).symm
  rcases List.mem_append.mp he with he | he
  · obtain ⟨a, -, rfl⟩ := List.mem_map.mp he
    exact hmember _ hx
  · rcases List.mem_append.mp he with he | he
    · obtain ⟨a, -, rfl⟩ := List.mem_map.mp he
      exact (freeIn_metaObject.mp ((mentions_of_same rfl).mp hx)).symm
    · obtain ⟨a, -, rfl⟩ := List.mem_map.mp he
      simp only [metaMember] at hx
      split at hx
      · exact (freeIn_firstError.mp ((mentions_of_same rfl).mp hx)).symm
      · exact hmember _ hx

/-- What a setter is declared with refers to the form, and to what the name of the field and the type of its value do. -/
theorem mentions_setterOf (hv : SetterOf s c v) (hx : Mentions setters x v) :
    x = c.form ∨ Mentions setters x c.hook.name ∨ Mentions setters x c.hook.valueType := by
  cases hv with
  | value => exact mentions_setValue hx
  | touched => exact (not_mentions_setTouched _ hx).elim
  | both => exact mentions_setterObject hx

/-- A constant whose name and value make it a component is left alone. -/
theorem withoutAwaits_constNamed (setters : List String) (x : String) (v : Tree) :
    withoutAwaits setters (Make.constNamed x v) = Make.constNamed x v ∨
      withoutAwaits setters (Make.constNamed x v) = Make.constNamed x (withoutAwaits setters v) := by
  have hdeclarator : ∀ t, withoutAwaits setters (.stmt .made (.vars "const" false) [t]) =
      .stmt .made (.vars "const" false) [withoutAwaits setters t] := fun _ => rfl
  rw [Make.constNamed, Make.const, Make.constFrom, hdeclarator]
  cases hs : (Tree.part .made (.declarator false) [Make.binding x, v]).opensScope with
  | true =>
      left
      rw [withoutAwaits_of_opensScope hs]
  | false =>
      right
      rw [withoutAwaits_eq hs rfl]
      rfl

/-- The declarations behind a hook refer to the field and the form of the hook, and to what the name of the field and the
type of its value do. -/
theorem mentions_of_mem_inserted (hc : (outcome s uses q t).site? = some c) (hd : d ∈ c.inserted)
    (hx : (withoutAwaits setters d).FreeIn x) :
    x = c.field ∨ x = c.form ∨ Mentions setters x c.hook.name ∨ Mentions setters x c.hook.valueType := by
  obtain ⟨⟨y, v⟩, he, rfl⟩ := List.mem_map.mp hd
  have hvalue : Mentions setters x v := by
    rcases withoutAwaits_constNamed setters y v with heq | heq
    · rw [heq, Make.freeIn_constNamed] at hx
      exact .inl hx
    · rw [heq, Make.freeIn_constNamed] at hx
      exact .inr hx
  rcases List.mem_append.mp he with he | he
  · rw [reads_eq hc] at he
    exact .inl (mentions_readEntries he hvalue)
  · rw [helpers_eq hc] at he
    exact .inr (mentions_setterOf (setterOf_of_mem_setterEntries he) hvalue)

end FieldHook

end FormCodemod
