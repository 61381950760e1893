import FormCodemod.Proofs.Convert.Capabilities
import FormCodemod.Proofs.Names.Watch

/-!
# Names in made code

A made node is clear if the names and trees that it is made from are. The code that the conversion
makes draws its names from a fixed list and from patterns of the module. So the helpers of a scope
are clear if the pattern is from which the form state was taken (`Capabilities.clear_helpers`), and
reads off the form state may be converted all over a scope (`Tree.clear_convertReads`).
-/

namespace FormCodemod

variable {w : Watch}

namespace Make

variable {x y : String} {s e f k v p : Tree} {o : Origin} {ts args : List Tree} {b : Bool}

@[simp] theorem clear_ident : (ident x).Clear w ↔ x ≠ w.symbol := by simp [ident]

@[simp] theorem clear_str : (str x).Clear w := by simp [str]

@[simp] theorem clear_bool : (bool b).Clear w := by simp [bool]

@[simp] theorem clear_name : (name x).Clear w ↔ x ≠ w.symbol := by simp [name]

@[simp] theorem clear_key : (key x).Clear w := by simp [key]

@[simp] theorem clear_call : (call f args).Clear w ↔ f.Clear w ∧ ∀ a ∈ args, a.Clear w := by simp [call]

@[simp] theorem clear_callNamed : (callNamed x args).Clear w ↔ x ≠ w.symbol ∧ ∀ a ∈ args, a.Clear w := by
  simp [callNamed]

@[simp] theorem clear_member : (member e x).Clear w ↔ e.Clear w := by simp [member]

@[simp] theorem clear_index : (index e k).Clear w ↔ e.Clear w ∧ k.Clear w := by simp [index]

@[simp] theorem clear_methodCall : (methodCall x y args).Clear w ↔ x ≠ w.symbol ∧ ∀ a ∈ args, a.Clear w := by
  simp [methodCall]

@[simp] theorem clear_doubleNot : (doubleNot e).Clear w ↔ e.Clear w := by simp [doubleNot]

@[simp] theorem clear_paren : (paren e).Clear w ↔ e.Clear w := by simp [paren]

@[simp] theorem clear_keyValue : (keyValue x v).Clear w ↔ v.Clear w := by simp [keyValue]

@[simp] theorem clear_object : (object ts).Clear w ↔ ∀ t ∈ ts, t.Clear w := by simp [object]

@[simp] theorem clear_arrow : (arrow ts e).Clear w ↔ (∀ t ∈ ts, t.Clear w) ∧ e.Clear w := by simp [arrow]

@[simp] theorem clear_binding : (binding x).Clear w ↔ x ≠ w.symbol := by simp [binding]

@[simp] theorem clear_keywordType : (keywordType x).Clear w := by simp [keywordType]

@[simp] theorem clear_typedParam : (typedParam x e b).Clear w ↔ x ≠ w.symbol ∧ e.Clear w := by simp [typedParam]

@[simp] theorem clear_arrayPat {xs : List String} : (arrayPat xs).Clear w ↔ ∀ x ∈ xs, x ≠ w.symbol := by
  simp [arrayPat]

@[simp] theorem clear_objectPat {xs : List String} : (objectPat xs).Clear w ↔ ∀ x ∈ xs, x ≠ w.symbol := by
  simp [objectPat]

@[simp] theorem clear_block : (block ts).Clear w ↔ ∀ t ∈ ts, t.Clear w := by simp [block]

@[simp] theorem clear_constFrom : (constFrom o p e).Clear w ↔ p.Clear w ∧ e.Clear w := by simp [constFrom]

@[simp] theorem clear_const : (const p e).Clear w ↔ p.Clear w ∧ e.Clear w := by simp [const]

@[simp] theorem clear_constNamed : (constNamed x e).Clear w ↔ x ≠ w.symbol ∧ e.Clear w := by simp [constNamed]

@[simp] theorem clear_exprStmt : (exprStmt e).Clear w ↔ e.Clear w := by simp [exprStmt]

@[simp] theorem clear_ret : (ret e).Clear w ↔ e.Clear w := by simp [ret]

@[simp] theorem clear_container : (container e).Clear w ↔ e.Clear w := by simp [container]

@[simp] theorem clear_spread : (spread e).Clear w ↔ e.Clear w := by simp [spread]

@[simp] theorem clear_fragment : (fragment ts).Clear w ↔ ∀ t ∈ ts, t.Clear w := by simp [fragment]

/-- A made attribute, unless it is one that asks for a tag. -/
theorem clear_attr (hx : x ≠ "as" ∧ x ≠ "component") : (attr x v).Clear w ↔ v.Clear w := by
  have hasks : w.asks (.markup .attr) ([key x, v].map Tree.face) = false := by
    simp [Watch.asks, key, Tree.face_node, Face.ofKind, hx]
  rw [attr, Tree.clear_attr, hasks]
  simp

end Make

/-! ## Names of patterns -/

namespace Renaming

/-- What is looked up where the entry of `k` was replaced. -/
theorem lookup_replace {r : Renaming} {k x y z : String}
    (h : (r.map fun e => if e.1 == k then (k, y) else e).lookup x = some z) :
    (x = k ∧ z = y) ∨ r.lookup x = some z := by
  induction r with
  | nil => exact .inr h
  | cons e r ih =>
      rw [List.map_cons, List.lookup_cons] at h
      rw [List.lookup_cons]
      by_cases hk : e.1 = k
      · rw [if_pos (beq_iff_eq.mpr hk)] at h
        rw [hk]
        by_cases hx : x = k
        · rw [beq_iff_eq.mpr hx] at h
          cases h
          exact .inl ⟨hx, rfl⟩
        · rw [beq_false_of_ne hx] at h ⊢
          exact ih h
      · rw [if_neg (mt beq_iff_eq.mp hk)] at h
        by_cases hx : x = e.1
        · rw [beq_iff_eq.mpr hx] at h ⊢
          exact .inr h
        · rw [beq_false_of_ne hx] at h ⊢
          exact ih h

/-- A name in use is the one that was put in last, or one from before. -/
theorem get?_insert {r : Renaming} {k x y z : String} (h : (r.insert k y).get? x = some z) :
    (x = k ∧ z = y) ∨ r.get? x = some z := by
  unfold insert at h
  split at h
  · exact lookup_replace h
  · rw [get?, List.lookup_append] at h
    cases hr : r.lookup x with
    | some z' =>
        rw [hr] at h
        exact .inr (hr.trans h)
    | none =>
        rw [hr, Option.none_or, List.lookup_cons] at h
        by_cases hx : x = k
        · rw [beq_iff_eq.mpr hx] at h
          cases h
          exact .inl ⟨hx, rfl⟩
        · rw [beq_false_of_ne hx] at h
          cases h

/-- A name that is in use was put in use. -/
theorem mem_of_get?_foldl {es : List (String × String)} {r : Renaming} {x z : String}
    (h : (es.foldl (fun r e => r.insert e.1 e.2) r).get? x = some z) : (x, z) ∈ es ∨ r.get? x = some z := by
  induction es generalizing r with
  | nil => exact .inr h
  | cons e es ih =>
      rcases ih h with h | h
      · exact .inl (List.mem_cons_of_mem _ h)
      · rcases get?_insert h with ⟨rfl, rfl⟩ | h
        · exact .inl (List.mem_cons_self ..)
        · exact .inr h

end Renaming

namespace Tree

variable {p : Tree} {k x : String}

/-- The names that a pattern gives to the keys it takes are bound in it. -/
theorem Clear.takenKeys_ne (hp : p.Clear w) (h : (k, x) ∈ p.takenKeys) : x ≠ w.symbol := by
  have hkey : ∀ q : Tree, q.Clear w → takenKey? q = some (k, x) → x ≠ w.symbol := by
    intro q hq h
    unfold takenKey? at h
    split at h
    · cases h
      simp at hq
      exact hq.1.1
    · obtain ⟨k', -, heq⟩ := Option.map_eq_some_iff.mp h
      cases heq
      simp at hq
      exact hq.2.1
    · cases h
  unfold takenKeys at h
  split at h
  · obtain ⟨q, hq, h⟩ := List.mem_filterMap.mp h
    simp at hp
    exact hkey q (hp.1 q hq) h
  · cases h

/-- A clear pattern does not bind the symbol. -/
theorem Clear.takenNames_ne (hp : p.Clear w) (h : p.takenNames.get? k = some x) : x ≠ w.symbol := by
  rcases Renaming.mem_of_get?_foldl h with h | h
  · exact hp.takenKeys_ne h
  · cases h

theorem Clear.wholeBinding?_ne (hp : p.Clear w) (h : p.wholeBinding? = some x) : x ≠ w.symbol := by
  unfold wholeBinding? at h
  split at h
  · split at h
    · cases h
    · cases h
      simp at hp
      exact hp.1
  · cases h

end Tree

/-! ## Bodies -/

namespace Tree

variable {body : Tree} {ss : List Tree}

theorem Clear.statements? (h : body.Clear w) (hss : body.statements? = some ss) : ∀ t ∈ ss, t.Clear w := by
  unfold Tree.statements? at hss
  split at hss
  · cases hss
    rwa [clear_plain rfl] at h
  · cases hss

theorem Clear.statements (h : body.Clear w) : ∀ t ∈ body.statements, t.Clear w := by
  unfold Tree.statements
  cases hss : body.statements? with
  | some ss => exact h.statements? hss
  | none => simpa using h

/-- A body is clear exactly if its statements are. -/
theorem clear_withStatements (body : Tree) : (body.withStatements ss).Clear w ↔ ∀ t ∈ ss, t.Clear w := by
  unfold withStatements
  split
  · exact clear_plain rfl
  · exact Make.clear_block

/-- Further statements are put into a body. -/
theorem Clear.insertAt {new : List Tree} (h : body.Clear w) (hnew : ∀ t ∈ new, t.Clear w) (n : Nat) :
    (body.withStatements (FormCodemod.insertAt n new body.statements)).Clear w := by
  rw [clear_withStatements]
  intro t ht
  rcases mem_insertAt.mp ht with ht | ht
  · exact hnew t ht
  · exact h.statements t ht

end Tree

/-! ## Fixed names -/

/-- The names of the target libraries that the conversion puts in by itself. -/
def emittedNames : List String := ["useForm", "useFormMetadata", "getInputProps", "FormProvider", "parseWithYup"]

/-- A name that is never put in is not the symbol of a watch for names that are. -/
theorem ne_symbol (hw : w.symbol ∈ emittedNames) {x : String} (hx : x ∉ emittedNames) : x ≠ w.symbol :=
  fun h => hx (h ▸ hw)

/-- A key goes by the name that a pattern gives it, or by its own. -/
theorem Tree.Clear.takenOr_ne {p : Tree} {k x : String} {c : Bool} (hp : p.Clear w) (hw : w.symbol ∈ emittedNames)
    (hk : k ∉ emittedNames) (h : (p.takenNames.get? k).or (if c then some k else none) = some x) :
    x ≠ w.symbol := by
  rcases Option.or_eq_some_iff.mp h with h | ⟨-, h⟩
  · exact hp.takenNames_ne h
  · split at h
    · cases h
      exact ne_symbol hw hk
    · cases h

@[simp] theorem Setting.clear_param {s : Setting} {x type : String} {b : Bool} :
    (s.param x type b).Clear w ↔ x ≠ w.symbol := by
  unfold Setting.param
  split <;> simp

/-! ## Helpers -/

namespace Capabilities

/-- The names that helpers go by are not the symbol. -/
theorem names_resolve {p : Tree} (hw : w.symbol ∈ emittedNames) (hp : p.Clear w) (uses : List Use)
    (declared : List String) : ∀ x ∈ (resolve p.takenNames uses declared).names, x ≠ w.symbol := by
  intro x hx
  simp only [names, resolve, List.mem_append, Option.mem_toList] at hx
  rcases hx with ((h | h) | h) | h
  · exact hp.takenOr_ne hw (by decide) h
  · exact hp.takenOr_ne hw (by decide) h
  · exact hp.takenOr_ne hw (by decide) h
  · exact hp.takenOr_ne hw (by decide) h

/-- The helpers of a scope are clear if the names they declare are. -/
theorem clear_helpers {c : Capabilities} (hw : w.symbol ∈ emittedNames) (s : Setting)
    (hc : ∀ x ∈ c.names, x ≠ w.symbol) : ∀ t ∈ c.helpers s formName, t.Clear w := by
  have hform : formName ≠ w.symbol := ne_symbol hw (by decide)
  have hupdate : "update" ≠ w.symbol := ne_symbol hw (by decide)
  have hsetter : ∀ x ∈ c.names, ∀ update : Tree, update.Clear w → (setter s x update).Clear w := by
    intro x hx update hclear
    simp [setter, hc x hx, hclear, ne_symbol hw, emittedNames]
  refine forall_mem_helpers (fun x hx => ?values) (fun x hx => ⟨?direct, ?bound⟩) ?update ?fieldset (fun x hx => ?touched)
    fun x hx => ?submitting
  case values => simp [valuesHelper, hc x hx, hform]
  case direct => exact hsetter x hx _ (by simpa using hform)
  case bound => exact hsetter x hx _ (by simpa using hupdate)
  case update => simp [hupdate, hform]
  case fieldset => simp [fieldsetHelper, hform, ne_symbol hw, emittedNames, fieldsName]
  case touched => simp [touchedHelper, hc x hx, ne_symbol hw, emittedNames]
  case submitting => simp [submittingHelper, hc x hx]

/-- The variable that is kept for the whole form state is not the symbol. -/
theorem clear_wholeHelper {whole : Option String} (hw : w.symbol ∈ emittedNames) (uses : List Use)
    (h : ∀ x, whole = some x → x ≠ w.symbol) : ∀ t ∈ wholeHelper uses whole, t.Clear w :=
  forall_mem_wholeHelper (fun x hx => by simp [h x hx, ne_symbol hw, emittedNames, formName]) uses

end Capabilities

/-! ## Reads of the form state -/

namespace Tree

variable {t t' body : Tree} {x form : String}

/-- A clear tree that looks like nothing may take the place of one that looks like nothing. -/
theorem Keeps.of_clear (ht : t.face = {}) (ht' : t'.face = {}) (h : t'.Clear w) : Keeps w t t' :=
  ⟨h.free, ht'.trans ht.symm⟩

theorem face_of_memberOf? {k : String} (h : t.memberOf? x = some k) : t.face = {} := by
  refine face_of_unparen_isCode ?_
  unfold memberOf? at h
  split at h
  · next heq =>
      rw [heq]
      rfl
  · cases h

/-- A read of the form state becomes nothing that must not occur. -/
theorem keeps_flatRead? (hw : w.symbol ∈ emittedNames) (hform : form ≠ w.symbol)
    (h : flatRead? x form t = some t') : Keeps w t t' := by
  -- a member that is flattened becomes a variable of its own name
  have hflat : ∀ k ∈ flattened, k ∉ emittedNames := by decide
  unfold flatRead? at h
  split at h
  · split at h
    · next k hk =>
        split at h
        · cases h
          exact .of_clear (face_of_memberOf? hk) rfl (by simpa using hform)
        · split at h
          · next hmem =>
              cases h
              have hne := ne_symbol hw (hflat k (List.contains_iff_mem.mp hmem))
              exact .of_clear (face_of_memberOf? hk) rfl (by simpa using hne)
          · cases h
    · cases h
  · cases h

/-- A handler's name becomes nothing that must not occur. -/
theorem keeps_handlerRead? {locals : Renaming} (hform : form ≠ w.symbol)
    (h : handlerRead? locals form t = some t') : Keeps w t t' := by
  unfold handlerRead? at h
  split at h
  · obtain ⟨member, -, rfl⟩ := Option.map_eq_some_iff.mp h
    exact .of_clear rfl rfl (by simpa using hform)
  · cases h

/-- Converted reads look like the old ones and use no name but the fixed ones. -/
theorem keeps_convertReads (hw : w.symbol ∈ emittedNames) (p : Tree) (hbody : body.Free w) :
    Keeps w body (p.convertReads body) := by
  have hform : formName ≠ w.symbol := ne_symbol hw (by decide)
  have hhandlers : ∀ {b : Tree}, b.Free w → Keeps w b (b.substituteHandlers p.takenNames formName) :=
    fun hb => .mapDown (fun t t' _ h => keeps_handlerRead? hform h) _ hb
  unfold convertReads
  dsimp only
  split
  · next x _ =>
      have hflat : Keeps w body (body.flatten x formName) :=
        .mapDown (fun t t' _ h => keeps_flatRead? hw hform h) _ hbody
      exact hflat.trans (hhandlers hflat.free)
  · exact hhandlers hbody

end Tree

/-- A scope whose reads are converted gets the helpers that these need. -/
theorem Tree.Clear.declareHelpers {body p : Tree} {c : Capabilities} (hw : w.symbol ∈ emittedNames)
    (hbody : body.Clear w) (hp : p.Clear w) (hc : ∀ x ∈ c.names, x ≠ w.symbol) (b : Bool) (s : Setting)
    (uses : List Use) (n : Nat) :
    (body.withStatements (FormCodemod.insertAt n
      (Capabilities.wholeHelper uses p.wholeBinding? ++ { c with fieldset := b }.helpers s formName)
      body.statements)).Clear w := by
  refine hbody.insertAt ?_ n
  intro t ht
  rcases List.mem_append.mp ht with ht | ht
  · exact Capabilities.clear_wholeHelper hw uses (fun x hx => hp.wholeBinding?_ne hx) t ht
  · exact Capabilities.clear_helpers (c := { c with fieldset := b }) hw s hc t ht

end FormCodemod
