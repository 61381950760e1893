import Mathlib.Order.Bounds.Defs
import FormCodemod.Proofs.Names.Made
import FormCodemod.Proofs.Wrapper.Statements

/-!
# Names that statements declare

Which names statements declare is told by their patterns. It does not change when expressions are put in the places of
others (`Tree.declaredNames_of_rewritten`), nor with the order of the statements. Asking for one name agrees with listing
them all (`Tree.asking_agrees_with_listing`).

The helpers of a scope declare the names of its capabilities (`Capabilities.declaredNames_helpers`). A capability goes by
the name that a pattern gave it, which is not looked at any further, or by its own name if the scope does not
declare that (`Capabilities.mem_names_resolve`).
-/

namespace FormCodemod

namespace Tree

variable {p t t' : Tree} {ts ts' ss ss' : List Tree} {k x : String}

/-! ## Expressions in the places of others -/

/-- The names that the items of a group bind, if it is one. -/
def itemNames? : Tree → Option (List String)
  | .list ts => some (allBoundNames ts)
  | _ => none

/-- The names that a node binds, by those that its children bind, and the items of these. -/
def boundOf : Kind → List (List String × Option (List String)) → List String
  | .pat (.binding x _), _ => [x]
  | .pat (.array _), [es, _] => es.2.getD []
  | .pat (.object _), [ps, _] => ps.2.getD []
  | .pat .keyValue, [_, p] => p.1
  | .pat .shorthand, b :: _ => b.1
  | .pat .rest, p :: _ => p.1
  | .pat .withDefault, p :: _ => p.1
  | _, _ => []

/-- The names that a pattern binds, by those of its parts. -/
theorem boundNames_node (o : Origin) (k : Kind) (ts : List Tree) :
    (node o k ts).boundNames = boundOf k (ts.map fun t => (t.boundNames, t.itemNames?)) := by
  cases k with
  | pat k => cases k <;> (rcases ts with _ | ⟨⟨⟩, _ | ⟨q, _ | ⟨r, ts⟩⟩⟩ <;> rfl)
  | _ => rfl

theorem allBoundNames_eq_flatMap (ts : List Tree) : allBoundNames ts = ts.flatMap boundNames := by
  induction ts with
  | nil => rfl
  | cons t ts ih => rw [allBoundNames, ih, List.flatMap_cons]

theorem flatMap_eq_of_map_eq {α β : Type} {f : α → List β} {as bs : List α} (h : bs.map f = as.map f) :
    bs.flatMap f = as.flatMap f := by
  rw [List.flatMap_def, List.flatMap_def, h]

theorem boundNames_of_isExpression (h : t.isExpression = true) : t.boundNames = [] := by
  unfold boundNames
  split <;> first | rfl | cases h

/-- Patterns bind the same names when expressions in them are rewritten. -/
theorem Rewritten.bound_eq (h : Rewritten t t') : t'.boundNames = t.boundNames ∧ t'.itemNames? = t.itemNames? := by
  induction t using ind generalizing t' with
  | node o k ts ih =>
      cases h with
      | expression h h' =>
          refine ⟨by rw [boundNames_of_isExpression h, boundNames_of_isExpression h'], ?_⟩
          cases t' with
          | node => rfl
          | list => cases h'
          | absent => rfl
      | @node _ _ _ ts' h =>
          have hts : ts'.map (fun t => (t.boundNames, t.itemNames?)) = ts.map fun t => (t.boundNames, t.itemNames?) :=
            map_eq_of_forall₂ (forall₂_imp_of_mem h fun t ht t' h => Prod.ext (ih t ht h).1 (ih t ht h).2)
          exact ⟨by rw [boundNames_node, boundNames_node, hts], rfl⟩
  | list ts ih =>
      cases h with
      | expression h => cases h
      | list h =>
          have hts : List.map boundNames _ = ts.map boundNames :=
            map_eq_of_forall₂ (forall₂_imp_of_mem h fun t ht t' h => (ih t ht h).1)
          refine ⟨rfl, ?_⟩
          rw [itemNames?, itemNames?, allBoundNames_eq_flatMap, allBoundNames_eq_flatMap, flatMap_eq_of_map_eq hts]
  | absent =>
      cases h with
      | expression h => cases h
      | absent => exact ⟨rfl, rfl⟩

/-- The names that a statement declares, by what its children are the declarators and names of. -/
def declaredOf : Kind → List (List String × Option String) → List String
  | .stmt (.vars _ _), ds => ds.flatMap (·.1)
  | .stmt (.func _), n :: _ => n.2.toList
  | .stmt (.clazz _), n :: _ => n.2.toList
  | _, _ => []

/-- The names that a statement declares, by its declarators. -/
theorem declared_node (o : Origin) (k : Kind) (ts : List Tree) :
    (node o k ts).declared = declaredOf k (ts.map fun t => (t.declaredPattern.boundNames, t.tag?)) := by
  have hname : ∀ (n : Tree) (rest : List Tree) (a : Bool), (Tree.stmt o (.func a) (n :: rest)).declared = n.tag?.toList ∧
      (Tree.stmt o (.clazz a) (n :: rest)).declared = n.tag?.toList := by
    intro n rest a
    cases n with
    | node no nk nts =>
        cases nk with
        | part nk => cases nk <;> exact ⟨rfl, rfl⟩
        | _ => exact ⟨rfl, rfl⟩
    | list => exact ⟨rfl, rfl⟩
    | absent => exact ⟨rfl, rfl⟩
  cases k with
  | stmt k =>
      cases k with
      | vars kw d => rw [declared, declaredOf, List.flatMap_map]
      | func a =>
          cases ts with
          | nil => rfl
          | cons n rest => exact (hname n rest a).1
      | clazz a =>
          cases ts with
          | nil => rfl
          | cons n rest => exact (hname n rest a).2
      | _ => rfl
  | _ => rfl

theorem Rewritten.declarator_eq (h : Rewritten t t') :
    t'.declaredPattern.boundNames = t.declaredPattern.boundNames ∧ t'.tag? = t.tag? := by
  have hexpression : ∀ {t : Tree}, t.isExpression = true → t.declaredPattern = .absent ∧ t.tag? = none := by
    intro t h
    cases t with
    | node o k ts => cases k <;> first | exact ⟨rfl, rfl⟩ | cases h
    | list => cases h
    | absent => cases h
  cases h with
  | expression h h' =>
      obtain ⟨hp, ht⟩ := hexpression h
      obtain ⟨hp', ht'⟩ := hexpression h'
      rw [hp, hp', ht, ht']
      exact ⟨rfl, rfl⟩
  | @node o k ts ts' h =>
      cases k with
      | part k =>
          cases k with
          | declarator d =>
              cases h with
              | nil => exact ⟨rfl, rfl⟩
              | cons hp _ => exact ⟨hp.bound_eq.1, rfl⟩
          | _ => exact ⟨rfl, rfl⟩
      | _ => exact ⟨rfl, rfl⟩
  | list h => exact ⟨rfl, rfl⟩
  | absent => exact ⟨rfl, rfl⟩

/-- A statement declares the same names when expressions in it are rewritten. -/
theorem Rewritten.declared_eq (h : Rewritten t t') : t'.declared = t.declared := by
  cases h with
  | expression h h' =>
      have hnone : ∀ {t : Tree}, t.isExpression = true → t.declared = [] := by
        intro t h
        cases t with
        | node o k ts => cases k <;> first | rfl | cases h
        | list => cases h
        | absent => cases h
      rw [hnone h, hnone h']
  | @node o k ts ts' h =>
      have hts : ts'.map (fun t => (t.declaredPattern.boundNames, t.tag?)) =
          ts.map fun t => (t.declaredPattern.boundNames, t.tag?) :=
        map_eq_of_forall₂ (h.imp fun t t' h => Prod.ext h.declarator_eq.1 h.declarator_eq.2)
      rw [declared_node, declared_node, hts]
  | list h => rfl
  | absent => rfl

/-- Statements declare the same names when expressions in them are rewritten. -/
theorem declaredNames_of_rewritten (h : List.Forall₂ Rewritten ss ss') : declaredNames ss' = declaredNames ss :=
  flatMap_eq_of_map_eq (map_eq_of_forall₂ (h.imp fun _ _ h => h.declared_eq))

theorem declaredNames_map {f : Tree → Tree} (hf : ∀ t, Rewritten t (f t)) (ss : List Tree) :
    declaredNames (ss.map f) = declaredNames ss := by
  refine declaredNames_of_rewritten ?_
  rw [List.forall₂_map_right_iff]
  exact List.forall₂_same.mpr fun t _ => hf t

/-- A body declares the same names, too. -/
theorem Rewritten.declaredNames_statements (h : Rewritten t t') :
    declaredNames t'.statements = declaredNames t.statements := by
  have hexpression : ∀ {t : Tree}, t.isExpression = true → declaredNames t.statements = [] := by
    intro t h
    cases t with
    | node o k ts => cases k <;> first | rfl | cases h
    | list => cases h
    | absent => cases h
  cases h with
  | expression h h' => rw [hexpression h, hexpression h']
  | @node o k ts ts' h =>
      cases k with
      | stmt k =>
          cases k with
          | block => exact declaredNames_of_rewritten h
          | _ => rfl
      | _ => rfl
  | list h => rfl
  | absent => rfl

/-! ## Asking for one name -/

theorem anyBinds_eq_any (x : String) (ts : List Tree) : anyBinds x ts = ts.any (binds x) := by
  induction ts with
  | nil => rfl
  | cons t ts ih => rw [anyBinds, ih, List.any_cons]

/-- To ask whether a name is bound is to look for it among the bound ones. -/
theorem binds_iff : p.binds x = true ↔ x ∈ p.boundNames := by
  -- the items of a group are two levels below the pattern, so groups have to be in the induction
  suffices hboth : (p.binds x = true ↔ x ∈ p.boundNames) ∧
      ∀ ts, p = .list ts → (anyBinds x ts = true ↔ x ∈ allBoundNames ts) from hboth.1
  induction p using ind with
  | node o k ts ih =>
      refine ⟨?_, nofun⟩
      unfold binds
      split
      next heq =>
        cases heq
        rw [boundNames, List.mem_singleton, beq_iff_eq, eq_comm]
      next es _ heq =>
        cases heq
        exact (ih (.list es) (by simp)).2 es rfl
      next ps _ heq =>
        cases heq
        exact (ih (.list ps) (by simp)).2 ps rfl
      next value heq =>
        cases heq
        exact (ih value (by simp)).1
      next b _ heq =>
        cases heq
        exact (ih b (by simp)).1
      next rest _ heq =>
        cases heq
        exact (ih rest (by simp)).1
      next q _ heq =>
        cases heq
        exact (ih q (by simp)).1
      next =>
        rw [boundNames]
        · exact ⟨nofun, nofun⟩
        all_goals assumption
  | list ts ih =>
      refine ⟨⟨nofun, nofun⟩, fun ts' hts => ?_⟩
      cases hts
      rw [anyBinds_eq_any, allBoundNames_eq_flatMap, List.any_eq_true, List.mem_flatMap]
      exact exists_congr fun c => and_congr_right fun hc => (ih c hc).1
  | absent => exact ⟨⟨nofun, nofun⟩, nofun⟩

/-- To ask whether a statement declares a name is to look for it among the declared ones. -/
theorem declares_iff : t.declares x = true ↔ x ∈ t.declared := by
  unfold declares
  split
  next =>
    rw [declared, List.any_eq_true, List.mem_flatMap]
    exact exists_congr fun d => and_congr_right fun _ => binds_iff
  next => rw [declared, List.mem_singleton, beq_iff_eq, eq_comm]
  next => rw [declared, List.mem_singleton, beq_iff_eq, eq_comm]
  next =>
    rw [declared]
    · exact ⟨nofun, nofun⟩
    all_goals assumption

/-- To ask whether statements declare a name is to look for it among the declared ones. -/
theorem anyDeclares_iff : anyDeclares x ss = true ↔ x ∈ declaredNames ss := by
  rw [anyDeclares, declarationOf?, List.findIdx?_isSome, List.any_eq_true, declaredNames, List.mem_flatMap]
  exact exists_congr fun t => and_congr_right fun _ => declares_iff

/-- A name whose declaration has a place is declared. -/
theorem mem_declaredNames_of_declarationOf? {i : Nat} (h : declarationOf? x ss = some i) : x ∈ declaredNames ss := by
  rw [← anyDeclares_iff, anyDeclares, h]
  rfl

/-- The place of a declaration is that of the first statement that lists the name. -/
theorem declarationOf?_eq_some_iff {i : Nat} :
    declarationOf? x ss = some i ↔ IsLeast {i | ∃ t, ss[i]? = some t ∧ x ∈ declaredNames [t]} i := by
  have hlisted : ∀ j, (∃ t, ss[j]? = some t ∧ x ∈ declaredNames [t]) ↔ ∃ h : j < ss.length, ss[j].declares x = true := by
    intro j
    simp only [declaredNames, List.flatMap_singleton, List.getElem?_eq_some_iff, declares_iff]
    constructor
    · rintro ⟨t, ⟨hj, rfl⟩, hx⟩
      exact ⟨hj, hx⟩
    · rintro ⟨hj, hx⟩
      exact ⟨_, ⟨hj, rfl⟩, hx⟩
  simp only [declarationOf?, List.findIdx?_eq_some_iff_getElem, hlisted]
  constructor
  · rintro ⟨hi, hx, hbefore⟩
    refine ⟨⟨hi, hx⟩, fun j ⟨_, hjx⟩ => ?_⟩
    exact Nat.le_of_not_lt fun hji => hbefore j hji hjx
  · rintro ⟨⟨hi, hx⟩, hleast⟩
    refine ⟨hi, hx, fun j hji hjx => ?_⟩
    exact absurd (hleast ⟨by omega, hjx⟩) (Nat.not_le_of_lt hji)

/-- Asking for a name and listing the names agree: for statements, for the place of the first one that declares it, and for
patterns of any depth. -/
theorem asking_agrees_with_listing (x : String) (ss : List Tree) :
    (anyDeclares x ss = true ↔ x ∈ declaredNames ss) ∧
      (∀ i, declarationOf? x ss = some i ↔ IsLeast {i | ∃ t, ss[i]? = some t ∧ x ∈ declaredNames [t]} i) ∧
      ∀ p : Tree, p.binds x = true ↔ x ∈ p.boundNames :=
  ⟨anyDeclares_iff, fun _ => declarationOf?_eq_some_iff, fun _ => binds_iff⟩

/-! ## The order of statements -/

@[simp] theorem declaredNames_append (ss ss' : List Tree) :
    declaredNames (ss ++ ss') = declaredNames ss ++ declaredNames ss' :=
  List.flatMap_append

@[simp] theorem declaredNames_cons (t : Tree) (ss : List Tree) :
    declaredNames (t :: ss) = t.declared ++ declaredNames ss :=
  List.flatMap_cons

/-- The names of statements that are put in come on top of those that were declared. -/
theorem declaredNames_insertAt (n : Nat) (new ss : List Tree) :
    (declaredNames (insertAt n new ss)).Perm (declaredNames ss ++ declaredNames new) := by
  have hperm : (insertAt n new ss).Perm (ss ++ new) := by
    rw [insertAt]
    conv_rhs => rw [← List.take_append_drop n ss]
    rw [List.append_assoc, List.append_assoc]
    exact List.Perm.append_left _ List.perm_append_comm
  rw [← declaredNames_append]
  exact hperm.flatMap_right _

/-! ## Names that a pattern gives -/

/-- A pattern binds each name that it gives to a key. -/
theorem mem_boundNames_of_takenNames (h : p.takenNames.get? k = some x) : x ∈ p.boundNames := by
  have hkey : ∀ q : Tree, takenKey? q = some (k, x) → x ∈ q.boundNames := by
    intro q hq
    unfold takenKey? at hq
    split at hq
    · cases hq
      exact List.mem_singleton.mpr rfl
    · obtain ⟨k', -, heq⟩ := Option.map_eq_some_iff.mp hq
      cases heq
      exact List.mem_singleton.mpr rfl
    · cases hq
  rcases Renaming.mem_of_get?_foldl h with h | h
  · unfold takenKeys at h
    split at h
    · next ps _ =>
        obtain ⟨q, hq, hx⟩ := List.mem_filterMap.mp h
        rw [boundNames, allBoundNames_eq_flatMap]
        exact List.mem_flatMap.mpr ⟨q, hq, hkey q hx⟩
    · cases h
  · cases h

/-- A pattern that binds the whole form state binds one name. -/
theorem boundNames_of_wholeBinding? (h : p.wholeBinding? = some x) : p.boundNames = [x] := by
  unfold wholeBinding? at h
  split at h
  · split at h
    · cases h
    · cases h
      rfl
  · cases h

end Tree

/-! ## Names of helpers -/

namespace Capabilities

def helped (c : Capabilities) : List String :=
  c.values.toList ++ c.setFieldValue.toList.flatMap (fun x => if c.onlySetsValues then [x] else ["update", x]) ++
    (if c.fieldset then [fieldsName] else []) ++ c.setFieldTouched.toList ++ c.isSubmitting.toList

/-- Helpers declare exactly the names that were asked for. -/
theorem declaredNames_helpers (c : Capabilities) (s : Setting) (form : String) :
    Tree.declaredNames (c.helpers s form) = c.helped := by
  have hone : ∀ {f : String → Tree} (x : Option String), (∀ x, (f x).declared = [x]) →
      Tree.declaredNames (x.toList.map f) = x.toList := by
    intro f x hf
    cases x with
    | none => rfl
    | some x => simp [Tree.declaredNames, hf]
  have hsetter : ∀ x : Option String, Tree.declaredNames (x.toList.flatMap (setterHelpers s form c.onlySetsValues)) =
      x.toList.flatMap fun x => if c.onlySetsValues then [x] else ["update", x] := by
    intro x
    cases x with
    | none => rfl
    | some x =>
        simp only [Option.toList_some, List.flatMap_singleton, setterHelpers]
        split <;> rfl
  have hfieldset : Tree.declaredNames (if c.fieldset then [fieldsetHelper form] else []) =
      if c.fieldset then [fieldsName] else [] := by
    split <;> rfl
  simp only [helpers, helped, Tree.declaredNames_append]
  rw [hone c.values fun _ => rfl, hsetter, hfieldset, hone c.setFieldTouched fun _ => rfl,
    hone c.isSubmitting fun _ => rfl]

/-- A variable for the whole form state is declared only where it is still used. -/
theorem declaredNames_wholeHelper (uses : List Use) (whole : Option String) :
    Tree.declaredNames (wholeHelper uses whole) = (whole.filter fun x => uses.contains (.ref x)).toList := by
  cases whole with
  | none => rfl
  | some x =>
      rw [wholeHelper, Option.filter_some]
      split <;> rfl

/-- The names of helpers are fixed or were given to capabilities. -/
theorem mem_helped {c : Capabilities} {x : String} (h : x ∈ c.helped) :
    x = "update" ∨ c.fieldset = true ∧ x = fieldsName ∨ x ∈ c.names := by
  simp only [helped, List.mem_append, List.mem_flatMap, Option.mem_toList] at h
  simp only [names, List.mem_append, Option.mem_toList]
  rcases h with (((h | ⟨y, hy, h⟩) | h) | h) | h
  · exact .inr (.inr (.inl (.inl (.inl h))))
  · split at h
    · obtain rfl := List.mem_singleton.mp h
      exact .inr (.inr (.inl (.inl (.inr hy))))
    · rcases List.mem_pair.mp h with rfl | rfl
      · exact .inl rfl
      · exact .inr (.inr (.inl (.inl (.inr hy))))
  · split at h
    · next hfieldset => exact .inr (.inl ⟨hfieldset, List.mem_singleton.mp h⟩)
    · cases h
  · exact .inr (.inr (.inl (.inr h)))
  · exact .inr (.inr (.inr h))

/-- A capability goes by the name that a pattern gave it, or by its own, which is then referred to and not declared. -/
theorem mem_names_resolve {taken : Renaming} {uses : List Use} {declared : List String} {x : String}
    (h : x ∈ (resolve taken uses declared).names) :
    (∃ k, taken.get? k = some x) ∨ x ∈ flattened ∧ .ref x ∈ uses ∧ x ∉ declared := by
  have hpick : ∀ {k : String}, k ∈ flattened →
      (taken.get? k).or (if uses.contains (.ref k) && !declared.contains k then some k else none) = some x →
        (∃ k, taken.get? k = some x) ∨ x ∈ flattened ∧ .ref x ∈ uses ∧ x ∉ declared := by
    intro k hk h
    rcases Option.or_eq_some_iff.mp h with h | ⟨-, h⟩
    · exact .inl ⟨k, h⟩
    · split at h
      next hc =>
        cases h
        rw [Bool.and_eq_true, Bool.not_eq_true', List.contains_iff_mem] at hc
        exact .inr ⟨hk, hc.1, fun hmem => by simp [hmem] at hc⟩
      next => cases h
  simp only [names, resolve, List.mem_append, Option.mem_toList] at h
  rcases h with ((h | h) | h) | h
  · exact hpick (by decide) h
  · exact hpick (by decide) h
  · exact hpick (by decide) h
  · exact hpick (by decide) h

end Capabilities

end FormCodemod
