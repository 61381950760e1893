import FormCodemod.Proofs.Convert.Reads
import FormCodemod.Proofs.Names.Free

/-!
# Handlers that are substituted

A pattern that takes the form state apart gives names to handlers. The pattern goes away, so nothing in the scope may
refer to these names any longer: `Tree.substituteHandlers` puts members of the form in their places.

It does so where the name is an expression. `substituteHandlers_dangling` says that no such expression is left, and that a
shorthand property of an object literal, which refers to the name as well, is left wherever it was.
-/

namespace FormCodemod

/-! ## The names of handlers -/

namespace Renaming

variable {r : Renaming} {k x y : String}

theorem isSome_get? : (r.get? x).isSome = true ↔ x ∈ r.map (·.1) := by
  induction r with
  | nil => exact iff_of_false nofun List.not_mem_nil
  | cons e r ih =>
      rw [get?, List.lookup_cons, List.map_cons, List.mem_cons]
      by_cases hx : x = e.1
      · rw [beq_iff_eq.mpr hx]
        exact iff_of_true rfl (.inl hx)
      · rw [beq_false_of_ne hx, or_iff_right hx]
        exact ih

/-- What was in use stays in use, for another name perhaps. -/
theorem mem_insert : x ∈ (r.insert k y).map (·.1) ↔ x ∈ r.map (·.1) ∨ x = k := by
  unfold insert
  split
  next hk =>
    have hkeys : (r.map fun e => if e.1 == k then (k, y) else e).map (·.1) = r.map (·.1) := by
      rw [List.map_map]
      refine List.map_congr_left fun e _ => ?_
      by_cases he : e.1 = k
      · simp [he]
      · simp [he]
    have hmem : k ∈ r.map (·.1) := by simpa using hk
    rw [hkeys]
    exact ⟨.inl, fun h => h.elim id fun heq => heq ▸ hmem⟩
  next => simp

/-- A name is in use after all steps if it was before, or if one of the steps puts it in. -/
theorem mem_foldl {α : Type} {step : Renaming → α → Renaming} {P : α → Prop}
    (hstep : ∀ r a, x ∈ (step r a).map (·.1) ↔ x ∈ r.map (·.1) ∨ P a) (as : List α) (r : Renaming) :
    x ∈ (as.foldl step r).map (·.1) ↔ x ∈ r.map (·.1) ∨ ∃ a ∈ as, P a := by
  induction as generalizing r with
  | nil => simp
  | cons a as ih => rw [List.foldl_cons, ih, hstep, List.exists_mem_cons_iff, or_assoc]

end Renaming

namespace Tree

variable {stop p : Tree → Bool} {f : Tree → Option Tree} {locals taken : Renaming} {t t' : Tree} {k x form : String}

/-- The names that the pattern gave to handlers are those that are substituted. -/
theorem mem_takenHandlers : x ∈ (takenHandlers taken).map (·.1) ↔ ∃ h ∈ handlers, taken.get? h.1 = some x := by
  rw [takenHandlers]
  refine (Renaming.mem_foldl (P := fun h => taken.get? h.1 = some x) (fun r h => ?_) handlers []).trans
    (or_iff_right List.not_mem_nil)
  cases hget : taken.get? h.1 with
  | none => simp
  | some y =>
      rw [Renaming.mem_insert, Option.some.injEq]
      exact or_congr_right eq_comm

/-! ## Expressions -/

/-- A traversal finds nothing if it is stopped by what it looks for. -/
theorem any_eq_false_of_stopped (h : ∀ u, p u = true → stop u = true) (t : Tree) : t.any stop p = false := by
  induction t using ind with
  | node o k ts ih =>
      -- it is not what is looked for, or the traversal stops at it
      rw [any_node_eq_false]
      cases hp : p (node o k ts) with
      | true => exact .inl (h _ hp)
      | false => exact .inr ⟨rfl, ih⟩
  | list ts ih => exact any_list_eq_false.mpr ih
  | absent => rfl

theorem isVariable_withChildren (t : Tree) (ts' : List Tree) : (t.withChildren ts').isVariable x = t.isVariable x := by
  cases t with
  | node o k ts =>
      cases k with
      | expr k => cases k <;> rfl
      | _ => rfl
  | list ts => rfl
  | absent => rfl

/-- A variable is substituted exactly if a handler goes by its name. -/
theorem handlerRead?_of_isVariable (h : t.isVariable x = true) :
    handlerRead? locals form t = (locals.get? x).map fun member => Make.member (Make.ident form) member := by
  unfold isVariable at h
  split at h
  · rw [beq_iff_eq.mp h]
    rfl
  · cases h

theorem handlerRead?_of_not_isNode (u : Tree) (h : u.isNode = false) : handlerRead? locals form u = none := by
  cases u with
  | node o k ts => cases h
  | list ts => rfl
  | absent => rfl

/-- A substituted handler has the outline that it had as a variable. -/
theorem outline_handlerRead? (h : handlerRead? locals form t = some t') : t'.outline = t.outline := by
  obtain ⟨o, x, ts, member, rfl, -, rfl⟩ := handlerRead?_eq_some h
  rw [outline_node]
  rfl

/-- No variable is left that goes by the name of a handler. -/
theorem any_isVariable_substituteHandlers (hx : x ∈ (takenHandlers taken).map (·.1)) (hform : x ≠ form) (body : Tree) :
    (body.substituteHandlers taken form).any opensScope (isVariable x) = false := by
  have hkept : ∀ t : Tree, t.opensScope = false → handlerRead? (takenHandlers taken) form t = none →
      (t.mapDown opensScope (handlerRead? (takenHandlers taken) form)).isVariable x = t.isVariable x := by
    intro t hs hnone
    rw [mapDown_eq_withChildren hs hnone, isVariable_withChildren]
  rw [← Bool.not_eq_true, substituteHandlers, any_mapDown_of_kept (fun _ _ => outline_handlerRead?) hkept, not_or]
  constructor
  · -- the rule has an answer wherever the variable stands
    refine Bool.not_eq_true _ ▸ any_eq_false_of_stopped (fun u hu => ?_) body
    rw [handlerRead?_of_isVariable hu, Option.isSome_map, Renaming.isSome_get?.mpr hx, Bool.or_true]
  · rintro ⟨u, hu, hany⟩
    obtain ⟨q, v, -, hv⟩ := exists_of_mem_outermost hu
    obtain ⟨-, -, -, member, -, -, rfl⟩ := handlerRead?_eq_some hv
    have hno : (form == x) = false := beq_false_of_ne hform.symm
    simp [Make.member, Make.ident, Make.key, any, anyAll, isVariable, hno] at hany

/-! ## Shorthand properties -/

/-- What the items of a group are called, if it is one. -/
def itemTags? : Tree → Option (List (Option String))
  | .list ts => some (ts.map tag?)
  | _ => none

/-- Whether a node has the shorthand property, by what the items of its children are called. -/
def shorthandOf (x : String) : Kind → List (Option (List (Option String))) → Bool
  | .expr .object, [some tags] => tags.contains (some x)
  | _, _ => false

/-- Whether a node holds a shorthand property of the name can be told from its children's tags. -/
theorem hasShorthand_node (o : Origin) (k : Kind) (ts : List Tree) :
    (node o k ts).hasShorthand x = shorthandOf x k (ts.map itemTags?) := by
  cases k with
  | expr k =>
      cases k with
      | object =>
          rcases ts with _ | ⟨c, _ | ⟨c', ts⟩⟩
          · rfl
          · cases c with
            | node => rfl
            | list ps =>
                show (ps.any fun t => t.tag? == some x) = (ps.map tag?).contains (some x)
                rw [← List.any_beq', List.any_map]
                rfl
            | absent => rfl
          · cases c <;> rfl
      | _ => rfl
  | _ => rfl

theorem tag?_withChildren (t : Tree) (ts' : List Tree) : (t.withChildren ts').tag? = t.tag? := by
  cases t with
  | node o k ts =>
      cases k with
      | part k => cases k <;> rfl
      | _ => rfl
  | list ts => rfl
  | absent => rfl

/-- A substitution of handlers puts no names in and takes none out, and leaves the groups as they are. -/
theorem tags_mapDown (t : Tree) :
    (t.mapDown opensScope (handlerRead? locals form)).tag? = t.tag? ∧
      (t.mapDown opensScope (handlerRead? locals form)).itemTags? = t.itemTags? := by
  have hnode : ∀ o k ts, ((node o k ts).mapDown opensScope (handlerRead? locals form)).tag? = (node o k ts).tag? ∧
      ((node o k ts).mapDown opensScope (handlerRead? locals form)).itemTags? = (node o k ts).itemTags? := by
    intro o k ts
    rw [mapDown]
    split
    · exact ⟨rfl, rfl⟩
    · split
      · next t' heq =>
          -- neither a variable nor a member is called by a tag
          obtain ⟨_, _, _, _, hvariable, -, rfl⟩ := handlerRead?_eq_some heq
          rw [hvariable]
          exact ⟨rfl, rfl⟩
      · exact ⟨tag?_withChildren (node o k ts) _, rfl⟩
  induction t using ind with
  | node o k ts => exact hnode o k ts
  | list ts ih =>
      refine ⟨rfl, ?_⟩
      rw [mapDown_list, itemTags?, itemTags?, List.map_map]
      exact congrArg some (List.map_congr_left fun t ht => (ih t ht).1)
  | absent => exact ⟨rfl, rfl⟩

/-- Substitution leaves the shorthand properties of a node. -/
theorem hasShorthand_mapDown (hs : t.opensScope = false) (hnone : handlerRead? locals form t = none) :
    (t.mapDown opensScope (handlerRead? locals form)).hasShorthand x = t.hasShorthand x := by
  rw [mapDown_eq_withChildren hs hnone]
  cases t with
  | node o k ts =>
      have htags : (ts.map (mapDown opensScope (handlerRead? locals form))).map itemTags? = ts.map itemTags? := by
        rw [List.map_map]
        exact List.map_congr_left fun t _ => (tags_mapDown t).2
      rw [withChildren, hasShorthand_node, hasShorthand_node, children_node, htags]
  | list ts => rfl
  | absent => rfl

def isHandler (taken : Renaming) (t : Tree) : Bool :=
  match t with
  | .expr _ (.ident x) _ => (takenHandlers taken).any (·.1 == x)
  | _ => false

/-- The substituted nodes are the variables that a handler goes by. -/
theorem isSome_handlerRead? (taken : Renaming) (form : String) (t : Tree) :
    (handlerRead? (takenHandlers taken) form t).isSome = t.isHandler taken := by
  unfold isHandler
  split
  next o x ts =>
    rw [Bool.eq_iff_iff, handlerRead?, Option.isSome_map, Renaming.isSome_get?]
    simp
  next hno =>
    unfold handlerRead?
    split
    next => exact (hno _ _ _ rfl).elim
    next => rfl

/-- Shorthand properties of any name are found where they were found before. -/
theorem any_hasShorthand_substituteHandlers (taken : Renaming) (form : String) (body : Tree) (x : String) :
    (body.substituteHandlers taken form).any opensScope (hasShorthand x) =
      body.any (fun u => u.opensScope || u.isHandler taken) (hasShorthand x) := by
  rw [Bool.eq_iff_iff, substituteHandlers,
    any_mapDown_of_kept (fun _ _ => outline_handlerRead?) fun _ => hasShorthand_mapDown]
  simp only [isSome_handlerRead?]
  -- a member of the form, which is what is put in, has no properties
  refine or_iff_left ?_
  rintro ⟨u, hu, hany⟩
  obtain ⟨q, v, -, hv⟩ := exists_of_mem_outermost hu
  obtain ⟨-, -, -, member, -, -, rfl⟩ := handlerRead?_eq_some hv
  cases hany

/-- A substitution of handlers leaves no variable that goes by the name of a handler: where one stood, a member of the
form stands. A shorthand property of that name is left wherever there was one, and then refers to nothing. -/
theorem substituteHandlers_dangling (taken : Renaming) (form : String) (body : Tree) (k x : String)
    (hk : k ∈ handlers.map (·.1)) (hx : taken.get? k = some x) (hform : x ≠ form) :
    (body.substituteHandlers taken form).any opensScope (isVariable x) = false ∧
    (body.substituteHandlers taken form).any opensScope (hasShorthand x) =
      body.any (fun u => u.opensScope || u.isHandler taken) (hasShorthand x) ∧
    ∃ member, (takenHandlers taken).get? x = some member ∧
      ∀ (q : Place) (u : Tree), body.at? q = some u → u.isVariable x = true → body.reaches opensScope q = true →
        (∀ q', q' <+: q → q' ≠ q → ∀ u, body.at? q' = some u → u.isHandler taken = false) →
        (body.substituteHandlers taken form).at? q = some (Make.member (Make.ident form) member) := by
  have hmem : x ∈ (takenHandlers taken).map (·.1) := by
    obtain ⟨h, hh, rfl⟩ := List.mem_map.mp hk
    exact mem_takenHandlers.mpr ⟨h, hh, hx⟩
  obtain ⟨member, hmember⟩ := Option.isSome_iff_exists.mp (Renaming.isSome_get?.mpr hmem)
  refine ⟨any_isVariable_substituteHandlers hmem hform body, any_hasShorthand_substituteHandlers taken form body x,
    member, hmember, ?_⟩
  intro q u hu hvariable hreached hfirst
  refine FindsFirst.at?_mapDown handlerRead?_of_not_isNode ⟨hreached, ⟨u, hu, ?_⟩, ?_⟩
  · rw [handlerRead?_of_isVariable hvariable, hmember, Option.map_some]
  · intro q' hq' hne v hv
    rw [← Option.not_isSome_iff_eq_none, isSome_handlerRead?, hfirst q' hq' hne v hv]
    exact Bool.false_ne_true

/-- `{ return <Child handlers={{ handleSubmit }} />; }` -/
def handlersBody : Tree :=
  Make.block [Make.ret (Make.element "Child" [Make.exprAttr "handlers" (Make.object [Make.name "handleSubmit"])] [])]

/-- A handler that is passed on in a shorthand property is not substituted. -/
theorem handlersBody_dangling :
    Renaming.get? [("handleSubmit", "handleSubmit")] "handleSubmit" = some "handleSubmit" ∧
      (handlersBody.substituteHandlers [("handleSubmit", "handleSubmit")] "form").any opensScope
        (hasShorthand "handleSubmit") = true := by
  refine ⟨rfl, ?_⟩
  rw [(substituteHandlers_dangling _ "form" handlersBody "handleSubmit" "handleSubmit" (by decide) rfl (by decide)).2.1]
  decide

end Tree

end FormCodemod
