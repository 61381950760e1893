import FormCodemod.Proofs.Scope.Runs
import FormCodemod.Proofs.Tree.Alike

/-!
# What tells scopes and tags

Whether a node declares a component, and which tag an element has, is told by its kind and by little of what its children
are (`Tree.outline`). A change below a node that keeps outlines is therefore no change to what belongs to the scope
around it. Replacing nodes keeps outlines if the rule does (`outline_mapDown`), and so does a walk through the scopes
(`Tree.walkable_sameToWalk`).

`any_mapDown` says where a property of this sort is found once nodes have been replaced: beside the replaced nodes, or in
what was put in their places.
-/

namespace FormCodemod

/-- What a parent sees of a child when it asks for components and tags. -/
structure Outline where
  /-- It is a function or a call that is handed one. -/
  functionLike : Bool := false
  /-- Whether one of its items is like a function, if it is a group. -/
  items : Option Bool := none
  /-- It is the function of a declaration or of a method. -/
  function : Bool := false
  /-- It is an expression around such a function. -/
  aroundFunction : Bool := false
  /-- The name that it is. -/
  name : Option String := none
  /-- The name that it binds. -/
  binding : Option String := none
  deriving DecidableEq

namespace Outline

/-- Whether they are a name and a function. -/
def namesFunction : List Outline → Bool
  | [_, f] => f.function
  | _ => false

def ofKind : Kind → List Outline → Outline
  | .expr .paren, [e] => { functionLike := e.functionLike }
  | .expr (.arrow _), _ => { functionLike := true }
  | .expr .func, os => { functionLike := true, aroundFunction := namesFunction os }
  | .expr .call, [_, args, _] => { functionLike := args.items == some true }
  | .part (.function _ _), _ => { function := true }
  | .part (.name x), _ => { name := some x }
  | .pat (.binding x _), _ => { binding := some x }
  | _, _ => {}

/-- Whether a node declares a component, by the outlines of its children. -/
def opens : Kind → List Outline → Bool
  | .part (.declarator _), [p, e] => p.binding.any isComponentName && e.functionLike
  | .stmt (.func _), [n, f] => n.name.any isComponentName && f.function
  | _, _ => false

/-- Whether a node announces a component, by the outlines of its children. -/
def announces : Kind → List Outline → Bool
  | .item .exportDefaultDecl, [e] => e.aroundFunction
  | .item .exportDefaultExpr, [e] => e.functionLike
  | k, os => opens k os

/-- Whether a node is an element with the tag, by the outlines of its children. -/
def tagged (x : String) : Kind → List Outline → Bool
  | .markup (.element _ _), [n, attrs, _, children, _] => attrs.items.isSome && children.items.isSome && n.name == some x
  | _, _ => false

end Outline

namespace Tree

mutual

/-- What a parent sees of a tree when it asks for components and tags. -/
def outline : Tree → Outline
  | .node _ k ts => Outline.ofKind k (outlineAll ts)
  | .list ts => { items := some ((outlineAll ts).any (·.functionLike)) }
  | .absent => {}

def outlineAll : List Tree → List Outline
  | [] => []
  | t :: ts => outline t :: outlineAll ts

end

variable {t t' : Tree} {ts ts' : List Tree} {o : Origin} {k : Kind} {x : String}

theorem outlineAll_eq_map (ts : List Tree) : outlineAll ts = ts.map outline := by
  induction ts with
  | nil => rfl
  | cons t ts ih => rw [outlineAll, ih, List.map_cons]

/-- The outline of a node is made from its kind and the outlines of its children. -/
theorem outline_node (o : Origin) (k : Kind) (ts : List Tree) :
    (node o k ts).outline = Outline.ofKind k (ts.map outline) := by
  rw [outline, outlineAll_eq_map]

theorem outline_list (ts : List Tree) : (list ts).outline = { items := some (ts.any (·.outline.functionLike)) } := by
  rw [outline, outlineAll_eq_map, List.any_map]
  rfl

@[simp] theorem outline_absent : absent.outline = {} := rfl

/-! ## Questions that an outline answers -/

theorem anyFunctionLike_eq_any (ts : List Tree) : anyFunctionLike ts = ts.any isFunctionLike := by
  induction ts with
  | nil => rfl
  | cons t ts ih => rw [anyFunctionLike, ih, List.any_cons]

/-- The outline of a group tells whether one of its items is like a function. -/
theorem outline_items_eq_some {b : Bool} :
    t.outline.items = some b ↔ ∃ ts, t = .list ts ∧ ts.any (·.outline.functionLike) = b := by
  cases t with
  | node o k ts =>
      rw [outline_node, Outline.ofKind.eq_def]
      split <;> simp
  | list ts => simp [outline_list]
  | absent => simp

theorem outline_binding_eq_some : t.outline.binding = some x ↔ ∃ o b ts, t = .pat o (.binding x b) ts := by
  cases t with
  | node o k ts =>
      rw [outline_node, Outline.ofKind.eq_def]
      split <;> simp_all
  | list ts => simp [outline_list]
  | absent => simp

theorem outline_name_eq_some : t.outline.name = some x ↔ ∃ o ts, t = .part o (.name x) ts := by
  cases t with
  | node o k ts =>
      rw [outline_node, Outline.ofKind.eq_def]
      split <;> simp_all
  | list ts => simp [outline_list]
  | absent => simp

/-- The outline tells functions from all else. -/
theorem outline_function : t.outline.function = true ↔ ∃ o a g ts, t = .part o (.function a g) ts := by
  cases t with
  | node o k ts =>
      rw [outline_node, Outline.ofKind.eq_def]
      split <;> simp_all
  | list ts => simp [outline_list]
  | absent => simp

/-- The outline tells what is like a function: a function, or a call that is handed one. -/
theorem outline_functionLike (t : Tree) : t.outline.functionLike = t.isFunctionLike := by
  -- the arguments of a call are two levels below it, so groups have to be in the induction
  have hboth : t.outline.functionLike = t.isFunctionLike ∧
      ∀ ts, t = .list ts → ts.any (·.outline.functionLike) = anyFunctionLike ts := by
    induction t using ind with
    | node o k ts ih =>
        refine ⟨?_, nofun⟩
        rw [outline_node]
        unfold isFunctionLike
        split
        next e heq =>
          cases heq
          exact (ih e (List.mem_singleton.mpr rfl)).1
        next heq =>
          cases heq
          rfl
        next heq =>
          cases heq
          rfl
        next callee args targs heq =>
          cases heq
          rw [← (ih (list args) (by simp)).2 args rfl]
          show ((list args).outline.items == some true) = _
          rw [outline_list]
          simp
        next hparen harrow hfunc hcall =>
          rw [Outline.ofKind.eq_def]
          split
          next hts =>
            obtain ⟨e, rfl, -⟩ := List.map_eq_singleton_iff.mp hts
            exact (hparen _ _ rfl).elim
          next => exact (harrow _ _ _ rfl).elim
          next => exact (hfunc _ _ rfl).elim
          next hts =>
            -- a group that is handed a function would make it a call that is handed one
            refine beq_eq_false_iff_ne.mpr fun hitems => ?_
            obtain ⟨callee, ts₁, rfl, -, h₁⟩ := List.map_eq_cons_iff.mp hts
            obtain ⟨args, ts₂, rfl, rfl, h₂⟩ := List.map_eq_cons_iff.mp h₁
            obtain ⟨targs, rfl, -⟩ := List.map_eq_singleton_iff.mp h₂
            obtain ⟨as, rfl, -⟩ := outline_items_eq_some.mp hitems
            exact (hcall _ _ _ _ rfl).elim
          all_goals rfl
    | list ts ih =>
        refine ⟨rfl, ?_⟩
        rintro _ ⟨⟩
        rw [anyFunctionLike_eq_any]
        rw [Bool.eq_iff_iff, List.any_eq_true, List.any_eq_true]
        exact exists_congr fun t => and_congr_right fun ht => by rw [(ih t ht).1]
    | absent => exact ⟨rfl, nofun⟩
  exact hboth.1

/-- Whether a node declares a component can be told from the outlines of its children. -/
theorem opensScope_node (o : Origin) (k : Kind) (ts : List Tree) :
    (node o k ts).opensScope = Outline.opens k (ts.map outline) := by
  have hcomponent : ∀ {y : Option String}, y.any isComponentName = true ↔ ∃ x, y = some x ∧ isComponentName x = true := by
    intro y
    cases y <;> simp
  rw [Bool.eq_iff_iff]
  constructor
  · intro h
    rw [opensScope, Bool.or_eq_true] at h
    rcases h with h | h
    · unfold isComponentFunction at h
      split at h
      next heq =>
        cases heq
        simpa [Outline.opens, outline_node, Outline.ofKind] using h
      next => cases h
    · unfold declaresComponent at h
      split at h
      next heq =>
        cases heq
        simpa [Outline.opens, outline_node, Outline.ofKind, outline_functionLike] using h
      next => cases h
  · intro h
    unfold Outline.opens at h
    split at h
    next hts =>
      obtain ⟨p, ts₁, rfl, rfl, h₁⟩ := List.map_eq_cons_iff.mp hts
      obtain ⟨e, rfl, rfl⟩ := List.map_eq_singleton_iff.mp h₁
      rw [Bool.and_eq_true, hcomponent] at h
      obtain ⟨⟨x, hx, hname⟩, hlike⟩ := h
      obtain ⟨po, b, pts, rfl⟩ := outline_binding_eq_some.mp hx
      rw [outline_functionLike] at hlike
      simp [opensScope, declaresComponent, hname, hlike]
    next hts =>
      obtain ⟨n, ts₁, rfl, rfl, h₁⟩ := List.map_eq_cons_iff.mp hts
      obtain ⟨f, rfl, rfl⟩ := List.map_eq_singleton_iff.mp h₁
      rw [Bool.and_eq_true, hcomponent] at h
      obtain ⟨⟨x, hx, hname⟩, hfunction⟩ := h
      obtain ⟨no, nts, rfl⟩ := outline_name_eq_some.mp hx
      obtain ⟨fo, a, g, fts, rfl⟩ := outline_function.mp hfunction
      simp [opensScope, isComponentFunction, hname]
    next => cases h

theorem outline_aroundFunction :
    t.outline.aroundFunction = true ↔ ∃ o n fo a g ts, t = .expr o .func [n, .part fo (.function a g) ts] := by
  have hpair : ∀ {ts : List Tree}, Outline.namesFunction (ts.map outline) = true ↔
      ∃ n fo a g fts, ts = [n, .part fo (.function a g) fts] := by
    intro ts
    rcases ts with _ | ⟨n, _ | ⟨f, _ | ⟨u, ts⟩⟩⟩
    · simp [Outline.namesFunction]
    · simp [Outline.namesFunction]
    · simp [Outline.namesFunction, outline_function]
    · simp [Outline.namesFunction]
  cases t with
  | node o k ts =>
      rw [outline_node, Outline.ofKind.eq_def]
      split <;> simp_all
  | list ts => simp [outline_list]
  | absent => simp

/-- Whether a node announces a component can be told from the outlines of its children. -/
theorem announces_node (o : Origin) (k : Kind) (ts : List Tree) :
    (node o k ts).announces = Outline.announces k (ts.map outline) := by
  rw [announces, opensScope_node, Bool.eq_iff_iff]
  constructor
  · intro h
    rw [Bool.or_eq_true, Bool.or_eq_true] at h
    rcases h with (h | h) | h
    · unfold Outline.announces
      split
      next => cases h
      next => cases h
      next => exact h
    · unfold isDefaultFunction at h
      split at h
      next heq =>
        cases heq
        rfl
      next => cases h
    · unfold isDefaultFunctionLike at h
      split at h
      next heq =>
        cases heq
        exact (outline_functionLike _).trans h
      next => cases h
  · intro h
    unfold Outline.announces at h
    split at h
    next hts =>
      obtain ⟨e, rfl, rfl⟩ := List.map_eq_singleton_iff.mp hts
      obtain ⟨eo, n, fo, a, g, fts, rfl⟩ := outline_aroundFunction.mp h
      simp [isDefaultFunction]
    next hts =>
      obtain ⟨e, rfl, rfl⟩ := List.map_eq_singleton_iff.mp hts
      rw [outline_functionLike] at h
      simp [isDefaultFunctionLike, h]
    next => rw [h, Bool.true_or, Bool.true_or]

def isTagged (x : String) (t : Tree) : Bool := t.element?.any fun e => e.tag? == some x

/-- Whether a node is an element with the tag can be told from the outlines of its children. -/
theorem isTagged_node (x : String) (o : Origin) (k : Kind) (ts : List Tree) :
    (node o k ts).isTagged x = Outline.tagged x k (ts.map outline) := by
  have hname : ∀ {n : Tree}, n.outline.name = n.tag? := by
    intro n
    refine Option.ext fun y => ?_
    rw [outline_name_eq_some]
    unfold tag?
    split <;> simp_all
  cases he : (node o k ts).element? with
  | some e =>
      have htree := toTree_of_element? he
      rw [Element.toTree] at htree
      cases htree
      rw [isTagged, he, Option.any_some]
      simp only [List.map_cons, List.map_nil, Outline.tagged, outline_list, hname]
      rfl
  | none =>
      rw [isTagged, he, Option.any_none, eq_comm, ← Bool.not_eq_true]
      intro h
      unfold Outline.tagged at h
      split at h
      next hts =>
        -- two groups in these places make it an element
        obtain ⟨n, as, ta, cs, c, rfl, -, rfl, -, rfl, -⟩ := exists_five_of_map_eq hts
        rw [Bool.and_eq_true, Bool.and_eq_true, Option.isSome_iff_exists, Option.isSome_iff_exists] at h
        obtain ⟨⟨⟨b, hb⟩, b', hb'⟩, -⟩ := h
        obtain ⟨as, rfl, -⟩ := outline_items_eq_some.mp hb
        obtain ⟨cs, rfl, -⟩ := outline_items_eq_some.mp hb'
        cases he
      next => cases h

/-! ## Changes that keep outlines -/

theorem children_withChildren (h : ts'.length = t.children.length) : (t.withChildren ts').children = ts' := by
  cases t with
  | node o k ts => rfl
  | list ts => rfl
  | absent => exact (List.eq_nil_of_length_eq_zero h).symm

/-- The same node around children with the same outlines has the same outline. -/
theorem outline_withChildren (h : ts'.map outline = t.children.map outline) : (t.withChildren ts').outline = t.outline := by
  cases t with
  | node o k ts => rw [withChildren, outline_node, outline_node, h, children_node]
  | list ts =>
      have hany : ts'.any (·.outline.functionLike) = ts.any (·.outline.functionLike) := by
        have := congrArg (List.any · (·.functionLike)) h
        simpa [List.any_map, Function.comp_def] using this
      rw [withChildren, outline_list, outline_list, hany]
  | absent => rfl

/-- A node with other children of the same outlines declares a component if it did before. -/
theorem opensScope_withChildren (h : ts'.map outline = t.children.map outline) :
    (t.withChildren ts').opensScope = t.opensScope := by
  cases t with
  | node o k ts => rw [withChildren, opensScope_node, opensScope_node, h, children_node]
  | list ts => rfl
  | absent => rfl

theorem announces_withChildren (h : ts'.map outline = t.children.map outline) :
    (t.withChildren ts').announces = t.announces := by
  cases t with
  | node o k ts => rw [withChildren, announces_node, announces_node, h, children_node]
  | list ts => rfl
  | absent => rfl

theorem isTagged_withChildren (h : ts'.map outline = t.children.map outline) :
    (t.withChildren ts').isTagged x = t.isTagged x := by
  cases t with
  | node o k ts => rw [withChildren, isTagged_node, isTagged_node, h, children_node]
  | list ts => rfl
  | absent => rfl

/-- Changes that do not show in the outline. -/
def KeepsOutline (t t' : Tree) : Prop := t'.outline = t.outline

theorem map_outline_of_forall₂ (h : List.Forall₂ KeepsOutline ts ts') : ts'.map outline = ts.map outline :=
  map_eq_of_forall₂ h

/-- An outline is kept by every change below that keeps the outlines of the children. -/
theorem keepsOutline_congruence : Congruence KeepsOutline where
  refl _ := rfl
  trans h h' := h'.trans h
  parent h := outline_withChildren (map_outline_of_forall₂ h)

/-- Replacements with the same outline leave the outline of the whole tree as it was. -/
theorem outline_mapDown {f : Tree → Option Tree} (hf : ∀ t t', f t = some t' → t'.outline = t.outline)
    (stop : Tree → Bool) (t : Tree) : (t.mapDown stop f).outline = t.outline :=
  keepsOutline_congruence.mapDown hf stop t

theorem map_outline_mapDown {f : Tree → Option Tree} (hf : ∀ t t', f t = some t' → t'.outline = t.outline)
    (stop : Tree → Bool) (ts : List Tree) : (ts.map (mapDown stop f)).map outline = ts.map outline := by
  rw [List.map_map]
  exact List.map_congr_left fun t _ => outline_mapDown hf stop t

/-! ## Looking for nodes after some were replaced -/

/-- Nothing is found in a tree exactly if it is not looked into, or neither it nor a child
has anything. -/
theorem any_eq_false_iff_child {stop p : Tree → Bool} (hnode : ∀ u, u.isNode = false → stop u = false ∧ p u = false) :
    t.any stop p = false ↔ stop t = true ∨ p t = false ∧ ∀ c ∈ t.children, c.any stop p = false := by
  cases t with
  | node o k ts =>
      rw [any_node_eq_false, children_node]
  | list ts =>
      obtain ⟨hstop, hp⟩ := hnode (list ts) rfl
      rw [any_list_eq_false, children_list, hstop, hp]
      simp
  | absent =>
      obtain ⟨hstop, hp⟩ := hnode absent rfl
      simp [any, hp]

/-- Properties of a node that are told by its kind and by the outlines of its children. -/
def IsOutlined (p : Tree → Bool) : Prop :=
  ∀ (t : Tree) (ts' : List Tree), ts'.map outline = t.children.map outline → p (t.withChildren ts') = p t

theorem isOutlined_opensScope : IsOutlined opensScope := fun _ _ => opensScope_withChildren

theorem isOutlined_isTagged (x : String) : IsOutlined (isTagged x) := fun _ _ => isTagged_withChildren

/-- What is found in changed items was found in the items, or is found in what each of them gives. -/
theorem any_map_iff {g : Tree → Tree} {give : Tree → List Tree} {q q' : Tree → Bool}
    (h : ∀ t ∈ ts, q (g t) = true ↔ q' t = true ∨ ∃ u ∈ give t, q u = true) :
    (ts.map g).any q = true ↔ ts.any q' = true ∨ ∃ u ∈ ts.flatMap give, q u = true := by
  rw [List.any_map, List.any_eq_true, List.any_eq_true]
  simp only [Function.comp_apply, exists_congr fun t => and_congr_right (h t), List.mem_flatMap]
  constructor
  · rintro ⟨t, ht, hq | ⟨u, hu, hq⟩⟩
    · exact .inl ⟨t, ht, hq⟩
    · exact .inr ⟨u, ⟨t, ht, hu⟩, hq⟩
  · rintro (⟨t, ht, hq⟩ | ⟨u, ⟨t, ht, hu⟩, hq⟩)
    · exact ⟨t, ht, .inl hq⟩
    · exact ⟨t, ht, .inr ⟨u, hu, hq⟩⟩

/-- A traversal of a tree in which nodes were replaced finds what it found beside them before, and what it finds
in the nodes that were put in, if it finds the nodes that stay where it found them. -/
theorem any_mapDown_of_kept {f : Tree → Option Tree} (hf : ∀ t t', f t = some t' → t'.outline = t.outline)
    {p : Tree → Bool} (hp : ∀ t, t.opensScope = false → f t = none → p (t.mapDown opensScope f) = p t) (t : Tree) :
    (t.mapDown opensScope f).any opensScope p = true ↔
      t.any (fun u => u.opensScope || (f u).isSome) p = true ∨ ∃ u ∈ t.outermost opensScope f, u.any opensScope p = true := by
  induction t using ind with
  | node o k ts ih =>
      by_cases hs : (node o k ts).opensScope = true
      · simp [mapDown_node, any_node, outermost_node, hs]
      · rw [any_node, outermost_node, mapDown_node, if_neg hs, if_neg hs]
        cases hfu : f (node o k ts) with
        | some u => simp
        | none =>
            have hopens : (node o k (ts.map (mapDown opensScope f))).opensScope = (node o k ts).opensScope :=
              isOutlined_opensScope (node o k ts) _ (map_outline_mapDown hf opensScope ts)
            have hhere : p (node o k (ts.map (mapDown opensScope f))) = p (node o k ts) := by
              have hkept := hp (node o k ts) ((Bool.not_eq_true _).mp hs) hfu
              rw [mapDown_node, if_neg hs, hfu] at hkept
              exact hkept
            rw [Option.getD_none, any_node, hopens, hhere, (Bool.not_eq_true _).mp hs]
            simp only [Bool.not_false, Bool.true_and, Option.isSome_none, Bool.or_false, Bool.or_eq_true, or_assoc,
              Option.elim_none]
            exact or_congr_right (any_map_iff ih)
  | list ts ih =>
      rw [mapDown_list, any_list, any_list, outermost_list]
      exact any_map_iff ih
  | absent => simp [mapDown, any, outermost]

/-- Nodes that are told by the outlines of their children are found where they were found before. -/
theorem any_mapDown {f : Tree → Option Tree} (hf : ∀ t t', f t = some t' → t'.outline = t.outline) {p : Tree → Bool}
    (hp : IsOutlined p) (t : Tree) :
    (t.mapDown opensScope f).any opensScope p = true ↔
      t.any (fun u => u.opensScope || (f u).isSome) p = true ∨ ∃ u ∈ t.outermost opensScope f, u.any opensScope p = true := by
  refine any_mapDown_of_kept hf (fun t hs hnone => ?_) t
  cases t with
  | node o k ts =>
      rw [mapDown_node, if_neg (by simp [hs]), hnone]
      exact hp (node o k ts) _ (map_outline_mapDown hf opensScope ts)
  | list ts =>
      rw [mapDown_list]
      exact hp (list ts) _ (map_outline_mapDown hf opensScope ts)
  | absent => rfl

end Tree

end FormCodemod
