import FormCodemod.Proofs.Tree.Places
import FormCodemod.Scope.Usage

/-!
# Names that a scope refers to

Uses are looked for everywhere in a scope but in the attributes that are left out, and in the type arguments of the elements
they belong to (`Tree.LeftOut`). A variable at any other place of the scope is among them (`refers`).
-/

namespace FormCodemod.Tree

variable {s : Skip} {t : Tree} {q : Place} {x : String}

/-- The place is in an attribute that is left out, or in the type arguments of an element with such attributes. -/
def LeftOut (s : Skip) (t : Tree) (q : Place) : Prop :=
  ∃ above e, t.at? above = some e.toTree ∧ s.wired e = true ∧
    ((∃ i a below, q = above ++ 1 :: i :: below ∧ e.attrs[i]? = some a ∧ s.strip a = true) ∨
      ∃ below, q = above ++ 2 :: below)

/-- What is left out of a child is left out of its parent. -/
theorem LeftOut.parent {c : Tree} {i : Nat} (hc : t.children[i]? = some c) (h : c.LeftOut s q) : t.LeftOut s (i :: q) := by
  obtain ⟨above, e, he, hwired, hq⟩ := h
  refine ⟨i :: above, e, at?_cons_eq_some.mpr ⟨c, hc, he⟩, hwired, ?_⟩
  rcases hq with ⟨j, a, below, rfl, ha, hstrip⟩ | ⟨below, rfl⟩
  · exact .inl ⟨j, a, below, rfl, ha, hstrip⟩
  · exact .inr ⟨below, rfl⟩

theorem allUsesWith_eq_flatMap (s : Skip) (ts : List Tree) : allUsesWith s ts = ts.flatMap (usesWith s) := by
  induction ts with
  | nil => rfl
  | cons t ts ih => rw [allUsesWith, ih, List.flatMap_cons]

theorem usesKept_eq_flatMap (s : Skip) (ts : List Tree) :
    usesKept s ts = (ts.filter fun t => !s.strip t).flatMap (usesWith s) := by
  induction ts with
  | nil => rfl
  | cons t ts ih =>
      rw [usesKept, ih, List.filter_cons]
      cases s.strip t <;> simp

/-- The uses of a wired element are those of its parts, without the attributes that are left
out. -/
theorem usesWith_of_wired {e : Element} (h : s.wired e = true) :
    e.toTree.usesWith s =
      e.name.usesWith s ++ usesKept s e.attrs ++ allUsesWith s e.children ++ e.closing.usesWith s := by
  rw [Element.toTree, usesWith, if_neg (by exact Bool.false_ne_true)]
  exact if_pos h

/-- The uses of a child are uses of the parent, unless that is an element with attributes that are left out. -/
theorem mem_usesWith_of_child {use : Use} {o : Origin} {k : Kind} {ts : List Tree} {c : Tree} (hc : c ∈ ts)
    (hopens : (node o k ts).opensScope = false) (hno : ∀ e : Element, node o k ts = e.toTree → s.wired e = false)
    (h : use ∈ c.usesWith s) : use ∈ (node o k ts).usesWith s := by
  rw [usesWith.eq_def]
  simp only [hopens, Bool.false_eq_true, if_false]
  split
  next =>
    rw [if_neg (by rw [hno ⟨_, _, _, _, _, _, _, _⟩ rfl]; exact Bool.false_ne_true)]
    simp only [List.mem_cons, List.not_mem_nil, or_false] at hc
    simp only [List.mem_append]
    rcases hc with rfl | rfl | rfl | rfl | rfl
    · exact .inl (.inl (.inl (.inl h)))
    · exact .inl (.inl (.inl (.inr h)))
    · exact .inl (.inl (.inr h))
    · exact .inl (.inr h)
    · exact .inr h
  next =>
    rw [allUsesWith_eq_flatMap]
    exact List.mem_append_right _ (List.mem_flatMap.mpr ⟨c, hc, h⟩)

/-- The variable is among the uses of the tree wherever it stands and is not left out. -/
def Refers (s : Skip) (x : String) (t : Tree) : Prop :=
  ∀ q o us, t.reaches opensScope q = true → t.at? q = some (.expr o (.ident x) us) → ¬ t.LeftOut s q →
    .ref x ∈ t.usesWith s

/-- An element with attributes that are left out refers to what its parts refer to. -/
theorem refers_of_wired {e : Element} (hwired : s.wired e = true) (hname : e.name.Refers s x)
    (hattrs : ∀ a ∈ e.attrs, a.Refers s x) (hchildren : (Tree.list e.children).Refers s x)
    (hclosing : e.closing.Refers s x) : e.toTree.Refers s x := by
  intro q o us hr hq hno
  rw [usesWith_of_wired hwired]
  simp only [List.mem_append]
  cases q with
  | nil => cases hq
  | cons i p =>
      obtain ⟨-, c, hc, hr⟩ := reaches_cons.mp hr
      rw [at?_cons_of_some hc] at hq
      -- the parts of an element by number: name, attributes, type arguments, children and closing name
      have hkept : ¬ c.LeftOut s p := fun h => hno (h.parent hc)
      match i, hc with
      | 0, hc =>
          cases hc
          exact .inl (.inl (.inl (hname p o us hr hq hkept)))
      | 1, hc =>
          cases hc
          cases p with
          | nil => cases hq
          | cons j p =>
              obtain ⟨-, a, ha, hr⟩ := reaches_cons.mp hr
              rw [at?_cons_of_some ha] at hq
              have hstrip : s.strip a = false := by
                rw [← Bool.not_eq_true]
                exact fun h => hno ⟨[], e, rfl, hwired, .inl ⟨j, a, p, rfl, ha, h⟩⟩
              have hmem : a ∈ e.attrs := List.mem_of_getElem? ha
              refine .inl (.inl (.inr ?_))
              rw [usesKept_eq_flatMap]
              exact List.mem_flatMap.mpr ⟨a, List.mem_filter.mpr ⟨hmem, by simp [hstrip]⟩,
                hattrs a hmem p o us hr hq fun h => hkept (h.parent ha)⟩
      | 2, hc => exact absurd ⟨[], e, rfl, hwired, .inr ⟨p, rfl⟩⟩ hno
      | 3, hc =>
          cases hc
          exact .inl (.inr (hchildren p o us hr hq hkept))
      | 4, hc =>
          cases hc
          exact .inr (hclosing p o us hr hq hkept)

/-- No variable that a traversal comes to is missing from the uses, unless it is left out on purpose. -/
theorem refers (s : Skip) (x : String) (t : Tree) : t.Refers s x := by
  -- the attributes of an element are two levels below it, so groups have to be in the induction
  suffices hboth : t.Refers s x ∧ ∀ ts, t = .list ts → ∀ c ∈ ts, c.Refers s x from hboth.1
  induction t using ind with
  | node o k ts ih =>
      refine ⟨?_, nofun⟩
      by_cases he : ∃ e : Element, node o k ts = e.toTree ∧ s.wired e = true
      · obtain ⟨e, htree, hwired⟩ := he
        cases htree
        exact refers_of_wired hwired (ih _ (by simp)).1 ((ih (.list e.attrs) (by simp)).2 _ rfl)
          (ih (.list e.children) (by simp)).1 (ih _ (by simp)).1
      · intro q o' us hr hq hno
        cases q with
        | nil =>
            cases hq
            rw [usesWith, if_neg (by simp [reaches_nil.mp hr])]
            · exact List.mem_append_left _ (List.mem_singleton.mpr rfl)
            · rintro _ _ _ _ _ _ _ _ ⟨⟩
        | cons i p =>
            obtain ⟨hopens, c, hc, hr⟩ := reaches_cons.mp hr
            rw [at?_cons_of_some hc] at hq
            have hmem := List.mem_of_getElem? hc
            refine mem_usesWith_of_child hmem hopens (fun e htree => ?_) ?_
            · exact (Bool.not_eq_true _).mp fun hwired => he ⟨e, htree, hwired⟩
            · exact (ih c hmem).1 p o' us hr hq fun h => hno (h.parent hc)
  | list ts ih =>
      refine ⟨?_, fun ts' hts c hc => by cases hts; exact (ih c hc).1⟩
      intro q o us hr hq hno
      cases q with
      | nil => cases hq
      | cons i p =>
          obtain ⟨-, c, hc, hr⟩ := reaches_cons.mp hr
          rw [at?_cons_of_some hc] at hq
          have hmem := List.mem_of_getElem? hc
          rw [usesWith, allUsesWith_eq_flatMap]
          exact List.mem_flatMap.mpr ⟨c, hmem, (ih c hmem).1 p o us hr hq fun h => hno (h.parent hc)⟩
  | absent =>
      refine ⟨?_, nofun⟩
      intro q o us _ hq
      cases q with
      | nil => cases hq
      | cons i p => cases hq

end FormCodemod.Tree
