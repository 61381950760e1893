import FormCodemod.Proofs.Names.Made

/-!
# Names in elements

An element is clear if it is not one that must not occur and its parts are clear (`Tree.clear_element`);
what it says by its attributes is clear then, too (`Tree.Clear.value`). Whether the symbol may be
the tag of an element matters only where it is one (`Tree.hits_of_lax`).
-/

namespace FormCodemod

namespace Tree

variable {w : Watch}

def bansElement (w : Watch) (e : Element) : Bool :=
  w.tag.any (e.tag? == some ·) && w.attr.all fun x => (Attrs.find? x e.attrs).isSome

/-- The attributes' faces tell whether there is an attribute of the name. -/
theorem contains_attr {x : String} {attrs : List Tree} :
    (attrs.map fun a => a.face.attr).contains (some x) = (Attrs.find? x attrs).isSome := by
  rw [Bool.eq_iff_iff, List.contains_iff_mem, List.mem_map, Attrs.find?, List.find?_isSome]
  simp only [attr_face, beq_iff_eq]

/-- Whether an element is banned, by its parts. -/
theorem bans_toTree (w : Watch) (e : Element) :
    w.bans (.markup (.element e.selfClosing e.asValue))
      ([e.name, .list e.attrs, e.typeArgs, .list e.children, e.closing].map face) = bansElement w e := by
  simp only [List.map_cons, List.map_nil, Watch.bans, face_list, Option.isSome_some, Bool.true_and, bansElement,
    Element.tag?, tag_face, Option.any_some, contains_attr]

theorem eq_list_of_face {t : Tree} (h : t.face.attrs.isSome = true) : ∃ ts, t = .list ts := by
  cases t with
  | node o k ts =>
      rw [face_node, Face.ofKind.eq_def] at h
      split at h <;> cases h
  | list ts => exact ⟨ts, rfl⟩
  | absent => cases h

/-- An element is told by the faces of its children. -/
theorem exists_of_faces {ts : List Tree} {name attrs targs children closing : Face}
    (h : ts.map face = [name, attrs, targs, children, closing]) (hattrs : attrs.attrs.isSome = true)
    (hchildren : children.attrs.isSome = true) :
    ∃ n as ta cs c, ts = [n, .list as, ta, .list cs, c] ∧ n.face = name := by
  obtain ⟨n, a, ta, ch, c, rfl, rfl, rfl, -, rfl, -⟩ := exists_five_of_map_eq h
  obtain ⟨as, rfl⟩ := eq_list_of_face hattrs
  obtain ⟨cs, rfl⟩ := eq_list_of_face hchildren
  exact ⟨n, as, ta, cs, c, rfl, rfl⟩

/-- Only elements are banned. -/
theorem exists_of_bans {o : Origin} {k : Kind} {ts : List Tree} (h : w.bans k (ts.map face) = true) :
    ∃ e, (node o k ts).element? = some e ∧ bansElement w e = true := by
  have hbans := h
  unfold Watch.bans at hbans
  split at hbans
  · next heq =>
      simp only [Bool.and_eq_true] at hbans
      obtain ⟨n, as, ta, cs, c, rfl, -⟩ := exists_of_faces heq hbans.1.1.1 hbans.1.1.2
      exact ⟨_, rfl, (bans_toTree w _).symm.trans h⟩
  · cases hbans

/-- An element shows the symbol by its name or type arguments, unless it may be the tag. -/
theorem holds_toTree (w : Watch) (e : Element) :
    w.holds (.markup (.element e.selfClosing e.asValue))
        ([e.name, .list e.attrs, e.typeArgs, .list e.children, e.closing].map face) =
      if w.asTag && e.tag? == some w.symbol then w.shows [e.typeArgs.face]
      else w.shows [e.name.face, e.typeArgs.face, e.closing.face] := by
  simp [Watch.holds, Watch.shows, face_list, Element.tag?, tag_face]

/-- The parts of an element, whether or not the symbol may be its tag. -/
theorem Free.element {e : Element} (h : e.toTree.Free w) :
    bansElement w e = false ∧ (∀ a ∈ e.attrs, a.Clear w) ∧ e.typeArgs.Clear w ∧ ∀ c ∈ e.children, c.Clear w := by
  have hhits := h.hits
  rw [Element.toTree, Watch.hits, bans_toTree, holds_toTree] at hhits
  simp only [Bool.or_eq_false_iff] at hhits
  have htargs : e.typeArgs.face.tag ≠ some w.symbol := by
    have hholds := hhits.2
    split at hholds
    · simpa [Watch.shows] using hholds
    · simp [Watch.shows] at hholds
      exact hholds.2.1
  have hlist : ∀ {ts : List Tree}, list ts ∈ e.toTree.children → ∀ t ∈ ts, t.Clear w := by
    intro ts hts
    exact clear_children.mp (free_iff.mp (h.child hts))
  refine ⟨hhits.1.2, hlist ?_, ⟨h.child ?_, htargs⟩, hlist ?_⟩ <;> simp [Element.toTree]

/-- An element is clear if its parts are, and if it is none of the banned ones. -/
theorem clear_element {e : Element} (hbans : bansElement w e = false) (hattrs : ∀ a ∈ e.attrs, a.Clear w)
    (htargs : e.typeArgs.Clear w) (hchildren : ∀ c ∈ e.children, c.Clear w)
    (hname : e.name.Clear w ∧ e.closing.Clear w ∨
      w.asTag = true ∧ e.tag? = some w.symbol ∧ e.name.Free w ∧ e.closing.Free w) : e.toTree.Clear w := by
  have hfree : e.name.Free w ∧ e.closing.Free w := by
    rcases hname with h | ⟨-, -, h⟩
    · exact ⟨h.1.free, h.2.free⟩
    · exact h
  refine (free_iff.mpr ⟨?_, ?_⟩).clear (face_node ..)
  · rw [Element.toTree, Watch.hits, bans_toTree, holds_toTree, hbans]
    rcases hname with h | ⟨htag, hsymbol, -⟩
    · simp [Watch.spells, Watch.asks, Watch.shows, htargs.tag, h.1.tag, h.2.tag]
    · simp [Watch.spells, Watch.asks, Watch.shows, htargs.tag, htag, hsymbol]
  · intro c hc
    simp only [Element.toTree, children_node, List.mem_cons, List.not_mem_nil, or_false] at hc
    rcases hc with rfl | rfl | rfl | rfl | rfl
    · exact hfree.1
    · exact (clear_list.mpr hattrs).free
    · exact htargs.free
    · exact (clear_list.mpr hchildren).free
    · exact hfree.2

/-- An element, where the symbol may not be a tag either. -/
theorem clear_toTree (hw : w.asTag = false) {e : Element} :
    e.toTree.Clear w ↔ bansElement w e = false ∧ e.name.Clear w ∧ (∀ a ∈ e.attrs, a.Clear w) ∧
      e.typeArgs.Clear w ∧ (∀ c ∈ e.children, c.Clear w) ∧ e.closing.Clear w := by
  constructor
  · intro h
    obtain ⟨hbans, hattrs, htargs, hchildren⟩ := h.free.element
    have hname : e.name.Clear w := h.free.clear_child hw (by simp [Element.toTree])
    have hclosing : e.closing.Clear w := h.free.clear_child hw (by simp [Element.toTree])
    exact ⟨hbans, hname, hattrs, htargs, hchildren, hclosing⟩
  · rintro ⟨hbans, hname, hattrs, htargs, hchildren, hclosing⟩
    exact clear_element hbans hattrs htargs hchildren (.inl ⟨hname, hclosing⟩)

/-! ### Symbols as tags -/

/-- What does not hold the symbol at all does not hold it elsewhere than in tags. -/
theorem Clear.lax (hw : w.asTag = false) {t : Tree} (h : t.Clear w) : t.Clear w.lax := by
  refine ⟨fun p u hu => ?_, h.tag⟩
  have hhits := h.free p u hu
  cases u with
  | node o k ts =>
      rw [Watch.hits, Watch.holds_eq_shows hw, Bool.or_eq_false_iff] at hhits
      show w.lax.hits (node o k ts) = false
      rw [Watch.hits, Bool.or_eq_false_iff]
      exact ⟨hhits.1, Watch.holds_of_shows hhits.2⟩
  | list ts => exact hhits
  | absent => rfl

/-- Where the symbol is not the tag of an element, it does not matter whether it may be one. -/
theorem hits_of_lax (hw : w.asTag = false) {t : Tree} (h : w.lax.hits t = false)
    (htag : ∀ e, t.element? = some e → e.tag? ≠ some w.symbol) : w.hits t = false := by
  cases t with
  | node o k ts =>
      rw [Watch.hits, Bool.or_eq_false_iff] at h ⊢
      refine ⟨h.1, ?_⟩
      rw [Watch.holds_eq_shows hw]
      have hholds := h.2
      unfold Watch.holds at hholds
      split at hholds
      · next heq =>
          rw [heq]
          split at hholds
          · next hcond =>
              -- the node is an element with the symbol for its tag after all
              simp only [Bool.and_eq_true, beq_iff_eq] at hcond
              obtain ⟨⟨⟨-, hattrs⟩, hchildren⟩, hsymbol⟩ := hcond
              obtain ⟨name, as, targs, cs, closing, rfl, rfl⟩ := exists_of_faces heq hattrs hchildren
              refine absurd ?_ (htag _ rfl)
              rw [Element.tag?, ← tag_face]
              exact hsymbol
          · exact hholds
      · exact hholds
  | list ts => exact h
  | absent => rfl

/-! ### Attributes -/

variable {a t e : Tree}

theorem face_element {e : Element} : e.toTree.face = {} := face_node ..

theorem Clear.attrValue (h : a.Clear w) : a.attrValue.Clear w := by
  unfold Tree.attrValue
  split
  · exact (clear_attr.mp h).2 _ (by simp)
  · exact clear_absent

theorem bans_asValue (s b b' : Bool) (fs : List Face) :
    w.bans (.markup (.element s b)) fs = w.bans (.markup (.element s b')) fs := by
  unfold Watch.bans
  split
  · rfl
  · next h =>
      split
      · exact absurd rfl (h _ _ _ _ _ _ _ rfl)
      · rfl

theorem holds_asValue (s b b' : Bool) (fs : List Face) :
    w.holds (.markup (.element s b)) fs = w.holds (.markup (.element s b')) fs := by
  unfold Watch.holds
  split
  · rfl
  · next h =>
      split
      · exact absurd rfl (h _ _ _ _ _ _ _ rfl)
      · rfl

/-- Whether an element stands as a value or as an expression does not matter. -/
theorem hits_asExpr (t : Tree) : w.hits t.asExpr = w.hits t := by
  unfold Tree.asExpr
  split
  · next o s b ts =>
      rw [Watch.hits, Watch.hits, bans_asValue s false b, holds_asValue s false b]
      rfl
  · rfl

theorem Clear.asExpr (h : t.Clear w) : t.asExpr.Clear w := by
  refine ⟨free_iff.mpr ⟨(hits_asExpr t).trans h.free.hits, ?_⟩, ?_⟩
  · intro c hc
    refine h.free.child ?_
    unfold Tree.asExpr at hc
    split at hc
    · exact hc
    · exact hc
  · unfold Tree.asExpr
    split
    · exact nofun
    · exact h.tag

theorem Clear.ofAttr (h : a.Clear w) (he : AttrValue.ofAttr a = .expr e) : e.Clear w := by
  have hvalue := h.attrValue
  unfold AttrValue.ofAttr at he
  split at he
  · cases he
  · cases he
  · cases he
  · next heq =>
      rw [heq] at hvalue
      split at he
      · cases he
      · cases he
        simpa using hvalue
  · cases he
    exact hvalue.asExpr

/-- What attributes say as an expression. -/
theorem Clear.value {attrs : List Tree} {x : String} (h : ∀ a ∈ attrs, a.Clear w)
    (he : (Attrs.value x attrs).toExpr? = some e) : e.Clear w := by
  unfold Attrs.value at he
  cases hfind : Attrs.find? x attrs with
  | none =>
      rw [hfind] at he
      cases he
  | some a =>
      rw [hfind, Option.map_some, Option.getD_some] at he
      have ha : a.Clear w := h a (List.mem_of_find?_eq_some hfind)
      cases hattr : AttrValue.ofAttr a with
      | literal s =>
          rw [hattr] at he
          cases he
          exact Make.clear_str
      | expr e' =>
          rw [hattr] at he
          cases he
          exact ha.ofAttr hattr
      | bare =>
          rw [hattr] at he
          cases he
          exact Make.clear_bool
      | absent =>
          rw [hattr] at he
          cases he

/-! ### Made elements -/

theorem free_name (x : String) : (Make.name x).Free w := free_iff.mpr ⟨rfl, nofun⟩

/-- A made element, taken apart again. -/
theorem exists_element_eq (tag : String) (attrs children : List Tree) :
    ∃ e : Element, Make.element tag attrs children = e.toTree ∧ e.name = Make.name tag ∧ e.attrs = attrs ∧
      e.typeArgs = .absent ∧ e.children = children ∧ (e.closing = .absent ∨ e.closing = Make.name tag) := by
  unfold Make.element
  split
  · next h =>
      obtain rfl := List.isEmpty_iff.mp h
      exact ⟨⟨.made, false, true, Make.name tag, attrs, .absent, [], .absent⟩, rfl, rfl, rfl, rfl, rfl, .inl rfl⟩
  · exact ⟨⟨.made, false, false, Make.name tag, attrs, .absent, children, Make.name tag⟩, rfl, rfl, rfl, rfl, rfl,
      .inr rfl⟩

/-- A made element is clear if its parts are, its tag is not the symbol or may be, and it is
not banned. -/
theorem clear_made_element {tag : String} {attrs children : List Tree}
    (htag : tag ≠ w.symbol ∨ tag = w.symbol ∧ w.asTag = true)
    (hbans : w.tag ≠ some tag ∨ ∃ x, w.attr = some x ∧ Attrs.find? x attrs = none)
    (hattrs : ∀ a ∈ attrs, a.Clear w) (hchildren : ∀ c ∈ children, c.Clear w) :
    (Make.element tag attrs children).Clear w := by
  obtain ⟨e, heq, hname, rfl, htargs, rfl, hclosing⟩ := exists_element_eq tag attrs children
  have htag? : e.tag? = some tag := by rw [Element.tag?, hname]; rfl
  rw [heq]
  refine clear_element ?_ hattrs (htargs ▸ clear_absent) hchildren ?_
  · -- it is not banned: it has another tag, or lacks the attribute
    rw [bansElement, htag?]
    rcases hbans with hne | ⟨x, hx, hfind⟩
    · have hnone : w.tag.any (some tag == some ·) = false := by
        cases hw : w.tag with
        | none => rfl
        | some y =>
            rw [hw] at hne
            simpa using fun h => hne (congrArg some h.symm)
      rw [hnone, Bool.false_and]
    · simp [hx, hfind]
  · -- its name stands in front and, unless it closes itself, at the end
    rw [hname]
    rcases htag with hne | ⟨rfl, hlax⟩
    · refine .inl ⟨Make.clear_name.mpr hne, ?_⟩
      rcases hclosing with h | h
      · exact h ▸ clear_absent
      · exact h ▸ Make.clear_name.mpr hne
    · refine .inr ⟨hlax, htag?, free_name _, ?_⟩
      rcases hclosing with h | h
      · exact h ▸ clear_absent.free
      · exact h ▸ free_name _

end Tree

end FormCodemod
