import Mathlib.Data.List.Forall2
import FormCodemod.Proofs.Tree.Alike
import FormCodemod.Proofs.Tree.Congruence
import FormCodemod.Proofs.Tree.Face
import FormCodemod.Tree.Make

/-!
# Names that do not occur

A `Watch` says what must not occur in a tree: a name, as a use, a binding or a tag that an attribute
asks for, and possibly certain elements. `Tree.Free` is a tree in which none of it occurs, and
`Tree.Clear` one that may moreover stand anywhere as a child.

Whether a node is hit depends on its kind and on the faces of its children. So a change below a node
that keeps faces (`Tree.Keeps`) does not matter to the node, and a rule that keeps a node may be
applied all over a tree: `Keeps.mapDown`, `Keeps.mapUp`.
-/

namespace FormCodemod

/-- What must not occur. -/
structure Watch where
  /-- A name that must not be used, bound or asked for. -/
  symbol : String
  /-- The tag of elements that must not occur. -/
  tag : Option String := none
  /-- Of the elements with that tag, only those with this attribute are meant. -/
  attr : Option String := none
  /-- The symbol may be the tag of an element. -/
  asTag : Bool := false

namespace Watch

variable (w : Watch)

def spells : Kind → Bool
  | .expr (.ident x) => x == w.symbol
  | .pat (.binding x _) => x == w.symbol
  | _ => false

/-- The node is an attribute that asks for the symbol as a tag. -/
def asks : Kind → List Face → Bool
  | .markup .attr, [name, value] =>
      (name.key == some "as" || name.key == some "component") && value.literal == some w.symbol
  | _, _ => false

/-- The node is an element that must not occur. -/
def bans : Kind → List Face → Bool
  | .markup (.element _ _), [name, attrs, _, children, _] =>
      attrs.attrs.isSome && children.attrs.isSome && w.tag.any (name.tag == some ·) &&
        w.attr.all fun x => attrs.attrs.any (·.contains (some x))
  | _, _ => false

def shows (fs : List Face) : Bool := fs.any (·.tag == some w.symbol)

def holds : Kind → List Face → Bool
  | .markup (.element _ _), [name, attrs, targs, children, closing] =>
      -- lists have no tags, so only the type arguments are left to look at
      if w.asTag && attrs.attrs.isSome && children.attrs.isSome && name.tag == some w.symbol then
        w.shows [targs]
      else w.shows [name, attrs, targs, children, closing]
  | _, fs => w.shows fs

/-- Whether something that must not occur does so at the node. -/
def hits : Tree → Bool
  | .node _ k ts =>
      w.spells k || w.asks k (ts.map Tree.face) || w.bans k (ts.map Tree.face) || w.holds k (ts.map Tree.face)
  | .list ts => w.shows (ts.map Tree.face)
  | .absent => false

/-- The same, but the symbol may be a tag. -/
def lax : Watch := { w with asTag := true }

variable {w} {k : Kind} {fs : List Face}

/-- Where the symbol may not be a tag, an element is like any other node. -/
theorem holds_eq_shows (hw : w.asTag = false) : w.holds k fs = w.shows fs := by
  unfold holds
  split
  · rw [hw, Bool.false_and, Bool.false_and, Bool.false_and, if_neg Bool.false_ne_true]
  · rfl

theorem holds_of_shows (h : w.shows fs = false) : w.holds k fs = false := by
  unfold holds
  split
  · split
    · simp [shows] at h ⊢
      exact h.2.2.1
    · exact h
  · exact h

end Watch

namespace Tree

variable {w : Watch} {t t' t'' : Tree}

/-- Nothing that must not occur does so in the tree. -/
def Free (w : Watch) (t : Tree) : Prop := t.Everywhere fun u => w.hits u = false

/-- The same, and the tree itself is not the symbol. -/
structure Clear (w : Watch) (t : Tree) : Prop where
  free : t.Free w
  tag : t.face.tag ≠ some w.symbol

/-- A tree that looks like nothing is not the symbol. -/
theorem Free.clear (h : t.Free w) (hface : t.face = {}) : t.Clear w := ⟨h, by simp [hface]⟩

/-- A tree is free if nothing is hit at its top and its children are free. -/
theorem free_iff : t.Free w ↔ w.hits t = false ∧ ∀ c ∈ t.children, c.Free w := everywhere_iff

theorem Free.hits (h : t.Free w) : w.hits t = false := h.here

theorem Free.child (h : t.Free w) {c : Tree} (hc : c ∈ t.children) : c.Free w := Everywhere.child h hc

/-- What is hit does not change if the children keep their faces. -/
theorem hits_withChildren {ts' : List Tree} (h : ts'.map face = t.children.map face) :
    w.hits (t.withChildren ts') = w.hits t := by
  cases t with
  | node o k ts =>
      show w.hits (node o k ts') = w.hits (node o k ts)
      rw [Watch.hits, h]
      rfl
  | list ts =>
      show w.shows _ = w.shows _
      rw [h]
      rfl
  | absent => rfl

/-! ## Changes that keep a tree free -/

/-- The second tree is free and looks like the first one. -/
structure Keeps (w : Watch) (t t' : Tree) : Prop where
  free : t'.Free w
  face : t'.face = t.face

namespace Keeps

theorem refl (h : t.Free w) : Keeps w t t := ⟨h, rfl⟩

theorem trans (h : Keeps w t t') (h' : Keeps w t' t'') : Keeps w t t'' := ⟨h'.free, h'.face.trans h.face⟩

theorem clear (h : Keeps w t t') (ht : t.Clear w) : t'.Clear w := ⟨h.free, h.face ▸ ht.tag⟩

/-- A change of the children that keeps each of them. -/
theorem parent {ts' : List Tree} (ht : t.Free w) (h : List.Forall₂ (Keeps w) t.children ts') :
    Keeps w t (t.withChildren ts') := by
  have hfaces : ts'.map Tree.face = t.children.map Tree.face := map_eq_of_forall₂ (h.imp fun _ _ h => h.face)
  refine ⟨free_iff.mpr ⟨(hits_withChildren hfaces).trans ht.hits, ?_⟩, face_withChildren hfaces⟩
  intro c hc
  cases t with
  | node o k ts =>
      obtain ⟨u, -, hu⟩ := forall₂_exists_left h hc
      exact hu.free
  | list ts =>
      obtain ⟨u, -, hu⟩ := forall₂_exists_left h hc
      exact hu.free
  | absent => cases hc

/-- A node is kept if its children are. -/
theorem congruence (w : Watch) : Congruence fun t t' => t.Free w → Keeps w t t' where
  refl _ := refl
  trans h h' ht := (h ht).trans (h' (h ht).free)
  parent h ht := parent ht (forall₂_imp_of_mem h fun _ hc _ hR => hR (ht.child hc))

/-- A rule that keeps each node may be applied all over a tree, children first. -/
theorem mapUp {f : Tree → Tree} (hf : ∀ t : Tree, t.Free w → Keeps w t (f t)) (stop : Tree → Bool) (ht : t.Free w) :
    Keeps w t (t.mapUp stop f) :=
  (congruence w).mapUp hf stop t ht

/-- Replacements that keep what they replace may be made all over a tree. -/
theorem mapDown {f : Tree → Option Tree} (hf : ∀ t t' : Tree, t.Free w → f t = some t' → Keeps w t t')
    (stop : Tree → Bool) (ht : t.Free w) : Keeps w t (t.mapDown stop f) :=
  (congruence w).mapDown (fun t t' h ht => hf t t' ht h) stop t ht

end Keeps

end Tree

/-! ## Clear nodes, kind by kind -/

/-- Kinds of nodes that are neither a name nor an attribute or element. -/
@[simp, reducible] def Kind.isPlain : Kind → Bool
  | .expr (.ident _) => false
  | .pat (.binding _ _) => false
  | .part (.name _) => false
  | .markup .attr => false
  | .markup (.element _ _) => false
  | _ => true

namespace Tree

variable {w : Watch} {o : Origin} {k : Kind} {ts : List Tree}

theorem shows_eq_false : w.shows (ts.map face) = false ↔ ∀ t ∈ ts, t.face.tag ≠ some w.symbol := by
  simp [Watch.shows]

/-- Children that are clear, one by one. -/
theorem clear_children : (w.shows (ts.map face) = false ∧ ∀ t ∈ ts, t.Free w) ↔ ∀ t ∈ ts, t.Clear w := by
  rw [shows_eq_false]
  constructor
  · rintro ⟨htag, hfree⟩ t ht
    exact ⟨hfree t ht, htag t ht⟩
  · intro h
    exact ⟨fun t ht => (h t ht).tag, fun t ht => (h t ht).free⟩

@[simp] theorem clear_list : (list ts).Clear w ↔ ∀ t ∈ ts, t.Clear w := by
  rw [← clear_children]
  constructor
  · intro h
    exact free_iff.mp h.free
  · intro h
    exact ⟨free_iff.mpr h, by simp [face_list]⟩

@[simp] theorem clear_absent : absent.Clear w := by
  refine ⟨free_iff.mpr ⟨rfl, ?_⟩, by simp⟩
  intro c hc
  cases hc

/-- A node of a kind for which children are only looked at one by one. -/
theorem clear_node_iff (hbans : w.bans k (ts.map face) = false)
    (hholds : w.holds k (ts.map face) = w.shows (ts.map face)) :
    (node o k ts).Clear w ↔ (Face.ofKind k (ts.map face)).tag ≠ some w.symbol ∧ w.spells k = false ∧
      w.asks k (ts.map face) = false ∧ ∀ t ∈ ts, t.Clear w := by
  rw [← clear_children]
  constructor
  · rintro ⟨hfree, htag⟩
    obtain ⟨hhits, hts⟩ := free_iff.mp hfree
    rw [Watch.hits, hbans, hholds] at hhits
    simp only [Bool.or_eq_false_iff] at hhits
    rw [face_node] at htag
    exact ⟨htag, hhits.1.1.1, hhits.1.1.2, hhits.2, hts⟩
  · rintro ⟨htag, hspells, hasks, hshows, hts⟩
    refine ⟨free_iff.mpr ⟨?_, hts⟩, by rwa [face_node]⟩
    rw [Watch.hits, hbans, hholds, hspells, hasks, hshows]
    rfl

/-- Most nodes are clear if their children are. -/
@[simp] theorem clear_plain (hk : k.isPlain = true) : (node o k ts).Clear w ↔ ∀ t ∈ ts, t.Clear w := by
  have hbans : w.bans k (ts.map face) = false := by
    unfold Watch.bans
    split
    · cases hk
    · rfl
  have hholds : w.holds k (ts.map face) = w.shows (ts.map face) := by
    unfold Watch.holds
    split
    · cases hk
    · rfl
  have htag : (Face.ofKind k (ts.map face)).tag ≠ some w.symbol := by
    rw [Face.ofKind.eq_def]
    split <;> simp_all
  have hspells : w.spells k = false := by
    unfold Watch.spells
    split <;> first | rfl | cases hk
  have hasks : w.asks k (ts.map face) = false := by
    unfold Watch.asks
    split <;> first | rfl | cases hk
  rw [clear_node_iff hbans hholds]
  simp only [htag, hspells, hasks, ne_eq, not_false_eq_true, true_and]

@[simp] theorem clear_ident {x : String} : (expr o (.ident x) ts).Clear w ↔ x ≠ w.symbol ∧ ∀ t ∈ ts, t.Clear w := by
  rw [clear_node_iff rfl rfl]
  simp [Face.ofKind, Watch.spells, Watch.asks]

@[simp] theorem clear_binding {x : String} {b : Bool} :
    (pat o (.binding x b) ts).Clear w ↔ x ≠ w.symbol ∧ ∀ t ∈ ts, t.Clear w := by
  rw [clear_node_iff rfl rfl]
  simp [Face.ofKind, Watch.spells, Watch.asks]

@[simp] theorem clear_name {x : String} : (part o (.name x) ts).Clear w ↔ x ≠ w.symbol ∧ ∀ t ∈ ts, t.Clear w := by
  rw [clear_node_iff rfl rfl]
  simp [Face.ofKind, Watch.spells, Watch.asks]

/-- An attribute must not ask for the symbol. -/
theorem clear_attr : (markup o .attr ts).Clear w ↔
    w.asks (.markup .attr) (ts.map face) = false ∧ ∀ t ∈ ts, t.Clear w := by
  rw [clear_node_iff rfl rfl]
  have htag : (Face.ofKind (.markup .attr) (ts.map face)).tag ≠ some w.symbol := by
    rw [Face.ofKind.eq_def]
    split <;> simp_all
  simp only [htag, Watch.spells, ne_eq, not_false_eq_true, true_and]

/-! ## Shapes -/

/-- The children of a clear tree are clear, unless the symbol may be a tag. -/
theorem Free.clear_child (hw : w.asTag = false) {t c : Tree} (h : t.Free w) (hc : c ∈ t.children) : c.Clear w := by
  refine ⟨h.child hc, ?_⟩
  cases t with
  | node o k ts =>
      have hhits := h.hits
      rw [Watch.hits, Watch.holds_eq_shows hw, Bool.or_eq_false_iff] at hhits
      exact shows_eq_false.mp hhits.2 c hc
  | list ts => exact shows_eq_false.mp h.hits c hc
  | absent => cases hc

/-- Every node of a clear tree is clear, unless the symbol may be a tag. -/
theorem Clear.at? (hw : w.asTag = false) {t u : Tree} {p : Place} (h : t.Clear w) (hu : t.at? p = some u) : u.Clear w := by
  induction p generalizing t with
  | nil =>
      cases hu
      exact h
  | cons i p ih =>
      obtain ⟨c, hi, hu⟩ := at?_cons_eq_some.mp hu
      exact ih (h.free.clear_child hw (List.mem_of_getElem? hi)) hu

/-- A tree that is clear of the symbol and of certain elements is clear of the symbol. -/
theorem Clear.weaken (hw : w.asTag = false) {t : Tree} (h : t.Clear w) : t.Clear { symbol := w.symbol } := by
  refine ⟨fun p u hu => ?_, h.tag⟩
  have hhits := h.free p u hu
  cases u with
  | node o k ts =>
      rw [Watch.hits, Watch.holds_eq_shows hw] at hhits
      simp only [Bool.or_eq_false_iff] at hhits
      have hbans : ({ symbol := w.symbol } : Watch).bans k (ts.map face) = false := by
        unfold Watch.bans
        split
        · simp
        · rfl
      show Watch.hits { symbol := w.symbol } (node o k ts) = false
      rw [Watch.hits, Watch.holds_eq_shows rfl, hbans]
      simp only [Bool.or_eq_false_iff]
      exact ⟨⟨hhits.1.1, trivial⟩, hhits.2⟩
  | list ts => exact hhits
  | absent => rfl

theorem Clear.unparen {t : Tree} (h : t.Clear w) : t.unparen.Clear w := by
  fun_induction Tree.unparen t with
  | case1 o e ih =>
      rw [clear_plain rfl] at h
      exact ih (h e (List.mem_singleton.mpr rfl))
  | case2 t => exact h

/-- A variable that is clear is another one than the symbol. -/
theorem Clear.ident?_ne {t : Tree} {x : String} (h : t.Clear w) (hx : t.ident? = some x) : x ≠ w.symbol := by
  have hu := h.unparen
  unfold ident? at hx
  split at hx
  · next heq =>
      cases hx
      rw [heq, clear_ident] at hu
      exact hu.1
  · cases hx

/-- Code looks like nothing, also in parentheses. -/
theorem face_of_unparen_isCode {t : Tree} (h : t.unparen.isCode = true) : t.face = {} := by
  fun_induction Tree.unparen t with
  | case1 o e ih =>
      rw [face_node]
      show ({ string := e.face.string } : Face) = {}
      rw [ih h]
  | case2 t => exact Alike.face_of_isCode h

end Tree

end FormCodemod
