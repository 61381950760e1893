import FormCodemod.Proofs.Tree.Places
import FormCodemod.Tree.Element

/-!
# What a parent sees of its children

Some questions about a node look at its children too: which tag an element has, what an attribute is
called, which string it says. `Tree.face` gathers all that such a question may see of a
child. A face is made from a kind and the faces of the children, so two nodes of one kind have the
same face if their children have.
-/

namespace FormCodemod

/-- What a parent may see of a child. -/
structure Face where
  /-- The string that it is, with parentheses looked through. -/
  string : Option String := none
  /-- The string that it says as the value of an attribute. -/
  literal : Option String := none
  /-- The tag that it is. -/
  tag : Option String := none
  /-- The key that it is. -/
  key : Option String := none
  /-- What it is called as an attribute. -/
  attr : Option String := none
  /-- What its items are called as attributes, if it is a group. -/
  attrs : Option (List (Option String)) := none
  deriving DecidableEq

def Face.ofKind : Kind → List Face → Face
  | .expr (.str v _), _ => { string := some v, literal := some v }
  | .expr .paren, [f] => { string := f.string }
  | .markup .container, [f] => { literal := f.string }
  | .part (.name x), _ => { tag := some x }
  | .part (.key x), _ => { key := some x }
  | .markup .attr, [f, _] => { attr := f.key }
  | _, _ => {}

namespace Tree

mutual

/-- What a parent may see of a tree. -/
def face : Tree → Face
  | .node _ k ts => Face.ofKind k (faceAll ts)
  | .list ts => { attrs := some ((faceAll ts).map Face.attr) }
  | .absent => {}

def faceAll : List Tree → List Face
  | [] => []
  | t :: ts => face t :: faceAll ts

end

theorem faceAll_eq_map (ts : List Tree) : faceAll ts = ts.map face := by
  induction ts with
  | nil => rfl
  | cons t ts ih => rw [faceAll, ih, List.map_cons]

theorem face_node (o : Origin) (k : Kind) (ts : List Tree) :
    (node o k ts).face = Face.ofKind k (ts.map face) := by
  rw [face, faceAll_eq_map]

theorem face_list (ts : List Tree) : (list ts).face = { attrs := some (ts.map fun t => t.face.attr) } := by
  rw [face, faceAll_eq_map, List.map_map]
  rfl

@[simp] theorem face_absent : absent.face = {} := rfl

/-- The same node around children with the same faces has the same face. -/
theorem face_withChildren {t : Tree} {ts' : List Tree} (h : ts'.map face = t.children.map face) :
    (t.withChildren ts').face = t.face := by
  cases t with
  | node o k ts => rw [withChildren, face_node, face_node, h, children_node]
  | list ts =>
      have hattr : ts'.map (fun t => t.face.attr) = ts.map fun t => t.face.attr := by
        simpa [Function.comp_def] using congrArg (List.map Face.attr) h
      rw [withChildren, face_list, face_list, hattr]
  | absent => rfl

/-! ## Questions that a face answers -/

/-- A face shows the string that a tree is. -/
theorem string_face (t : Tree) : t.face.string = t.string? := by
  fun_induction unparen t with
  | case1 o e ih =>
      rw [face_node]
      exact ih
  | case2 t h =>
      have hu : t.unparen = t := by
        unfold unparen
        split
        · exact (h _ _ rfl).elim
        · rfl
      rw [string?, hu]
      split
      · rw [face_node]
        rfl
      · next hstr =>
          cases t with
          | node o k ts =>
              rw [face_node, Face.ofKind.eq_def]
              split <;> try rfl
              · exact (hstr _ _ _ _ rfl).elim
              · next hts =>
                  obtain ⟨e, rfl, -⟩ := List.map_eq_singleton_iff.mp hts
                  exact (h _ _ rfl).elim
          | list ts => rfl
          | absent => rfl

/-- A face shows the tag that an element's name stands for. -/
theorem tag_face (t : Tree) : t.face.tag = t.tag? := by
  unfold tag?
  split
  · rw [face_node]
    rfl
  · next hname =>
      cases t with
      | node o k ts =>
          rw [face_node, Face.ofKind.eq_def]
          split <;> try rfl
          exact (hname _ _ _ rfl).elim
      | list ts => rfl
      | absent => rfl

/-- A face shows a fixed key exactly if the tree is that key. -/
theorem key_face {t : Tree} {x : String} : t.face.key = some x ↔ ∃ o ts, t = .part o (.key x) ts := by
  constructor
  · intro h
    cases t with
    | node o k ts =>
        rw [face_node, Face.ofKind.eq_def] at h
        split at h <;> cases h
        exact ⟨o, ts, rfl⟩
    | list ts => cases h
    | absent => cases h
  · rintro ⟨o, ts, rfl⟩
    rw [face_node]
    rfl

/-- A face shows the name of the attribute that a tree is. -/
theorem attr_face (t : Tree) : t.face.attr = t.attrName? := by
  unfold attrName?
  split
  · rw [face_node]
    exact key_face.mpr ⟨_, _, rfl⟩
  · next hattr =>
      cases t with
      | node o k ts =>
          rw [face_node, Face.ofKind.eq_def]
          split <;> try rfl
          next f f' hts =>
            match ts, hts with
            | [n, v], hts =>
                cases hts
                rw [← Option.not_isSome_iff_eq_none, Option.isSome_iff_exists]
                rintro ⟨x, hx⟩
                obtain ⟨o', ts', rfl⟩ := key_face.mp hx
                exact hattr _ _ _ _ _ rfl
      | list ts => rfl
      | absent => rfl

/-- What an attribute says as a string. -/
theorem literal_face {a : Tree} {s : String} (h : AttrValue.ofAttr a = .literal s) :
    a.attrValue.face.literal = some s := by
  unfold AttrValue.ofAttr at h
  split at h
  · cases h
  · next hv =>
      cases h
      rw [hv, face_node]
      rfl
  · cases h
  · next e _ hv =>
      split at h
      · next hs =>
          cases h
          rw [hv, face_node]
          show e.face.string = some _
          rw [string_face, hs]
      · cases h
  · cases h

end Tree

end FormCodemod
