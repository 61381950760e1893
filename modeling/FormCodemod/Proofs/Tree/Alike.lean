import Mathlib.Data.List.Forall2
import FormCodemod.Library.Names
import FormCodemod.Proofs.Tree.Face

/-!
# Trees that differ in code only

`Tree.Alike` relates two trees that have the same nodes outside of functions, calls and reads of
members. It is an equivalence, and it fixes what the conversion asks of an import: whether an item
is one, of which module, and which names it gives to what (`Alike.import?`, `Alike.namedSpecifier?`).
A tree without code is alike to itself only (`Alike.eq_of_isInert`).
-/

namespace FormCodemod

/-! ## Lists that are related item by item -/

section Related

variable {α β γ : Type} {R : α → β → Prop}

/-- A relation between two lists may be weakened, with the items of the first list at hand. -/
theorem forall₂_imp_of_mem {S : α → β → Prop} {as : List α} {bs : List β} (h : List.Forall₂ R as bs)
    (himp : ∀ a ∈ as, ∀ b, R a b → S a b) : List.Forall₂ S as bs := by
  induction h with
  | nil => exact .nil
  | cons hr _ ih =>
      exact .cons (himp _ (List.mem_cons_self ..) _ hr) (ih fun a ha => himp a (List.mem_cons_of_mem _ ha))

/-- Relations between the items of three lists compose. -/
theorem forall₂_comp_of_mem {S : β → γ → Prop} {T : α → γ → Prop} {as : List α} {bs : List β} {cs : List γ}
    (h : List.Forall₂ R as bs) (h' : List.Forall₂ S bs cs)
    (hcomp : ∀ a ∈ as, ∀ b c, R a b → S b c → T a c) : List.Forall₂ T as cs := by
  induction h generalizing cs with
  | nil =>
      cases h'
      exact .nil
  | cons hr _ ih =>
      cases h' with
      | cons hs hs' =>
          exact .cons (hcomp _ (List.mem_cons_self ..) _ _ hr hs)
            (ih hs' fun a ha => hcomp a (List.mem_cons_of_mem _ ha))

/-- Every item of the second list has a partner in the first. -/
theorem forall₂_exists_left {as : List α} {bs : List β} {b : β} (h : List.Forall₂ R as bs) (hb : b ∈ bs) :
    ∃ a ∈ as, R a b := by
  induction h with
  | nil => cases hb
  | cons hr _ ih =>
      rcases List.mem_cons.mp hb with rfl | hb
      · exact ⟨_, List.mem_cons_self .., hr⟩
      · obtain ⟨a, ha, hr⟩ := ih hb
        exact ⟨a, List.mem_cons_of_mem _ ha, hr⟩

/-- A list that is related to two lists in a row comes in two pieces itself. -/
theorem forall₂_split {as as' : List α} {bs : List β} (h : List.Forall₂ R (as ++ as') bs) :
    ∃ cs cs', bs = cs ++ cs' ∧ List.Forall₂ R as cs ∧ List.Forall₂ R as' cs' := by
  refine ⟨bs.take as.length, bs.drop as.length, (List.take_append_drop ..).symm, ?_, ?_⟩
  · have htake := List.forall₂_take as.length h
    rwa [List.take_left] at htake
  · have hdrop := List.forall₂_drop as.length h
    rwa [List.drop_left] at hdrop

/-- A list with five images has five items. An element is a node with five children. -/
theorem exists_five_of_map_eq {f : α → β} {as : List α} {b₁ b₂ b₃ b₄ b₅ : β} (h : as.map f = [b₁, b₂, b₃, b₄, b₅]) :
    ∃ a₁ a₂ a₃ a₄ a₅, as = [a₁, a₂, a₃, a₄, a₅] ∧ f a₁ = b₁ ∧ f a₂ = b₂ ∧ f a₃ = b₃ ∧ f a₄ = b₄ ∧ f a₅ = b₅ := by
  obtain ⟨a₁, as₁, rfl, h₁, h⟩ := List.map_eq_cons_iff.mp h
  obtain ⟨a₂, as₂, rfl, h₂, h⟩ := List.map_eq_cons_iff.mp h
  obtain ⟨a₃, as₃, rfl, h₃, h⟩ := List.map_eq_cons_iff.mp h
  obtain ⟨a₄, as₄, rfl, h₄, h⟩ := List.map_eq_cons_iff.mp h
  obtain ⟨a₅, rfl, h₅⟩ := List.map_eq_singleton_iff.mp h
  exact ⟨a₁, a₂, a₃, a₄, a₅, rfl, h₁, h₂, h₃, h₄, h₅⟩

/-- What is the same of related items is the same of the two lists. -/
theorem map_eq_of_forall₂ {f : α → γ} {g : β → γ} {as : List α} {bs : List β}
    (h : List.Forall₂ (fun a b => g b = f a) as bs) : bs.map g = as.map f := by
  induction h with
  | nil => rfl
  | cons h _ ih => rw [List.map_cons, List.map_cons, h, ih]

theorem eq_of_forall₂ {as bs : List α} (h : List.Forall₂ (fun a b => b = a) as bs) : bs = as := by
  simpa only [List.map_id] using map_eq_of_forall₂ (f := id) (g := id) h

end Related

def Kind.isCode : Kind → Bool
  | .part (.function _ _) => true
  | .expr (.arrow _) => true
  | .expr .call => true
  | .expr .member => true
  | _ => false

namespace Tree

def isCode : Tree → Bool
  | .node _ k _ => k.isCode
  | _ => false

def isInert (t : Tree) : Bool := !t.any nowhere isCode

@[simp] theorem isInert_node (o : Origin) (k : Kind) (ts : List Tree) :
    (node o k ts).isInert = (!k.isCode && ts.all isInert) := by
  simp only [isInert, any_node, nowhere, Bool.not_false, Bool.true_and, Bool.not_or, List.not_any_eq_all_not]
  rfl

@[simp] theorem isInert_list (ts : List Tree) : (list ts).isInert = ts.all isInert := by
  simp only [isInert, any_list, List.not_any_eq_all_not]
  rfl

@[simp] theorem isInert_absent : absent.isInert = true := rfl

/-- The trees have the same nodes, except that code may stand for other code. -/
inductive Alike : Tree → Tree → Prop
  | code {t t' : Tree} (h : t.isCode = true) (h' : t'.isCode = true) : Alike t t'
  | node {o : Origin} {k : Kind} {ts ts' : List Tree} (h : List.Forall₂ Alike ts ts') :
      Alike (node o k ts) (node o k ts')
  | list {ts ts' : List Tree} (h : List.Forall₂ Alike ts ts') : Alike (list ts) (list ts')
  | absent : Alike absent absent

namespace Alike

variable {t t' t'' : Tree}

/-! ## Equivalence -/

theorem refl (t : Tree) : Alike t t := by
  induction t using ind with
  | node o k ts ih => exact .node (List.forall₂_same.mpr ih)
  | list ts ih => exact .list (List.forall₂_same.mpr ih)
  | absent => exact .absent

theorem symm (h : Alike t t') : Alike t' t := by
  induction t using ind generalizing t' with
  | node o k ts ih =>
      cases h with
      | code h h' => exact .code h' h
      | node h => exact .node (forall₂_imp_of_mem h ih).flip
  | list ts ih =>
      cases h with
      | code h h' => exact .code h' h
      | list h => exact .list (forall₂_imp_of_mem h ih).flip
  | absent =>
      cases h with
      | code h h' => exact .code h' h
      | absent => exact .absent

theorem isCode_eq (h : Alike t t') : t'.isCode = t.isCode := by
  cases h with
  | code h h' => rw [h, h']
  | node h => rfl
  | list h => rfl
  | absent => rfl

theorem trans (h : Alike t t') (h' : Alike t' t'') : Alike t t'' := by
  induction t using ind generalizing t' t'' with
  | node o k ts ih =>
      cases h with
      | code hc hc' => exact .code hc (h'.isCode_eq.trans hc')
      | node h =>
          cases h' with
          -- whether a node is code depends on its kind, which the two nodes share
          | code hc hc' => exact .code (show k.isCode = true from hc) hc'
          | node h' => exact .node (forall₂_comp_of_mem h h' fun t ht _ _ => ih t ht)
  | list ts ih =>
      cases h with
      | code hc hc' => exact .code hc (h'.isCode_eq.trans hc')
      | list h =>
          cases h' with
          | code hc hc' => exact .code hc hc'
          | list h' => exact .list (forall₂_comp_of_mem h h' fun t ht _ _ => ih t ht)
  | absent =>
      cases h with
      | code hc hc' => exact .code hc (h'.isCode_eq.trans hc')
      | absent => exact h'

/-- Trees with alike children are alike. -/
theorem parent {ts' : List Tree} (h : List.Forall₂ Alike t.children ts') : Alike t (t.withChildren ts') := by
  cases t with
  | node o k ts => exact .node h
  | list ts => exact .list h
  | absent => exact .absent

/-- Without code there is nothing in which alike trees may differ. -/
theorem eq_of_isInert (h : Alike t t') (hi : t.isInert = true) : t' = t := by
  induction t using ind generalizing t' with
  | node o k ts ih =>
      rw [isInert_node, Bool.and_eq_true, List.all_eq_true] at hi
      cases h with
      | code hc _ => simp [show k.isCode = true from hc] at hi
      | node h => rw [eq_of_forall₂ (forall₂_imp_of_mem h fun t ht _ h => ih t ht h (hi.2 t ht))]
  | list ts ih =>
      rw [isInert_list, List.all_eq_true] at hi
      cases h with
      | code hc _ => cases hc
      | list h => rw [eq_of_forall₂ (forall₂_imp_of_mem h fun t ht _ h => ih t ht h (hi t ht))]
  | absent =>
      cases h with
      | code hc _ => cases hc
      | absent => rfl

/-! ## What alike trees have in common -/

/-- Code shows nothing to the question a parent asks of its children. -/
theorem face_of_isCode (h : t.isCode = true) : t.face = {} := by
  cases t with
  | node o k ts =>
      rw [face_node, Face.ofKind.eq_def]
      split <;> first | rfl | cases h
  | list ts => cases h
  | absent => cases h

/-- Alike trees show the same face. -/
theorem face_eq (h : Alike t t') : t'.face = t.face := by
  induction t using ind generalizing t' with
  | node o k ts ih =>
      cases h with
      | code h h' => rw [face_of_isCode h, face_of_isCode h']
      | node h =>
          exact face_withChildren (t := .node o k ts) (map_eq_of_forall₂ (forall₂_imp_of_mem h fun t ht _ => ih t ht))
  | list ts ih =>
      cases h with
      | code h h' => rw [face_of_isCode h, face_of_isCode h']
      | list h =>
          exact face_withChildren (t := .list ts) (map_eq_of_forall₂ (forall₂_imp_of_mem h fun t ht _ => ih t ht))
  | absent =>
      cases h with
      | code h h' => rw [face_of_isCode h, face_of_isCode h']
      | absent => rfl

theorem string?_eq (h : Alike t t') : t'.string? = t.string? := by
  rw [← string_face, ← string_face, h.face_eq]

end Alike

theorem farText_node (o : Origin) (k : Kind) (ts : List Tree) :
    (node o k ts).farText = match k with
      | .part (.name x) => some x
      | .expr (.str v _) => some v
      | _ => none := by
  cases k with
  | part k => cases k <;> rfl
  | expr k => cases k <;> rfl
  | _ => rfl

theorem isStarSpecifier_node (o : Origin) (k : Kind) (ts : List Tree) :
    (node o k ts).isStarSpecifier = match k with
      | .item .importStar => true
      | _ => false := by
  cases k with
  | item k => cases k <;> rfl
  | _ => rfl

namespace Alike

variable {t t' : Tree}

theorem farText_eq (h : Alike t t') : t'.farText = t.farText := by
  cases h with
  | code h h' =>
      unfold farText
      split <;> split <;> first | rfl | cases h | cases h'
  | node h => rw [farText_node, farText_node]
  | list h => rfl
  | absent => rfl

/-- An import of a whole module is like an import of a whole module. -/
theorem isStarSpecifier_eq (h : Alike t t') : t'.isStarSpecifier = t.isStarSpecifier := by
  cases h with
  | code h h' =>
      unfold isStarSpecifier
      split <;> split <;> first | rfl | cases h | cases h'
  | node h => rw [isStarSpecifier_node, isStarSpecifier_node]
  | list h => rfl
  | absent => rfl

/-- A specifier imports the same under the same name. -/
theorem namedSpecifier? (h : Alike t t') {x : String × String} (hx : t.namedSpecifier? = some x) :
    t'.namedSpecifier? = some x := by
  unfold Tree.namedSpecifier? at hx
  split at hx
  · next o b o₁ near ts far =>
      cases h with
      | code h => cases h
      | node h =>
          obtain _ | ⟨hnear, _ | ⟨hfar, _ | _⟩⟩ := h
          cases hnear with
          | code h => cases h
          | node hnear =>
              rw [← hx, ← hfar.farText_eq]
              rfl
  · cases hx

end Alike

/-- The symbol that a specifier in braces imports is the one on the far side. -/
theorem importedName?_of_named {t : Tree} {x : String × String} (h : t.namedSpecifier? = some x) :
    t.importedName? = some x.1 := by
  unfold namedSpecifier? at h
  split at h
  · cases h
    rfl
  · cases h

namespace Alike

variable {t t' : Tree}

/-- A specifier that is like one of `x` imports `x` as well. -/
theorem importedName? (h : Alike t t') {x : String} (hx : t.importedName? = some x) :
    t'.importedName? = some x := by
  unfold Tree.importedName? at hx
  split at hx
  · cases h with
    | code h => cases h
    | node h => exact hx
  · obtain ⟨y, hy, rfl⟩ := Option.map_eq_some_iff.mp hx
    exact importedName?_of_named (h.namedSpecifier? hy)

end Alike

end Tree

/-- The imports have the same specifiers, from the same module, up to code in them. -/
structure ImportDecl.Alike (d d' : ImportDecl) : Prop where
  origin : d'.origin = d.origin
  typeOnly : d'.typeOnly = d.typeOnly
  phase : d'.phase = d.phase
  specifiers : List.Forall₂ Tree.Alike d.specifiers d'.specifiers
  source : d.source.Alike d'.source
  attributes : d.attributes.Alike d'.attributes

theorem ImportDecl.Alike.sourceName_eq {d d' : ImportDecl} (h : d.Alike d') : d'.sourceName = d.sourceName := by
  rw [sourceName, sourceName, h.source.string?_eq]

namespace Tree

/-- A node that is like an import is an import itself, and one like it. -/
theorem Alike.import? {t t' : Tree} {d : ImportDecl} (h : Alike t t') (hd : t.import? = some d) :
    ∃ d', t'.import? = some d' ∧ d.Alike d' := by
  unfold Tree.import? at hd
  split at hd
  · cases hd
    cases h with
    | code h => cases h
    | node h =>
        obtain _ | ⟨hspecs, _ | ⟨hsource, _ | ⟨hattrs, _ | _⟩⟩⟩ := h
        cases hspecs with
        | code h => cases h
        | list hspecs => exact ⟨_, rfl, rfl, rfl, rfl, hspecs, hsource, hattrs⟩
  · cases hd

/-- A node that is like none of the imports is no import. -/
theorem Alike.import?_eq_none {t t' : Tree} (h : Alike t t') (hd : t.import? = none) : t'.import? = none := by
  rw [← Option.not_isSome_iff_eq_none, Option.isSome_iff_exists]
  rintro ⟨d', hd'⟩
  obtain ⟨d, hd'', -⟩ := h.symm.import? hd'
  rw [hd] at hd''
  cases hd''

end Tree

end FormCodemod
