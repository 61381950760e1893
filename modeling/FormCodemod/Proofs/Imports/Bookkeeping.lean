import FormCodemod.Proofs.Convert.Items
import FormCodemod.Proofs.Grammar.Items
import FormCodemod.Proofs.Imports.Ensured

/-!
# Imports before and after a conversion

The import list of a module through the whole conversion (`Module.convert_imports`). The passes
rewrite every item in its place, removing takes away what is imported from the form library, and
the three times at which imports are ensured change one import or put in one.

* `Tended` is what is kept along the way for the target library and its companion: which import
  came from which, what was put in, and where. Each time imports are ensured it goes on holding
  (`Tended.ensure_target`, `Tended.ensure_yup`), and it survives rewriting (`Tended.evolve`).
* All other items are kept in their order (`convert_apart`).
-/

namespace FormCodemod

open FormCodemod.Tree (Alike Evolves)

/-! ## What ensuring imports leaves alone -/

namespace Module.Ensured

variable {source X : String} {symbols : List String} {aliases : Renaming} {place : Option Nat} {m : Module}
  {items' : List Tree}

/-- Items that are no imports of the library stay as they are. -/
theorem filter_eq (h : Ensured source symbols aliases place m items') {q : Tree → Bool}
    (hq : ∀ t, t.importsFrom source = true → q t = false) : items'.filter q = m.items.filter q := by
  cases h with
  | nothing h => rfl
  | merged hitems hd hsource hopen =>
      have hold := hq _ ((Tree.importsFrom_of_import? hd source).trans (beq_iff_eq.mpr hsource))
      have hnew := hq (ImportDecl.add _ aliases symbols).toTree (beq_iff_eq.mpr hsource)
      rw [hitems, List.filter_append, List.filter_append, List.filter_cons, List.filter_cons, hold, hnew]
      rfl
  | inserted h =>
      have hnew := hq _ (Tree.importsFrom_of_isOpenImport (Imports.isOpenImport_made source aliases symbols))
      simp only [insertAt, List.filter_append, List.filter_cons, hnew, Bool.false_eq_true, ↓reduceIte,
        List.filter_nil, List.append_nil]
      rw [← List.filter_append, List.take_append_drop]

/-- If there was nothing to put in, every item evolves. -/
theorem evolves_or_inserted (h : Ensured source symbols aliases place m items') :
    List.Forall₂ Evolves m.items items' ∨
      (∀ t ∈ m.items, t.isOpenImport source = false) ∧
        items' = insertAt (place.getD m.afterImports) [Imports.made source aliases symbols] m.items := by
  cases h with
  | nothing h => exact .inl (List.forall₂_same.mpr fun t _ => .inl (.refl t))
  | @merged pre post t d hitems hd hsource hopen =>
      refine .inl ?_
      rw [hitems]
      refine List.rel_append (List.forall₂_same.mpr fun t _ => .inl (.refl t)) (.cons ?_ ?_)
      · exact .inr ⟨d, _, hd, rfl, d.extends_add aliases symbols⟩
      · exact List.forall₂_same.mpr fun t _ => .inl (.refl t)
  | inserted h => exact .inr ⟨h, rfl⟩

end Module.Ensured

/-! ## The imports of one library -/

section Imports

variable (R : Tree → Tree → Prop)

/-- The imports of the library in `items` are those in `old`, one by one. -/
def ImportsKept (source : String) (old items : List Tree) : Prop :=
  List.Forall₂ R (old.filter (Tree.importsFrom source)) (items.filter (Tree.importsFrom source))

/-- The imports of the library in `items` are those in `old`, but for at most one, which was put in
because there was no open one. If a place is given, it stands there. -/
def ImportsGrown (source : String) (place : Option Nat) (old items : List Tree) : Prop :=
  ImportsKept R source old items ∨
    (∀ t ∈ old, t.isOpenImport source = false) ∧
      ∃ pre new post, items = pre ++ new :: post ∧ (∀ p, place = some p → pre.length = p) ∧
        new.isOpenImport source = true ∧ ImportsKept R source old (pre ++ post)

end Imports

section Steps

variable {source : String} {old items items' : List Tree} {place : Option Nat}

/-- Imports that are kept are as open as before. -/
theorem ImportsKept.old_not_open (h : ImportsKept Evolves source old items)
    (hitems : ∀ t ∈ items, t.isOpenImport source = false) : ∀ t ∈ old, t.isOpenImport source = false := by
  intro t ht
  rw [← Bool.not_eq_true]
  intro hopen
  have hmem := List.mem_filter.mpr ⟨ht, Tree.importsFrom_of_isOpenImport hopen⟩
  obtain ⟨u, hu, htu⟩ := forall₂_exists_left (List.Forall₂.flip h) hmem
  rw [← Evolves.isOpenImport_eq htu, hitems u (List.mem_filter.mp hu).1] at hopen
  cases hopen

/-- Items that evolve are imports of a library as often as they were. -/
theorem filter_importsFrom (h : List.Forall₂ Evolves items items') (source : String) :
    List.Forall₂ Evolves (items.filter (Tree.importsFrom source)) (items'.filter (Tree.importsFrom source)) :=
  List.rel_filter (fun _ _ h => Bool.eq_iff_iff.mp (h.importsFrom_eq source).symm) h

/-- Kept imports stay kept when the items evolve further. -/
theorem ImportsKept.evolve (h : ImportsKept Evolves source old items) (hitems : List.Forall₂ Evolves items items') :
    ImportsKept Evolves source old items' :=
  forall₂_comp_of_mem h (filter_importsFrom hitems source) fun _ _ _ _ h h' => h.trans h'

/-- Rewriting every item keeps the imports, and with them the place of the one that was put in. -/
theorem ImportsGrown.evolve (h : ImportsGrown Evolves source place old items)
    (hitems : List.Forall₂ Evolves items items') : ImportsGrown Evolves source place old items' := by
  rcases h with h | ⟨hold, pre, new, post, rfl, hplace, hnew, h⟩
  · exact .inl (h.evolve hitems)
  · obtain ⟨pre', rest', rfl, hpre, hrest⟩ := forall₂_split hitems
    cases hrest with
    | @cons _ new' _ post' hevolves hpost =>
        refine .inr ⟨hold, pre', new', post', rfl, ?_, hevolves.isOpenImport_eq source ▸ hnew,
          h.evolve (List.rel_append hpre hpost)⟩
        intro p hp
        rw [← hpre.length_eq, hplace p hp]

/-- Ensuring imports of the library itself puts one in only if there is no open one. -/
theorem ImportsGrown.ensure {symbols : List String} {aliases : Renaming} {at_ : Option Nat} {m : Module}
    (h : ImportsGrown Evolves source place old m.items)
    (hplace : ∀ p, place = some p → at_ = some p ∧ p ≤ m.items.length)
    (hens : m.Ensured source symbols aliases at_ items') : ImportsGrown Evolves source place old items' := by
  rcases hens.evolves_or_inserted with hitems | ⟨hnone, rfl⟩
  · exact h.evolve hitems
  rcases h with h | ⟨-, pre, new, post, heq, -, hnew, -⟩
  · -- nothing was put in so far, and nothing open was there in the beginning either
    refine .inr ⟨h.old_not_open hnone, m.items.take (at_.getD m.afterImports), _, m.items.drop (at_.getD m.afterImports),
      by rw [insertAt, List.append_assoc]; rfl, ?_, Imports.isOpenImport_made .., ?_⟩
    · intro p hp
      obtain ⟨hat, hlen⟩ := hplace p hp
      rw [hat, Option.getD_some, List.length_take, Nat.min_eq_left hlen]
    · rw [List.take_append_drop]
      exact h
  · -- one was put in before, which is open
    have hmem : new ∈ m.items := by
      rw [heq]
      exact List.mem_append_right _ (List.mem_cons_self ..)
    rw [hnone new hmem] at hnew
    cases hnew

/-- For the imports of a library it does not matter what else is in the list. -/
theorem ImportsGrown.of_filter_eq (h : ImportsGrown Evolves source none old items)
    (heq : items'.filter (Tree.importsFrom source) = items.filter (Tree.importsFrom source)) :
    ImportsGrown Evolves source none old items' := by
  rcases h with h | ⟨hold, pre, new, post, rfl, -, hnew, h⟩
  · refine .inl ?_
    rw [ImportsKept, heq]
    exact h
  · rw [List.filter_append, List.filter_cons,
      if_pos (Tree.importsFrom_of_isOpenImport hnew)] at heq
    -- the import that was put in is still there, with other items in front of it
    obtain ⟨pre', rest', rfl, hpre, hrest⟩ := List.filter_eq_append_iff.mp heq
    obtain ⟨skipped, post', rfl, hskipped, -, hpost⟩ := List.filter_eq_cons_iff.mp hrest
    refine .inr ⟨hold, pre' ++ skipped, new, post', by simp, (fun p hp => nomatch hp), hnew, ?_⟩
    have hnil : skipped.filter (Tree.importsFrom source) = [] := List.filter_eq_nil_iff.mpr hskipped
    rw [ImportsKept, List.filter_append, List.filter_append, hpre, hnil, hpost, List.append_nil,
      ← List.filter_append]
    exact h

theorem ImportsGrown.forget_place (h : ImportsGrown Evolves source place old items) : ImportsGrown Evolves source none old items := by
  rcases h with h | ⟨hold, pre, new, post, heq, -, hnew, h⟩
  · exact .inl h
  · exact .inr ⟨hold, pre, new, post, heq, (fun p hp => nomatch hp), hnew, h⟩

end Steps

/-- In front of the place, the items are those of `old`, one by one. -/
def FrontKept (R : Tree → Tree → Prop) (place : Option Nat) (old items : List Tree) : Prop :=
  ∀ p, place = some p → p ≤ items.length ∧ List.Forall₂ R (old.take p) (items.take p)

section Front

variable {old items items' : List Tree} {place : Option Nat}

/-- What is kept in front stays kept when the items evolve further. -/
theorem FrontKept.evolve (h : FrontKept Evolves place old items) (hitems : List.Forall₂ Evolves items items') :
    FrontKept Evolves place old items' := by
  intro p hp
  obtain ⟨hlen, hfront⟩ := h p hp
  refine ⟨hitems.length_eq ▸ hlen, ?_⟩
  exact forall₂_comp_of_mem hfront (List.forall₂_take p hitems) fun _ _ _ _ h h' => h.trans h'

/-- What is put in goes behind the front. -/
theorem FrontKept.ensure {source : String} {symbols : List String} {aliases : Renaming} {m : Module}
    (h : FrontKept Evolves place old m.items) (hens : m.Ensured source symbols aliases place items') :
    FrontKept Evolves place old items' := by
  rcases hens.evolves_or_inserted with hitems | ⟨-, rfl⟩
  · exact h.evolve hitems
  · intro p hp
    obtain ⟨hlen, hfront⟩ := h p hp
    have htake : (insertAt p [Imports.made source aliases symbols] m.items).take p = m.items.take p := by
      rw [insertAt, List.append_assoc, List.take_left' (List.length_take_of_le hlen)]
    rw [hp, Option.getD_some, htake]
    refine ⟨?_, hfront⟩
    simp only [insertAt, List.length_append, List.length_take, List.length_drop, List.length_singleton]
    omega

end Front

/-! ## Along the conversion -/

/-- What holds of the items from the removal of the old imports on. -/
structure Tended (R : Tree → Tree → Prop) (o : Options) (place : Option Nat) (old items : List Tree) : Prop where
  /-- No import of the form library is left. -/
  removed : items.filter (Tree.importsFrom o.sourceModule) = []
  target : ImportsGrown R o.targetModule place old items
  yup : ImportsGrown R o.yupModule none old items
  front : FrontKept R place old items

namespace Tended

variable {o : Options} {place : Option Nat} {old items items' : List Tree}

/-- The bookkeeping goes on when the items evolve. -/
theorem evolve (h : Tended Evolves o place old items) (hitems : List.Forall₂ Evolves items items') :
    Tended Evolves o place old items' := by
  refine ⟨?_, h.target.evolve hitems, h.yup.evolve hitems, h.front.evolve hitems⟩
  have hfilter := filter_importsFrom hitems o.sourceModule
  rw [h.removed] at hfilter
  exact List.forall₂_nil_left_iff.mp hfilter

theorem importsFrom_ne {t : Tree} {X Y : String} (hne : Y ≠ X) (h : t.importsFrom X = true) :
    t.importsFrom Y = false := by
  obtain ⟨d, hd, hX⟩ := (Option.any_eq_true ..).mp h
  rw [Tree.importsFrom_of_import? hd, beq_iff_eq.mp hX]
  exact beq_eq_false_iff_ne.mpr hne.symm

/-- Importing from the target library. -/
theorem ensure_target {m : Module} {symbols : List String} {aliases : Renaming}
    (hne : o.sourceModule ≠ o.targetModule) (h : Tended Evolves o place old m.items)
    (hens : m.Ensured o.targetModule symbols aliases place items') : Tended Evolves o place old items' := by
  have htarget := h.target.ensure (fun p hp => ⟨hp, (h.front p hp).1⟩) hens
  refine ⟨?_, htarget, ?_, h.front.ensure hens⟩
  · rw [hens.filter_eq fun t => importsFrom_ne hne, h.removed]
  · -- the two libraries may be the same one
    by_cases heq : o.yupModule = o.targetModule
    · rw [heq]
      exact htarget.forget_place
    · exact h.yup.of_filter_eq (hens.filter_eq fun t => importsFrom_ne heq)

/-- Importing from the schema library, as long as no import of the target library was put in. -/
theorem ensure_yup {m : Module} {symbols : List String} {aliases : Renaming}
    (hne : o.sourceModule ≠ o.yupModule) (h : Tended Evolves o place old m.items)
    (hkept : ImportsKept Evolves o.targetModule old m.items)
    (hens : m.Ensured o.yupModule symbols aliases place items') : Tended Evolves o place old items' := by
  have hgrown : ImportsGrown Evolves o.targetModule place old items' := by
    by_cases heq : o.targetModule = o.yupModule
    · rw [heq] at hkept ⊢
      exact ImportsGrown.ensure (.inl hkept) (fun p hp => ⟨hp, (h.front p hp).1⟩) hens
    · refine .inl ?_
      rw [ImportsKept, hens.filter_eq fun t => importsFrom_ne heq]
      exact hkept
  refine ⟨?_, hgrown, h.yup.ensure (fun p hp => nomatch hp) hens, h.front.ensure hens⟩
  rw [hens.filter_eq fun t => importsFrom_ne hne, h.removed]

theorem filter_filter_ne {X Y : String} (hne : X ≠ Y) (items : List Tree) :
    (items.filter fun t => !t.importsFrom X).filter (Tree.importsFrom Y) = items.filter (Tree.importsFrom Y) := by
  rw [List.filter_filter]
  refine List.filter_congr fun t _ => ?_
  by_cases h : t.importsFrom Y = true
  · simp [h, importsFrom_ne hne h]
  · simp [h]

/-- The items in front of the first import of the library stay in front when the imports go. -/
theorem front_of_findIdx? {X : String} {p : Nat} (h : items.findIdx? (Tree.importsFrom X) = some p) :
    p ≤ (items.filter fun t => !t.importsFrom X).length ∧
      (items.filter fun t => !t.importsFrom X).take p = items.take p := by
  obtain ⟨hlt, -, hbefore⟩ := List.findIdx?_eq_some_iff_getElem.mp h
  -- nothing in front of the first import is removed
  have hself : (items.take p).filter (fun t => !t.importsFrom X) = items.take p := by
    rw [List.filter_eq_self]
    intro t ht
    obtain ⟨j, hj, rfl⟩ := List.mem_take_iff_getElem.mp ht
    have hjp : j < p := by omega
    simpa using hbefore j hjp
  have hlen : (items.take p).length = p := List.length_take_of_le (Nat.le_of_lt hlt)
  have hsplit : items.filter (fun t => !t.importsFrom X) =
      items.take p ++ (items.drop p).filter fun t => !t.importsFrom X := by
    rw [← hself, ← List.filter_append, List.take_append_drop]
  rw [hsplit]
  refine ⟨?_, List.take_left' hlen⟩
  rw [List.length_append, hlen]
  omega

/-- Removing the imports of the form library. -/
theorem start (htarget : o.sourceModule ≠ o.targetModule) (hyup : o.sourceModule ≠ o.yupModule)
    (hitems : List.Forall₂ Alike old items) :
    Tended Evolves o (items.findIdx? (Tree.importsFrom o.sourceModule)) old
        (items.filter fun t => !t.importsFrom o.sourceModule) ∧
      ImportsKept Evolves o.targetModule old (items.filter fun t => !t.importsFrom o.sourceModule) := by
  have hevolves : List.Forall₂ Evolves old items := hitems.imp fun _ _ h => .inl h
  have hkept : ∀ X, o.sourceModule ≠ X →
      ImportsKept Evolves X old (items.filter fun t => !t.importsFrom o.sourceModule) := by
    intro X hne
    rw [ImportsKept, filter_filter_ne hne]
    exact filter_importsFrom hevolves X
  refine ⟨⟨?_, .inl (hkept _ htarget), .inl (hkept _ hyup), ?_⟩, hkept _ htarget⟩
  · simp [List.filter_filter]
  · intro p hp
    obtain ⟨hlen, htake⟩ := front_of_findIdx? hp
    refine ⟨hlen, ?_⟩
    rw [htake]
    exact List.forall₂_take p hevolves

/-- A stronger relation between items may be replaced by a weaker one. -/
theorem mono {R R' : Tree → Tree → Prop} (h : Tended R o place old items)
    (himp : ∀ t ∈ old, ∀ t', R t t' → R' t t') : Tended R' o place old items := by
  have hkept : ∀ {X items}, ImportsKept R X old items → ImportsKept R' X old items := by
    intro X items h
    exact forall₂_imp_of_mem h fun t ht => himp t (List.mem_filter.mp ht).1
  have hgrown : ∀ {X place}, ImportsGrown R X place old items → ImportsGrown R' X place old items := by
    rintro X place (h | ⟨hold, pre, new, post, heq, hplace, hnew, h⟩)
    · exact .inl (hkept h)
    · exact .inr ⟨hold, pre, new, post, heq, hplace, hnew, hkept h⟩
  refine ⟨h.removed, hgrown h.target, hgrown h.yup, ?_⟩
  intro p hp
  obtain ⟨hlen, hfront⟩ := h.front p hp
  exact ⟨hlen, forall₂_imp_of_mem hfront fun t ht => himp t (List.mem_of_mem_take ht)⟩

end Tended

/-! ## The conversion as a whole -/

/-- The import with further specifiers; nothing but its attribute clause may be rewritten. -/
def Tree.GrowsBy (extra : List Tree) (t t' : Tree) : Prop :=
  (t.import? = none ∧ t'.import? = none) ∨
    ∃ d attributes, t.import? = some d ∧
      t'.import? = some { d with specifiers := d.specifiers ++ extra, attributes } ∧
      (d.attributes.isInert = true → attributes = d.attributes)

/-- An item that is no import of a library that the conversion deals with. -/
def Tree.isApart (o : Options) (t : Tree) : Bool :=
  !t.importsFrom o.sourceModule && !t.importsFrom o.targetModule && !t.importsFrom o.yupModule

namespace Tree

theorem eq_of_forall₂_alike {ts ts' : List Tree} (h : List.Forall₂ Alike ts ts')
    (hi : ts.all isInert = true) : ts' = ts :=
  eq_of_forall₂ (forall₂_imp_of_mem h fun t ht _ h => h.eq_of_isInert (List.all_eq_true.mp hi t ht))

variable {t t' : Tree}

/-- With plain specifiers, evolving is growing. -/
theorem Evolves.growsBy (h : Evolves t t') (hplain : t.PlainImport) : ∃ extra, t.GrowsBy extra t' := by
  cases hd : t.import? with
  | none => exact ⟨[], .inl ⟨hd, h.import?_eq_none hd⟩⟩
  | some d =>
      obtain ⟨d', hd', hext⟩ := h.import? hd
      obtain ⟨hspecs, hsource⟩ := hplain d hd
      obtain ⟨kept, extra, heq, hkept, -⟩ := hext.specifiers
      rw [eq_of_forall₂_alike hkept hspecs] at heq
      refine ⟨extra, .inr ⟨d, d'.attributes, hd, ?_, fun hi => hext.attributes.eq_of_isInert hi⟩⟩
      rw [hd', ← heq, ← hext.origin, ← hext.typeOnly, ← hext.phase, ← hext.source.eq_of_isInert hsource]

/-- With plain specifiers, alike imports list the same names. -/
theorem Alike.growsBy_nil (h : Alike t t') (hplain : t.PlainImport) : t.GrowsBy [] t' := by
  cases hd : t.import? with
  | none => exact .inl ⟨hd, h.import?_eq_none hd⟩
  | some d =>
      obtain ⟨d', hd', halike⟩ := h.import? hd
      obtain ⟨hspecs, hsource⟩ := hplain d hd
      refine .inr ⟨d, d'.attributes, hd, ?_, fun hi => halike.attributes.eq_of_isInert hi⟩
      rw [hd', List.append_nil, ← halike.origin, ← halike.typeOnly, ← halike.phase,
        ← halike.source.eq_of_isInert hsource, ← eq_of_forall₂_alike halike.specifiers hspecs]

end Tree

namespace Module

variable {o : Options} {m m' : Module}

/-- Alike modules import a library in the same place. -/
theorem importPlace?_eq {n : Module} (h : List.Forall₂ Alike m.items n.items) (source : String) :
    n.importPlace? source = m.importPlace? source := by
  have hmap := map_eq_of_forall₂ (h.imp fun _ _ h => Evolves.importsFrom_eq (.inl h) source)
  have hfind : ∀ ts : List Tree, ts.findIdx? (Tree.importsFrom source) =
      (ts.map (Tree.importsFrom source)).findIdx? id := by
    intro ts
    rw [List.findIdx?_map]
    rfl
  rw [importPlace?, importPlace?, hfind, hfind, hmap]

/-- Planned imports are put in. -/
theorem tended_insertImports {place : Option Nat} {old : List Tree} (plan : ImportPlan) (aliases : Renaming)
    (htarget : o.sourceModule ≠ o.targetModule) (hyup : o.sourceModule ≠ o.yupModule)
    (h : Tended Evolves o place old m.items) (hkept : ImportsKept Evolves o.targetModule old m.items) :
    Tended Evolves o place old (m.insertImports o plan aliases place).items := by
  obtain ⟨items₁, items₂, h₁, hens₂, heq⟩ := m.insertImports_inv o plan aliases place
  rw [heq]
  refine Tended.ensure_target htarget (m := { m with items := items₁ }) ?_ hens₂
  rcases h₁ with ⟨-, hens₁⟩ | ⟨-, rfl⟩
  · exact h.ensure_yup hyup hkept hens₁
  · exact h

/-- They leave alone what is no import of their libraries. -/
theorem filter_insertImports (plan : ImportPlan) (aliases : Renaming) (place : Option Nat) {q : Tree → Bool}
    (htarget : ∀ t, t.importsFrom o.targetModule = true → q t = false)
    (hyup : ∀ t, t.importsFrom o.yupModule = true → q t = false) :
    (m.insertImports o plan aliases place).items.filter q = m.items.filter q := by
  obtain ⟨items₁, items₂, h₁, hens₂, heq⟩ := m.insertImports_inv o plan aliases place
  rw [heq]
  refine (hens₂.filter_eq htarget).trans ?_
  rcases h₁ with ⟨-, hens₁⟩ | ⟨-, rfl⟩
  · exact hens₁.filter_eq hyup
  · rfl

/-- The module whose context hooks are converted and whose imports of the form library are replaced. -/
def withImports (o : Options) (m : Module) : Module :=
  ((Context.convert (m.setting o) m).removeImports o.sourceModule).insertImports o
    (.ofFeatures (.ofModule (m.setting o).names m)) (m.setting o).names.aliases (m.importPlace? o.sourceModule)

/-- The items of a module from step to step: the context hook is converted, imports go and come,
the other passes run, and imports are topped up. -/
theorem convert_items (h : m.convert o = .ok m') :
    ∃ (m₄ : Module) (σ : Symbols),
      (convertMarkup (m.setting o) (FieldHook.convert (m.setting o) (m.withImports o))).run {} = .ok (m₄, σ) ∧
      List.Forall₂ (fun t t₁ => Context.convert (m.setting o) (only t) = only t₁ ∧ Alike t t₁)
        m.items (Context.convert (m.setting o) m).items ∧
      List.Forall₂ (fun t t' => t.ConvertsBody (m.setting o) t' ∧ Alike t t')
        (m.withImports o).items (Fieldset.normalize m₄).items ∧
      (Fieldset.normalize m₄).Ensured o.targetModule σ.toList [] (m.importPlace? o.sourceModule) m'.items := by
  obtain ⟨m₄, σ, hbody, rfl⟩ := convert_inv h
  obtain ⟨items₁, hcontext, h₁⟩ :=
    items_run_forEachScope (fun _ body => pure (Context.convertScope (m.setting o) body)) m
  have hm₁ : Context.convert (m.setting o) m = { m with items := items₁ } := hcontext
  -- the place is taken behind the first pass, which leaves the imports where they are
  have hplace : (Context.convert (m.setting o) m).importPlace? o.sourceModule = m.importPlace? o.sourceModule := by
    rw [hm₁]
    exact importPlace?_eq (n := { m with items := items₁ }) (h₁.imp fun _ _ h => h.2) o.sourceModule
  rw [hplace] at hbody ⊢
  obtain ⟨items₈, heq₈, hens₈⟩ := ensured o.targetModule σ.toList [] (m.importPlace? o.sourceModule)
    (Fieldset.normalize m₄)
  rw [heq₈]
  refine ⟨m₄, σ, hbody, ?_, items_convertBody hbody, hens₈⟩
  rw [hm₁]
  exact h₁

theorem isApart_eq {t t' : Tree} (o : Options) (h : Alike t t') : t'.isApart o = t.isApart o := by
  simp only [Tree.isApart, Evolves.importsFrom_eq (.inl h)]

/-- What is apart is converted by the passes alone, in place. -/
theorem convert_apart (h : m.convert o = .ok m') :
    List.Forall₂ (fun t t' => t.Converts (m.setting o) t' ∧ Alike t t')
      (m.items.filter (Tree.isApart o)) (m'.items.filter (Tree.isApart o)) := by
  obtain ⟨m₄, σ, -, h₁, hbody, hens⟩ := convert_items h
  have htarget : ∀ t : Tree, t.importsFrom o.targetModule = true → t.isApart o = false := by
    intro t ht
    simp [Tree.isApart, ht]
  have hyup : ∀ t : Tree, t.importsFrom o.yupModule = true → t.isApart o = false := by
    intro t ht
    simp [Tree.isApart, ht]
  have hremoved : ((Context.convert (m.setting o) m).removeImports o.sourceModule).items.filter (Tree.isApart o) =
      (Context.convert (m.setting o) m).items.filter (Tree.isApart o) := by
    rw [removeImports, List.filter_filter]
    refine List.filter_congr fun t _ => ?_
    cases ht : t.importsFrom o.sourceModule <;> simp [Tree.isApart, ht]
  have happly := List.rel_filter (fun _ _ h => Bool.eq_iff_iff.mp (isApart_eq o h.2).symm) hbody
  rw [withImports, filter_insertImports _ _ _ htarget hyup, hremoved] at happly
  rw [hens.filter_eq htarget]
  have hcontext := List.rel_filter (fun _ _ h => Bool.eq_iff_iff.mp (isApart_eq o h.2).symm) h₁
  refine forall₂_comp_of_mem hcontext happly ?_
  rintro t - t₁ t' ⟨hcontext, halike₁⟩ ⟨hconverts, halike⟩
  exact ⟨⟨t₁, hcontext, hconverts⟩, halike₁.trans halike⟩

/-- The conversion as a whole tends the imports, if it does not read and write the same module. -/
theorem convert_tended (htarget : o.sourceModule ≠ o.targetModule) (hyup : o.sourceModule ≠ o.yupModule)
    (h : m.convert o = .ok m') : Tended Evolves o (m.importPlace? o.sourceModule) m.items m'.items := by
  obtain ⟨m₄, σ, -, h₁, hbody, hens⟩ := convert_items h
  have halike₁ := h₁.imp fun _ _ h => h.2
  obtain ⟨hstart, hkept⟩ := Tended.start htarget hyup halike₁
  rw [← importPlace?, importPlace?_eq halike₁] at hstart
  have hinserted := tended_insertImports (m := (Context.convert (m.setting o) m).removeImports o.sourceModule)
    (.ofFeatures (.ofModule (m.setting o).names m)) (m.setting o).names.aliases htarget hyup hstart hkept
  exact (hinserted.evolve (hbody.imp fun _ _ h => .inl h.2)).ensure_target htarget hens

/-- All items that are no imports of the three libraries are kept, and imports among them list the
same names. -/
theorem convert_imports_of_plain (htarget : o.sourceModule ≠ o.targetModule) (hyup : o.sourceModule ≠ o.yupModule)
    (hplain : m.PlainImports) (h : m.convert o = .ok m') :
    List.Forall₂ (fun t t' => t.Converts (m.setting o) t' ∧ t.GrowsBy [] t')
        (m.items.filter (Tree.isApart o)) (m'.items.filter (Tree.isApart o)) ∧
      Tended (fun t t' => ∃ extra, t.GrowsBy extra t') o (m.importPlace? o.sourceModule) m.items m'.items := by
  constructor
  · refine forall₂_imp_of_mem (convert_apart h) ?_
    rintro t ht t' ⟨hconverts, halike⟩
    exact ⟨hconverts, halike.growsBy_nil (hplain t (List.mem_filter.mp ht).1)⟩
  · refine (convert_tended htarget hyup h).mono ?_
    intro t ht t' hevolves
    exact hevolves.growsBy (hplain t ht)

/-- The imports of a file after its conversion. All items that are no imports of the three libraries
are kept in their order, each converted by itself, and imports among them list the same names. Of
the form library no import is left. Of the other two, imports that were there keep what they
list at the front; at most one is put in, if none was open before, and that of the target
library at the place of the first import of the form library, behind the items that were in
front of it. -/
theorem convert_imports (o : Options) (text : String) (source : Source) (m' : Module)
    (htarget : o.sourceModule ≠ o.targetModule) (hyup : o.sourceModule ≠ o.yupModule)
    (hread : Source.read? text = some source) (h : source.module.convert o = .ok m') :
    List.Forall₂ (fun t t' => t.Converts (source.module.setting o) t' ∧ t.GrowsBy [] t')
        (source.module.items.filter (Tree.isApart o)) (m'.items.filter (Tree.isApart o)) ∧
      Tended (fun t t' => ∃ extra, t.GrowsBy extra t') o (source.module.importPlace? o.sourceModule)
        source.module.items m'.items :=
  convert_imports_of_plain htarget hyup (Source.read?_plainImports hread) h

/-- What is seen in a file and its conversion. -/
theorem exists_convert_of_any (text : String) {P : Module → Module → Bool}
    (h : ((Source.read? text).any fun source => (source.module.convert o).toOption.any (P source.module)) = true) :
    ∃ source m', Source.read? text = some source ∧ source.module.convert o = .ok m' ∧ P source.module m' = true := by
  obtain ⟨source, hread, h⟩ := (Option.any_eq_true _ _).mp h
  refine ⟨source, ?_⟩
  cases hm : source.module.convert o with
  | ok m' =>
      rw [hm] at h
      exact ⟨m', hread, rfl, h⟩
  | error e =>
      rw [hm] at h
      cases h

/-- A file that imports the whole target library and then the hook of the form library. -/
def hookUser : String :=
  "import * as All from '@conform-to/react'; import \x7b useFormikContext \x7d from 'formik';
function F() \x7b const form = useFormikContext(); \x7d"

/-- The import that it gets stands at place 1, where that of the form library was. -/
theorem hookUser_imports :
    ∃ source m', Source.read? hookUser = some source ∧ source.module.convert {} = .ok m' ∧
      (m'.items[1]?).any (·.importsFrom "@conform-to/react") = true ∧
      Tended (fun t t' => ∃ extra, t.GrowsBy extra t') {} (source.module.importPlace? "formik")
        source.module.items m'.items := by
  obtain ⟨source, m', hread, h, hnew⟩ := exists_convert_of_any (o := {}) hookUser
    (P := fun _ m' => (m'.items[1]?).any (·.importsFrom "@conform-to/react")) (by decide +kernel)
  exact ⟨source, m', hread, h, hnew, (convert_imports {} hookUser source m' (by decide) (by decide) hread h).2⟩

/-- A file with an import that says something about its module. -/
def clauseUser : String := "import a from 'b' with \x7b type: fields.x \x7d;"

/-- An import of yet another library need not stay as it is: reads of `fields` are spelled out in its
attribute clause, too. -/
theorem attribute_clause_rewritten :
    ¬ ∀ (o : Options) (text : String) (source : Source) (m' : Module),
      o.sourceModule ≠ o.targetModule → o.sourceModule ≠ o.yupModule → Source.read? text = some source →
      source.module.convert o = .ok m' → m'.items.filter (fun t => t.isImport && t.isApart o) =
        source.module.items.filter fun t => t.isImport && t.isApart o := by
  intro hclaim
  -- `x` is a key in the file, and a string afterwards
  let spells (ts : List Tree) : Bool := ts.any fun t => t.any Tree.nowhere fun u => u.string? == some "x"
  obtain ⟨source, m', hread, h, hspells⟩ := exists_convert_of_any (o := {}) clauseUser
    (P := fun m m' => spells (m'.items.filter fun t => t.isImport && t.isApart {}) &&
      !spells (m.items.filter fun t => t.isImport && t.isApart {})) (by decide +kernel)
  rw [hclaim {} clauseUser source m' (by decide) (by decide) hread h, Bool.and_not_self] at hspells
  cases hspells

end Module

end FormCodemod
