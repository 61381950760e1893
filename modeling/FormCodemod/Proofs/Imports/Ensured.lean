import FormCodemod.Convert.Imports
import FormCodemod.Proofs.Tree.Alike

/-!
# Ensuring imports

`Module.ensureImports` does one of three things (`Module.ensured`): nothing, if no symbols are asked
for; it adds what is missing to the first open import of the library; or it puts in an import of its
own, if there is none to add to. Whatever it does, the items it does not add to stay as they are.
-/

namespace FormCodemod

/-! ## The first item with an answer -/

section MapFirst

variable {α β : Type} {f : α → Option (α × β)}

/-- Nothing is replaced exactly if the rule answers for no item. -/
theorem mapFirst?_eq_none {as : List α} : mapFirst? f as = none ↔ ∀ a ∈ as, f a = none := by
  induction as with
  | nil => simp [mapFirst?]
  | cons a as ih =>
      rw [mapFirst?]
      cases h : f a with
      | some r => simp [h]
      | none => simp [h, ih]

/-- The item that was replaced, with what is in front of it and behind it. There is no answer for those in front. -/
theorem mapFirst?_eq_some {as bs : List α} {n : Nat} {b : β} (h : mapFirst? f as = some (bs, n, b)) :
    ∃ pre a a' post, as = pre ++ a :: post ∧ f a = some (a', b) ∧ bs = pre ++ a' :: post ∧ n = pre.length ∧
      ∀ c ∈ pre, f c = none := by
  induction as generalizing bs n with
  | nil => cases h
  | cons a as ih =>
      rw [mapFirst?] at h
      cases hfa : f a with
      | some r =>
          rw [hfa] at h
          cases h
          exact ⟨[], a, _, as, rfl, hfa, rfl, rfl, nofun⟩
      | none =>
          rw [hfa] at h
          obtain ⟨⟨cs, i, c⟩, hcs, heq⟩ := Option.map_eq_some_iff.mp h
          cases heq
          obtain ⟨pre, x, x', post, rfl, hx, rfl, rfl, hpre⟩ := ih hcs
          exact ⟨a :: pre, x, x', post, rfl, hx, rfl, rfl, List.forall_mem_cons.mpr ⟨hfa, hpre⟩⟩

/-- The item that is replaced is the first one that the rule answers for. -/
theorem mapFirst?_append {pre post : List α} {a a' : α} {b : β} (hpre : ∀ c ∈ pre, f c = none) (ha : f a = some (a', b)) :
    mapFirst? f (pre ++ a :: post) = some (pre ++ a' :: post, pre.length, b) := by
  induction pre with
  | nil =>
      show mapFirst? f (a :: post) = some (a' :: post, 0, b)
      rw [mapFirst?, ha]
  | cons c pre ih =>
      obtain ⟨hc, hpre⟩ := List.forall_mem_cons.mp hpre
      rw [List.cons_append, mapFirst?, hc, ih hpre]
      rfl

/-- What holds of all items still does so if one is replaced by an item of which it holds. -/
theorem forall_mem_replace {P : α → Prop} {pre post : List α} {a a' : α}
    (h : ∀ b ∈ pre ++ a :: post, P b) (ha' : P a') : ∀ b ∈ pre ++ a' :: post, P b := by
  intro b hb
  rcases List.mem_append.mp hb with hb | hb
  · exact h b (List.mem_append_left _ hb)
  · rcases List.mem_cons.mp hb with rfl | hb
    · exact ha'
    · exact h b (List.mem_append_right _ (List.mem_cons_of_mem _ hb))

end MapFirst

/-! ## Specifiers -/

namespace Imports

variable {aliases : Renaming} {specifiers : List Tree} {symbol : String} {symbols : List String}

/-- A made specifier imports its symbol, under the name that the module has for it. -/
theorem namedSpecifier?_specifier (aliases : Renaming) (symbol : String) :
    (specifier aliases symbol).namedSpecifier? = some (symbol, (aliases.get? symbol).getD symbol) := by
  unfold specifier Make.importSpecifier
  split
  · next h =>
      rw [← beq_iff_eq.mp h]
      rfl
  · rfl

theorem importedName?_specifier (aliases : Renaming) (symbol : String) :
    (specifier aliases symbol).importedName? = some symbol :=
  Tree.importedName?_of_named (namedSpecifier?_specifier aliases symbol)

theorem isStarSpecifier_specifier (aliases : Renaming) (symbol : String) :
    (specifier aliases symbol).isStarSpecifier = false := by
  unfold specifier Make.importSpecifier
  split <;> rfl

/-- One more specifier provides its symbol and takes none away. -/
theorem provides_append_specifier (specifiers : List Tree) (x y : String) :
    provides (specifiers ++ [specifier aliases x]) y = (provides specifiers y || x == y) := by
  simp [provides, importedName?_specifier]

/-- What is added to the specifiers of an import: one for each symbol that was lacking. -/
theorem exists_foldl_addSpecifier (aliases : Renaming) (symbols : List String) (specifiers : List Tree) :
    ∃ extra : List String, symbols.foldl (addSpecifier aliases) specifiers = specifiers ++ extra.map (specifier aliases) ∧
      (∀ x ∈ extra, x ∈ symbols ∧ provides specifiers x = false) ∧ extra.Nodup ∧
      ∀ x ∈ symbols, provides specifiers x = true ∨ x ∈ extra := by
  induction symbols generalizing specifiers with
  | nil => exact ⟨[], by simp, by simp, .nil, by simp⟩
  | cons x xs ih =>
      obtain ⟨extra, heq, hmem, hnodup, hall⟩ := ih (addSpecifier aliases specifiers x)
      rw [List.foldl_cons, heq]
      -- a symbol that is added counts as provided from then on, so it is not added twice
      by_cases hx : provides specifiers x = true
      · have hadd : addSpecifier aliases specifiers x = specifiers := if_pos hx
        rw [hadd] at hmem hall ⊢
        refine ⟨extra, rfl, ?_, hnodup, ?_⟩
        · intro y hy
          exact ⟨List.mem_cons_of_mem _ (hmem y hy).1, (hmem y hy).2⟩
        · intro y hy
          rcases List.mem_cons.mp hy with rfl | hy
          · exact .inl hx
          · exact hall y hy
      · have hadd : addSpecifier aliases specifiers x = specifiers ++ [specifier aliases x] := if_neg hx
        rw [hadd] at hmem hall ⊢
        simp only [provides_append_specifier, Bool.or_eq_false_iff, beq_eq_false_iff_ne] at hmem
        simp only [provides_append_specifier, Bool.or_eq_true, beq_iff_eq] at hall
        refine ⟨x :: extra, by simp, ?_, ?_, ?_⟩
        · intro y hy
          rcases List.mem_cons.mp hy with rfl | hy
          · exact ⟨List.mem_cons_self .., Bool.eq_false_iff.mpr hx⟩
          · exact ⟨List.mem_cons_of_mem _ (hmem y hy).1, (hmem y hy).2.1⟩
        · exact List.nodup_cons.mpr ⟨fun hmem' => (hmem x hmem').2.2 rfl, hnodup⟩
        · intro y hy
          rcases List.mem_cons.mp hy with rfl | hy
          · exact .inr (List.mem_cons_self ..)
          · rcases hall y hy with (hp | rfl) | hy
            · exact .inl hp
            · exact .inr (List.mem_cons_self ..)
            · exact .inr (List.mem_cons_of_mem _ hy)

end Imports

/-! ## Imports that grow -/

namespace ImportDecl

variable {d d' d'' : ImportDecl}

/-- The second import is the first one, up to code in it, with further specifiers at the end. -/
structure Extends (d d' : ImportDecl) : Prop where
  origin : d'.origin = d.origin
  typeOnly : d'.typeOnly = d.typeOnly
  phase : d'.phase = d.phase
  specifiers : ∃ kept extra, d'.specifiers = kept ++ extra ∧ List.Forall₂ Tree.Alike d.specifiers kept ∧
    ∀ t ∈ extra, t.isStarSpecifier = false
  source : d.source.Alike d'.source
  attributes : d.attributes.Alike d'.attributes

/-- An import that is like another one extends it. -/
theorem Alike.extends (h : d.Alike d') : d.Extends d' :=
  { h with specifiers := ⟨d'.specifiers, [], (List.append_nil _).symm, h.specifiers, fun _ h => nomatch h⟩ }

namespace Extends

theorem sourceName_eq (h : d.Extends d') : d'.sourceName = d.sourceName := by
  rw [sourceName, sourceName, h.source.string?_eq]

theorem trans (h : d.Extends d') (h' : d'.Extends d'') : d.Extends d'' := by
  refine ⟨h'.origin.trans h.origin, h'.typeOnly.trans h.typeOnly, h'.phase.trans h.phase, ?_,
    h.source.trans h'.source, h.attributes.trans h'.attributes⟩
  obtain ⟨kept, extra, heq, hkept, hextra⟩ := h.specifiers
  obtain ⟨kept', extra', heq', hkept', hextra'⟩ := h'.specifiers
  rw [heq] at hkept'
  obtain ⟨kept₁, extra₁, rfl, hkept₁, hextra₁⟩ := forall₂_split hkept'
  refine ⟨kept₁, extra₁ ++ extra', by rw [heq', List.append_assoc], ?_, ?_⟩
  · exact forall₂_comp_of_mem hkept hkept₁ fun _ _ _ _ h h' => h.trans h'
  · intro t ht
    rcases List.mem_append.mp ht with ht | ht
    · obtain ⟨u, hu, hut⟩ := forall₂_exists_left hextra₁ ht
      rw [hut.isStarSpecifier_eq, hextra u hu]
    · exact hextra' t ht

/-- What is open stays open, and what is not stays so. -/
theorem isOpen_eq (h : d.Extends d') : d'.isOpen = d.isOpen := by
  obtain ⟨kept, extra, heq, hkept, hextra⟩ := h.specifiers
  have hstar : d'.specifiers.any Tree.isStarSpecifier = d.specifiers.any Tree.isStarSpecifier := by
    have hnone : extra.any Tree.isStarSpecifier = false := by
      rw [List.any_eq_false]
      intro t ht
      rw [hextra t ht]
      exact Bool.false_ne_true
    have hany : ∀ ts : List Tree, ts.any Tree.isStarSpecifier = (ts.map Tree.isStarSpecifier).any id := by
      intro ts
      rw [List.any_map]
      rfl
    have hmap := map_eq_of_forall₂ (hkept.imp fun _ _ h => h.isStarSpecifier_eq)
    rw [heq, List.any_append, hnone, Bool.or_false, hany, hany, hmap]
  rw [isOpen, isOpen, h.typeOnly, hstar]

end Extends

/-- To add symbols to an import extends it. -/
theorem extends_add (d : ImportDecl) (aliases : Renaming) (symbols : List String) :
    d.Extends (d.add aliases symbols) := by
  obtain ⟨extra, heq, -⟩ := Imports.exists_foldl_addSpecifier aliases symbols d.specifiers
  refine ⟨rfl, rfl, rfl, ⟨d.specifiers, _, heq, List.forall₂_same.mpr fun t _ => .refl t, ?_⟩, .refl _, .refl _⟩
  intro t ht
  obtain ⟨x, -, rfl⟩ := List.mem_map.mp ht
  exact Imports.isStarSpecifier_specifier aliases x

end ImportDecl

namespace Tree

/-- The second item is the first one up to code in it, or an import that extends it. -/
def Evolves (t t' : Tree) : Prop :=
  t.Alike t' ∨ ∃ d d', t.import? = some d ∧ t'.import? = some d' ∧ d.Extends d'

def isOpenImport (source : String) (t : Tree) : Bool := t.import?.any fun d => d.sourceName == source && d.isOpen

variable {t t' t'' : Tree}

/-- An import evolves to an import that extends it. -/
theorem Evolves.import? {d : ImportDecl} (h : t.Evolves t') (hd : t.import? = some d) :
    ∃ d', t'.import? = some d' ∧ d.Extends d' := by
  rcases h with h | ⟨d₁, d', hd₁, hd', hext⟩
  · obtain ⟨d', hd', halike⟩ := h.import? hd
    exact ⟨d', hd', halike.extends⟩
  · cases hd.symm.trans hd₁
    exact ⟨d', hd', hext⟩

/-- What is no import does not evolve to one. -/
theorem Evolves.import?_eq_none (h : t.Evolves t') (hd : t.import? = none) : t'.import? = none := by
  rcases h with h | ⟨d, d', hd', -⟩
  · exact h.import?_eq_none hd
  · rw [hd] at hd'
    cases hd'

theorem Evolves.trans (h : t.Evolves t') (h' : t'.Evolves t'') : t.Evolves t'' := by
  cases hd : t.import? with
  | some d =>
      obtain ⟨d', hd', hext⟩ := h.import? hd
      obtain ⟨d'', hd'', hext'⟩ := h'.import? hd'
      exact .inr ⟨d, d'', hd, hd'', hext.trans hext'⟩
  | none =>
      rcases h with h | ⟨d, -, hd', -⟩
      · rcases h' with h' | ⟨d', -, hd', -⟩
        · exact .inl (h.trans h')
        · cases (h.import?_eq_none hd).symm.trans hd'
      · cases hd.symm.trans hd'

/-- Items evolve without a change of the library that they import. -/
theorem Evolves.importsFrom_eq (h : t.Evolves t') (source : String) : t'.importsFrom source = t.importsFrom source := by
  unfold importsFrom
  cases hd : t.import? with
  | none => rw [h.import?_eq_none hd]
  | some d =>
      obtain ⟨d', hd', hext⟩ := h.import? hd
      rw [hd', Option.any_some, Option.any_some, hext.sourceName_eq]

theorem Evolves.isOpenImport_eq (h : t.Evolves t') (source : String) :
    t'.isOpenImport source = t.isOpenImport source := by
  unfold isOpenImport
  cases hd : t.import? with
  | none => rw [h.import?_eq_none hd]
  | some d =>
      obtain ⟨d', hd', hext⟩ := h.import? hd
      rw [hd', Option.any_some, Option.any_some, hext.sourceName_eq, hext.isOpen_eq]

theorem importsFrom_of_import? {d : ImportDecl} (h : t.import? = some d) (source : String) :
    t.importsFrom source = (d.sourceName == source) := by
  rw [importsFrom, h, Option.any_some]

theorem importsFrom_of_isOpenImport {source : String} (h : t.isOpenImport source = true) :
    t.importsFrom source = true := by
  obtain ⟨d, hd, hopen⟩ := (Option.any_eq_true ..).mp h
  rw [Bool.and_eq_true] at hopen
  rw [importsFrom_of_import? hd, hopen.1]

theorem toTree_of_import? {d : ImportDecl} (h : t.import? = some d) : d.toTree = t := by
  unfold import? at h
  split at h
  · cases h
    rfl
  · cases h

/-- Symbols are not added exactly to items that are no open import of the library. -/
theorem mergeImport?_eq_none_iff {source : String} {aliases : Renaming} {symbols : List String} :
    t.mergeImport? source aliases symbols = none ↔ t.isOpenImport source = false := by
  unfold mergeImport? isOpenImport
  cases t.import? with
  | none => exact iff_of_true rfl rfl
  | some d =>
      dsimp only
      rw [Option.any_some]
      split
      next h => simp [h]
      next h => simp [h]

/-- Symbols are added to an open import of the library. -/
theorem mergeImport?_eq_some_iff {source : String} {aliases : Renaming} {symbols : List String} {u : Unit} :
    t.mergeImport? source aliases symbols = some (t', u) ↔
      ∃ d, t.import? = some d ∧ d.sourceName = source ∧ d.isOpen = true ∧ t' = (d.add aliases symbols).toTree := by
  unfold mergeImport?
  cases t.import? with
  | none => simp
  | some d =>
      dsimp only
      split
      next h =>
        rw [Bool.and_eq_true, beq_iff_eq] at h
        constructor
        · intro heq
          cases heq
          exact ⟨d, rfl, h.1, h.2, rfl⟩
        · rintro ⟨d', hd, -, -, rfl⟩
          cases hd
          rfl
      next h =>
        rw [Bool.and_eq_true, beq_iff_eq] at h
        refine iff_of_false nofun ?_
        rintro ⟨d', hd, hsource, hopen, -⟩
        cases hd
        exact h ⟨hsource, hopen⟩

end Tree

/-! ## The three outcomes -/

namespace Imports

def made (source : String) (aliases : Renaming) (symbols : List String) : Tree :=
  Make.importDecl source ((ordered symbols).map (specifier aliases))

theorem isOpenImport_made (source : String) (aliases : Renaming) (symbols : List String) :
    (made source aliases symbols).isOpenImport source = true := by
  have hstar : ((ordered symbols).map (specifier aliases)).any Tree.isStarSpecifier = false := by
    simp [isStarSpecifier_specifier]
  show ((some source).getD "" == source && (!false && !_)) = true
  simp [hstar]

theorem nodup_eraseDups {α : Type} [BEq α] [LawfulBEq α] (as : List α) : as.eraseDups.Nodup := by
  induction hn : as.length using Nat.strongRecOn generalizing as with
  | _ n ih =>
      cases as with
      | nil => exact .nil
      | cons a as =>
          rw [List.eraseDups_cons, List.nodup_cons, List.mem_eraseDups]
          refine ⟨by simp, ih _ ?_ _ rfl⟩
          rw [← hn, List.length_cons]
          exact Nat.lt_succ_of_le (List.length_filter_le ..)

/-- To order symbols neither adds nor loses any. -/
theorem mem_ordered {symbols : List String} {x : String} : x ∈ ordered symbols ↔ x ∈ symbols := by
  simp only [ordered, List.mem_append, List.mem_filter, List.mem_eraseDups, Bool.not_eq_true',
    List.contains_eq_mem, decide_eq_true_eq, decide_eq_false_iff_not]
  by_cases h : x ∈ canonicalOrder
  · simp [h]
  · simp [h]

end Imports

namespace Module

/-- What becomes of the items of a module when symbols are imported from the library. -/
inductive Ensured (source : String) (symbols : List String) (aliases : Renaming) (place : Option Nat)
    (m : Module) : List Tree → Prop
  | nothing (h : symbols = []) : Ensured source symbols aliases place m m.items
  | merged {pre post : List Tree} {t : Tree} {d : ImportDecl} (hitems : m.items = pre ++ t :: post)
      (hd : t.import? = some d) (hsource : d.sourceName = source) (hopen : d.isOpen = true)
      (hfirst : ∀ u ∈ pre, u.isOpenImport source = false) :
      Ensured source symbols aliases place m (pre ++ (d.add aliases symbols).toTree :: post)
  | inserted (h : ∀ t ∈ m.items, t.isOpenImport source = false) :
      Ensured source symbols aliases place m
        (insertAt (place.getD m.afterImports) [Imports.made source aliases symbols] m.items)

/-- To ensure imports has one of three outcomes, and touches nothing but the items. -/
theorem ensured (source : String) (symbols : List String) (aliases : Renaming) (place : Option Nat) (m : Module) :
    ∃ items', m.ensureImports source symbols aliases place = { m with items := items' } ∧
      Ensured source symbols aliases place m items' := by
  unfold ensureImports
  split
  · next h => exact ⟨m.items, rfl, .nothing (List.isEmpty_iff.mp h)⟩
  · split
    · next items n hmerge =>
        obtain ⟨pre, t, t', post, hitems, ht, rfl, -, hpre⟩ := mapFirst?_eq_some hmerge
        obtain ⟨d, hd, hsource, hopen, rfl⟩ := Tree.mergeImport?_eq_some_iff.mp ht
        exact ⟨_, rfl, .merged hitems hd hsource hopen fun u hu => Tree.mergeImport?_eq_none_iff.mp (hpre u hu)⟩
    · next hnone =>
        -- no item took the symbols, so none of them is an open import of the library
        exact ⟨_, rfl, .inserted fun t ht => Tree.mergeImport?_eq_none_iff.mp (mapFirst?_eq_none.mp hnone t ht)⟩

/-- The imports of a plan are put in one after the other, those of the schema library first. -/
theorem insertImports_inv (o : Options) (plan : ImportPlan) (aliases : Renaming) (place : Option Nat) (m : Module) :
    ∃ items₁ items₂,
      (plan.yupBridge = true ∧ m.Ensured o.yupModule ["parseWithYup"] aliases place items₁ ∨
        plan.yupBridge = false ∧ items₁ = m.items) ∧
      ({ m with items := items₁ } : Module).Ensured o.targetModule plan.symbols aliases place items₂ ∧
      m.insertImports o plan aliases place = { m with items := items₂ } := by
  unfold insertImports
  cases hbridge : plan.yupBridge with
  | true =>
      obtain ⟨items₁, heq₁, hens₁⟩ := ensured o.yupModule ["parseWithYup"] aliases place m
      obtain ⟨items₂, heq₂, hens₂⟩ :=
        ensured o.targetModule plan.symbols aliases place { m with items := items₁ }
      refine ⟨items₁, items₂, .inl ⟨rfl, hens₁⟩, hens₂, ?_⟩
      rw [if_pos rfl, heq₁, heq₂]
  | false =>
      obtain ⟨items₂, heq₂, hens₂⟩ := ensured o.targetModule plan.symbols aliases place m
      refine ⟨m.items, items₂, .inr ⟨rfl, rfl⟩, hens₂, ?_⟩
      rw [if_neg Bool.false_ne_true, heq₂]

end Module

end FormCodemod
