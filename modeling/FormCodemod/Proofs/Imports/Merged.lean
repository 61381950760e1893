import FormCodemod.Proofs.Imports.Ensured

/-!
# The merge of imports

Whichever way `Module.ensureImports` goes, the outcome is the same (`Module.ensureImports_complete`): all the symbols are
provided by the first open import of the library, none of them more often than once unless it was so before, the other
items are as they were, and asking for the symbols again changes nothing.

The two ways meet in `Module.ensureImports_of_provided`: where the first open import of the library provides what is
asked for, nothing is done. What is put in is recognized as such an import like any other.
-/

namespace FormCodemod

open Imports (specifier)

/-! ## Specifiers -/

def Tree.isTypeSpecifier : Tree → Bool
  | .item _ (.importNamed typeOnly) _ => typeOnly
  | _ => false

/-- The specifiers import the symbols one after the other, as values, each under the name that the module has for it. -/
def Imports.Lists (aliases : Renaming) (symbols : List String) (specifiers : List Tree) : Prop :=
  List.Forall₂ (fun x s => s.namedSpecifier? = some (x, (aliases.get? x).getD x) ∧ s.isTypeSpecifier = false)
    symbols specifiers

namespace Imports

variable {aliases : Renaming} {symbols : List String} {x : String}

/-- Made specifiers list their symbols. -/
theorem lists_map_specifier (aliases : Renaming) (symbols : List String) :
    Lists aliases symbols (symbols.map (specifier aliases)) := by
  have hvalue : ∀ x, (specifier aliases x).isTypeSpecifier = false := by
    intro x
    unfold specifier Make.importSpecifier
    split
    · rfl
    · rfl
  rw [Lists, List.forall₂_map_right_iff, List.forall₂_same]
  exact fun x _ => ⟨namedSpecifier?_specifier aliases x, hvalue x⟩

/-- Each symbol is listed once, in the order of the known ones as far as it is one of them. -/
theorem ordered_inv (symbols : List String) :
    ∃ known others, ordered symbols = known ++ others ∧ known.Sublist canonicalOrder ∧
      (∀ x ∈ others, x ∉ canonicalOrder) ∧ (ordered symbols).Nodup := by
  have hothers : ∀ x ∈ (symbols.filter fun s => !canonicalOrder.contains s).eraseDups, x ∉ canonicalOrder := by
    intro x hx
    rw [List.mem_eraseDups, List.mem_filter] at hx
    simpa using hx.2
  have hknown : (canonicalOrder.filter symbols.contains).Sublist canonicalOrder := List.filter_sublist
  refine ⟨_, _, rfl, hknown, hothers, ?_⟩
  apply List.nodup_append.mpr
  refine ⟨hknown.nodup (by decide), nodup_eraseDups _, ?_⟩
  rintro x hx y hy rfl
  exact hothers x hy (hknown.subset hx)

end Imports

/-! ## Imports with the symbols that they lacked -/

namespace ImportDecl

variable {d : ImportDecl} {aliases : Renaming} {symbols : List String} {x : String}

def count (d : ImportDecl) (x : String) : Nat := d.specifiers.countP fun s => s.importedName? == some x

theorem provides_eq_false_iff : Imports.provides d.specifiers x = false ↔ d.count x = 0 := by
  rw [Imports.provides, List.any_eq_false, count, List.countP_eq_zero]

/-- The specifiers of an import to which symbols are added. -/
theorem exists_add (d : ImportDecl) (aliases : Renaming) (symbols : List String) :
    ∃ extra : List String, d.add aliases symbols = { d with specifiers := d.specifiers ++ extra.map (specifier aliases) } ∧
      extra.Nodup ∧ ∀ x, x ∈ extra ↔ x ∈ symbols ∧ d.count x = 0 := by
  obtain ⟨extra, heq, hextra, hnodup, hall⟩ := Imports.exists_foldl_addSpecifier aliases symbols d.specifiers
  refine ⟨extra, ?_, hnodup, ?_⟩
  · rw [add, heq]
  · intro x
    constructor
    · intro hx
      exact ⟨(hextra x hx).1, provides_eq_false_iff.mp (hextra x hx).2⟩
    · rintro ⟨hx, hcount⟩
      apply (hall x hx).resolve_left
      rw [provides_eq_false_iff.mpr hcount]
      exact Bool.false_ne_true

theorem countP_map_specifier (aliases : Renaming) (symbols : List String) (x : String) :
    (symbols.map (specifier aliases)).countP (fun s => s.importedName? == some x) = symbols.count x := by
  rw [List.countP_map, List.count_eq_countP]
  apply List.countP_congr
  intro y _
  simp [Imports.importedName?_specifier]

/-- A symbol is provided once more if it is asked for and was lacking. -/
theorem count_add (d : ImportDecl) (aliases : Renaming) (symbols : List String) (x : String) :
    (d.add aliases symbols).count x = if x ∈ symbols ∧ d.count x = 0 then 1 else d.count x := by
  obtain ⟨extra, heq, hnodup, hmem⟩ := d.exists_add aliases symbols
  have hcount : (d.add aliases symbols).count x = d.count x + extra.count x := by
    rw [heq, count, List.countP_append, countP_map_specifier]
    rfl
  rw [hcount, hnodup.count]
  simp only [hmem]
  split
  next h => rw [h.2]
  next => rw [Nat.add_zero]

/-- An added symbol is provided. -/
theorem pos_count_add (hx : x ∈ symbols) : 0 < (d.add aliases symbols).count x := by
  rw [count_add]
  split
  next => exact Nat.one_pos
  next h =>
    apply Nat.pos_of_ne_zero
    intro hzero
    exact h ⟨hx, hzero⟩

/-- No symbol is provided more often than once, unless it was before. -/
theorem count_add_le (d : ImportDecl) (aliases : Renaming) (symbols : List String) (x : String) :
    (d.add aliases symbols).count x ≤ max 1 (d.count x) := by
  rw [count_add]
  split
  next => exact Nat.le_max_left ..
  next => exact Nat.le_max_right ..

/-- Nothing is added to an import that provides all the symbols. -/
theorem add_eq_self (h : ∀ x ∈ symbols, 0 < d.count x) : d.add aliases symbols = d := by
  obtain ⟨extra, heq, -, hmem⟩ := d.exists_add aliases symbols
  have hnil : extra = [] := by
    apply List.eq_nil_iff_forall_not_mem.mpr
    intro x hx
    obtain ⟨hx, hzero⟩ := (hmem x).mp hx
    have hpos := h x hx
    omega
  rw [heq, hnil, List.map_nil, List.append_nil]

/-- The import `d'` is the import `d` with specifiers at its end for those of the symbols that it lacked. -/
def IsCompleted (aliases : Renaming) (symbols : List String) (d d' : ImportDecl) : Prop :=
  ∃ extra added, d' = { d with specifiers := d.specifiers ++ added } ∧ Imports.Lists aliases extra added ∧ extra.Nodup ∧
    ∀ x, x ∈ extra ↔ x ∈ symbols ∧ d.count x = 0

/-- The import was made for the symbols: it lists each of them once, the known ones first and in their order. -/
def IsMadeFor (aliases : Renaming) (symbols : List String) (d : ImportDecl) : Prop :=
  ∃ known others, Imports.Lists aliases (known ++ others) d.specifiers ∧ (known ++ others).Nodup ∧
    (∀ x, x ∈ known ++ others ↔ x ∈ symbols) ∧ known.Sublist Imports.canonicalOrder ∧
      ∀ x ∈ others, x ∉ Imports.canonicalOrder

/-- An import with the symbols that it lacked is complete. -/
theorem isCompleted_add (d : ImportDecl) (aliases : Renaming) (symbols : List String) :
    d.IsCompleted aliases symbols (d.add aliases symbols) := by
  obtain ⟨extra, heq, hnodup, hmem⟩ := d.exists_add aliases symbols
  exact ⟨extra, _, heq, Imports.lists_map_specifier aliases extra, hnodup, hmem⟩

end ImportDecl

/-- The import that is put in, taken apart. -/
theorem Imports.exists_made (source : String) (aliases : Renaming) (symbols : List String) :
    ∃ d : ImportDecl, made source aliases symbols = d.toTree ∧ d.sourceName = source ∧ d.isOpen = true ∧
      d.IsMadeFor aliases symbols ∧ ∀ x, d.count x = if x ∈ symbols then 1 else 0 := by
  obtain ⟨d, hd, hopen⟩ := (Option.any_eq_true ..).mp (isOpenImport_made source aliases symbols)
  rw [Bool.and_eq_true, beq_iff_eq] at hopen
  have hspecifiers : d.specifiers = (ordered symbols).map (specifier aliases) := by
    cases hd
    rfl
  obtain ⟨known, others, heq, hknown, hothers, hnodup⟩ := ordered_inv symbols
  refine ⟨d, (Tree.toTree_of_import? hd).symm, hopen.1, hopen.2, ⟨known, others, ?_⟩, ?_⟩
  · rw [← heq, hspecifiers]
    exact ⟨lists_map_specifier aliases _, hnodup, fun x => mem_ordered, hknown, hothers⟩
  · intro x
    rw [ImportDecl.count, hspecifiers, ImportDecl.countP_map_specifier, hnodup.count]
    simp only [mem_ordered]

/-! ## Modules -/

namespace Module

variable {source : String} {symbols : List String} {aliases : Renaming} {place : Option Nat} {m : Module}

/-- Nothing is done where the first open import of the library provides all the symbols. -/
theorem ensureImports_of_provided {pre post : List Tree} {d : ImportDecl} (hitems : m.items = pre ++ d.toTree :: post)
    (hfirst : ∀ t ∈ pre, t.isOpenImport source = false) (hsource : d.sourceName = source) (hopen : d.isOpen = true)
    (h : ∀ x ∈ symbols, 0 < d.count x) : m.ensureImports source symbols aliases place = m := by
  have hmerge : d.toTree.mergeImport? source aliases symbols = some (d.toTree, ()) := by
    apply Tree.mergeImport?_eq_some_iff.mpr
    exact ⟨d, rfl, hsource, hopen, by rw [ImportDecl.add_eq_self h]⟩
  have hmap : mapFirst? (Tree.mergeImport? source aliases symbols) m.items = some (m.items, pre.length, ()) := by
    rw [hitems]
    exact mapFirst?_append (fun t ht => Tree.mergeImport?_eq_none_iff.mpr (hfirst t ht)) hmerge
  unfold ensureImports
  split
  · rfl
  · rw [hmap]

/-- Afterwards the first open import of the library provides all the symbols. It is one that was there, with what it
lacked, or one that was made for them because none was open. No symbol is provided more often than once unless it was
before, all other items are as they were, and to ask for the symbols or some of them again changes nothing. -/
theorem ensureImports_complete (source : String) (symbols : List String) (aliases : Renaming) (place : Option Nat)
    (m : Module) (hsymbols : symbols ≠ []) :
    ∃ (pre post : List Tree) (d' : ImportDecl),
      m.ensureImports source symbols aliases place = { m with items := pre ++ d'.toTree :: post } ∧
      (∀ t ∈ pre, t.isOpenImport source = false) ∧ d'.sourceName = source ∧ d'.isOpen = true ∧
      (∀ x ∈ symbols, 0 < d'.count x) ∧
      ((∃ d : ImportDecl, m.items = pre ++ d.toTree :: post ∧ d.sourceName = source ∧ d.isOpen = true ∧
          d.IsCompleted aliases symbols d' ∧ ∀ x, d'.count x ≤ max 1 (d.count x)) ∨
        m.items = pre ++ post ∧ (∀ t ∈ m.items, t.isOpenImport source = false) ∧ d'.IsMadeFor aliases symbols ∧
          (∀ x, d'.count x ≤ 1) ∧ pre.length = min (place.getD m.afterImports) m.items.length) ∧
      ∀ symbols' aliases' place', (∀ x ∈ symbols', x ∈ symbols) →
        (m.ensureImports source symbols aliases place).ensureImports source symbols' aliases' place' =
          m.ensureImports source symbols aliases place := by
  obtain ⟨items', heq, hens⟩ := ensured source symbols aliases place m
  rw [heq]
  cases hens with
  | nothing h => exact absurd h hsymbols
  | @merged pre post t d hitems hd hsource hopen hfirst =>
      have hopen' : (d.add aliases symbols).isOpen = true := (d.extends_add aliases symbols).isOpen_eq.trans hopen
      rw [← Tree.toTree_of_import? hd] at hitems
      refine ⟨pre, post, d.add aliases symbols, rfl, hfirst, hsource, hopen', fun x hx => ImportDecl.pos_count_add hx,
        .inl ⟨d, hitems, hsource, hopen, d.isCompleted_add aliases symbols, d.count_add_le aliases symbols⟩, ?_⟩
      intro symbols' aliases' place' hsub
      exact ensureImports_of_provided rfl hfirst hsource hopen' fun x hx => ImportDecl.pos_count_add (hsub x hx)
  | inserted hnone =>
      -- the made import is open itself, so that another call finds it first
      obtain ⟨d, hmade, hsource, hopen, hfor, hcount⟩ := Imports.exists_made source aliases symbols
      generalize hn : place.getD m.afterImports = n
      have hinsert : insertAt n [Imports.made source aliases symbols] m.items = m.items.take n ++ d.toTree :: m.items.drop n := by
        rw [insertAt, hmade, List.append_assoc]
        rfl
      have hprovided : ∀ x ∈ symbols, 0 < d.count x := by
        intro x hx
        rw [hcount, if_pos hx]
        exact Nat.one_pos
      have hfirst : ∀ t ∈ m.items.take n, t.isOpenImport source = false := fun t ht => hnone t (List.mem_of_mem_take ht)
      rw [hinsert]
      refine ⟨_, _, d, rfl, hfirst, hsource, hopen, hprovided, .inr ⟨?_, hnone, hfor, ?_, List.length_take⟩, ?_⟩
      · exact (List.take_append_drop n m.items).symm
      · intro x
        rw [hcount]
        split <;> omega
      · intro symbols' aliases' place' hsub
        exact ensureImports_of_provided rfl hfirst hsource hopen fun x hx => hprovided x (hsub x hx)

/-- `import * as All from "lib"; import { useForm as useIt } from "lib"; done;` -/
def aliasUser : Module where
  origin := .made
  items :=
    [.item .made (.importDecl false "") [.list [.item .made .importStar [Make.name "All"]], Make.str "lib", .absent],
      Make.importDecl "lib" [Make.importSpecifier "useForm" "useIt"], Make.exprStmt (Make.ident "done")]

/-- One specifier is added to the second import, once and under its alias, and no other call adds more. -/
theorem aliasUser_complete :
    ["getInputProps", "useForm", "getInputProps"] ≠ [] ∧
      (aliasUser.ensureImports "lib" ["getInputProps", "useForm", "getInputProps"] [("getInputProps", "props")] none).items =
        aliasUser.items.take 1 ++
          [Make.importDecl "lib" [Make.importSpecifier "useForm" "useIt", Make.importSpecifier "getInputProps" "props"]] ++
          aliasUser.items.drop 2 ∧
      ∀ aliases place,
        (aliasUser.ensureImports "lib" ["getInputProps", "useForm", "getInputProps"] [("getInputProps", "props")] none).ensureImports
            "lib" ["useForm", "useForm"] aliases place =
          aliasUser.ensureImports "lib" ["getInputProps", "useForm", "getInputProps"] [("getInputProps", "props")] none := by
  have hsymbols : ["getInputProps", "useForm", "getInputProps"] ≠ [] := List.cons_ne_nil _ _
  obtain ⟨_, _, _, -, -, -, -, -, -, hagain⟩ := ensureImports_complete "lib" _ [("getInputProps", "props")] none aliasUser hsymbols
  exact ⟨hsymbols, rfl, fun aliases place => hagain _ aliases place (by decide)⟩

end Module

end FormCodemod
