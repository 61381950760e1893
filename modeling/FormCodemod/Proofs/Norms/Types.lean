import FormCodemod.Proofs.Imports.Provided
import FormCodemod.Proofs.Norms.Passes

/-!
# Modules without types

A module without types stays without them, unless the options ask for types
(`Module.convert_isTyped`). No pass makes a node with types by itself, except for the parameters
of made functions; what else a pass puts in is made without types or was in the module before.

The names that the module has for the library's exports do not matter, so this is shown for the conversion
under any names (`Module.convertUnder`).
-/

namespace FormCodemod.Module

variable {n : Norm} {o : Options} {m m' : Module} {names : LibraryNames}

/-! ## Imports -/

section Imports

variable {source : String} {symbols : List String} {aliases : Renaming} {place : Option Nat} {items' : List Tree}

theorem meets_specifier (x : String) : (Imports.specifier aliases x).Meets n := by
  unfold Imports.specifier Make.importSpecifier
  split
  · simp
  · simp

theorem meets_specifiers {xs : List String} : ∀ t ∈ xs.map (Imports.specifier aliases), t.Meets n := by
  intro t ht
  obtain ⟨x, -, rfl⟩ := List.mem_map.mp ht
  exact meets_specifier x

/-- Ensured imports meet every norm. -/
theorem Ensured.meets (h : Ensured source symbols aliases place m items') (hm : m.Meets n) : ∀ t ∈ items', t.Meets n := by
  cases h with
  | nothing h => exact hm
  | @merged pre post t d hitems hd hsource hopen =>
      unfold Meets at hm
      rw [hitems] at hm
      refine forall_mem_replace hm ?_
      obtain ⟨extra, heq, -⟩ := Imports.exists_foldl_addSpecifier aliases symbols d.specifiers
      have hmeets := hm t (by simp)
      rw [← Tree.toTree_of_import? hd, ImportDecl.toTree] at hmeets
      simp at hmeets
      -- the specifiers that were there are kept, and only made ones are added
      have hspecs : ∀ s ∈ (d.add aliases symbols).specifiers, s.Meets n := by
        show ∀ s ∈ symbols.foldl (Imports.addSpecifier aliases) d.specifiers, s.Meets n
        rw [heq]
        intro s hs
        rcases List.mem_append.mp hs with hs | hs
        · exact hmeets.1 s hs
        · exact meets_specifiers s hs
      rw [ImportDecl.toTree]
      simpa using ⟨hspecs, hmeets.2⟩
  | inserted h =>
      intro t ht
      rcases mem_insertAt.mp ht with ht | ht
      · obtain rfl := List.mem_singleton.mp ht
        have hspecs : ∀ s ∈ (Imports.ordered symbols).map (Imports.specifier aliases), s.Meets n := meets_specifiers
        simpa [Imports.made, Make.importDecl] using hspecs
      · exact hm t ht

theorem meets_ensureImports (source : String) (symbols : List String) (aliases : Renaming) (place : Option Nat)
    (hm : m.Meets n) : (m.ensureImports source symbols aliases place).Meets n := by
  obtain ⟨items', heq, hensured⟩ := m.ensured source symbols aliases place
  rw [heq]
  exact hensured.meets hm

theorem meets_insertImports (o : Options) (plan : ImportPlan) (aliases : Renaming) (place : Option Nat)
    (hm : m.Meets n) : (m.insertImports o plan aliases place).Meets n := by
  unfold insertImports
  dsimp only
  split
  · exact meets_ensureImports _ _ _ _ (meets_ensureImports _ _ _ _ hm)
  · exact meets_ensureImports _ _ _ _ hm

theorem meets_removeImports (source : String) (hm : m.Meets n) : (m.removeImports source).Meets n :=
  fun t ht => hm t (List.mem_filter.mp ht).1

end Imports

/-! ## The conversion -/

/-- The conversion of a module that has the given names for the exports of the library. -/
def convertUnder (names : LibraryNames) (o : Options) (m : Module) : Except ConvertError Module := do
  let s : Setting := { names, typed := o.typescript.getD m.isTyped }
  let plan := ImportPlan.ofFeatures (.ofModule names m)
  let m := Context.convert s m
  let place := m.importPlace? o.sourceModule
  let m := (m.removeImports o.sourceModule).insertImports o plan names.aliases place
  let m := FieldHook.convert s m
  let (m, symbols) ← (convertMarkup s m).run {}
  let m := Fieldset.normalize m
  return m.ensureImports o.targetModule symbols.toList [] place

/-- A module is converted under the names that its imports give. -/
theorem convert_eq_convertUnder (o : Options) (m : Module) :
    m.convert o = m.convertUnder (.ofModule o.sourceModule m) o := rfl

/-- The markup steps keep a module to every norm that allows the setting. -/
theorem meets_convertMarkup {s : Setting} {σ σ' : Symbols} (hs : n.Allows s) (hm : m.Meets n)
    (h : (convertMarkup s m).run σ = .ok (m', σ')) : m'.Meets n := by
  obtain ⟨m₁, σ₁, hwrapper, hmarkup⟩ := convertMarkup_inv h
  exact FieldMarkup.meets_convert (FormWrapper.meets_convert hs hm hwrapper) hmarkup

/-- A conversion keeps a module to the norms that allow what it makes. -/
theorem meets_convertUnder (hs : n.Allows { names, typed := o.typescript.getD m.isTyped }) (hm : m.Meets n)
    (h : m.convertUnder names o = .ok m') : m'.Meets n := by
  unfold convertUnder at h
  simp only [bind, Except.bind] at h
  split at h
  · cases h
  · next r hr =>
      cases h
      have hcontext := Context.meets_convert hs hm
      have himports := fun plan place =>
        meets_insertImports o plan names.aliases place (meets_removeImports o.sourceModule hcontext)
      have hmarkup := meets_convertMarkup hs (FieldHook.meets_convert hs (himports _ _)) hr
      exact meets_ensureImports _ _ _ _ (Fieldset.meets_normalize hmarkup)

/-- To be without type syntax is a norm. -/
theorem isTyped_iff_meets : m.isTyped = false ↔ m.Meets { types := false, ends := false } := by
  have hadmits : (fun t : Tree => !({ types := false, ends := false } : Norm).admits t) = Tree.isTypeSyntax := by
    funext t
    simp [Norm.admits]
  rw [meets_iff_any, hadmits, isTyped]

/-- A module without types gets none, whatever it calls the library's exports, unless the options ask
for types. -/
theorem convert_isTyped (names : LibraryNames) (o : Options) (m : Module) (hm : m.isTyped = false)
    (ho : o.typescript ≠ some true) :
    (∀ m', m.convertUnder names o = .ok m' → m'.isTyped = false) ∧
      ∀ m', m.convert o = .ok m' → m'.isTyped = false := by
  have htyped : o.typescript.getD m.isTyped = false := by
    rw [hm]
    cases htypes : o.typescript with
    | none => rfl
    | some b =>
        cases b with
        | false => rfl
        | true => exact absurd htypes ho
  have hunder : ∀ names m', m.convertUnder names o = .ok m' → m'.isTyped = false := by
    intro names m' h
    have hs : Norm.Allows { types := false, ends := false } { names, typed := o.typescript.getD m.isTyped } := by
      intro hs
      exact absurd hs (by simp [htyped])
    exact isTyped_iff_meets.mpr (meets_convertUnder hs (isTyped_iff_meets.mp hm) h)
  exact ⟨hunder names, fun m' h => hunder _ m' (m.convert_eq_convertUnder o ▸ h)⟩

/-- `const F = () => { const [x, y, helpers] = useField("a"); return helpers; }` -/
def setterUser : Module where
  origin := .made
  items := [Make.constNamed "F" (Make.arrow [] (Make.block
    [Make.const (Make.arrayPat ["x", "y", "helpers"]) (Make.callNamed "useField" [Make.str "a"]),
      Make.ret (Make.ident "helpers")]))]

set_option maxRecDepth 4000 in
/-- The setters that are made there have no types, and they have some if the options ask for them. -/
theorem setterUser_isTyped :
    setterUser.isTyped = false ∧ (∃ m', setterUser.convert {} = .ok m' ∧ m'.isTyped = false) ∧
      ∃ m', setterUser.convert { typescript := some true } = .ok m' ∧ m'.isTyped = true := by
  have hm : setterUser.isTyped = false := by decide
  obtain ⟨m', hm'⟩ : ∃ m', setterUser.convert {} = .ok m' := ⟨_, rfl⟩
  refine ⟨hm, ⟨m', hm', (convert_isTyped {} {} setterUser hm nofun).2 m' hm'⟩, _, rfl, ?_⟩
  decide

end FormCodemod.Module
