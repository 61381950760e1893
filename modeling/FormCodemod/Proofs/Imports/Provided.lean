import FormCodemod.Proofs.Imports.Bookkeeping
import FormCodemod.Proofs.Names.Markup
import FormCodemod.Proofs.Names.Wrapper

/-!
# Names that are put in are imported

The conversion puts in five names of the target libraries by itself. `Module.convert_provides` says that
a module which has one of them after its conversion, and did not have it before, imports it.

Whether a symbol is imported is known from two sources, a plan that is made before anything is changed
and the symbols that markup collects. If neither has it, no pass puts it in: the module is clear
of it before (`Module.clear_of_unmentioned`) and stays so from pass to pass
(`Module.clear_withImports`, `Module.clear_convert`). Otherwise its import was ensured
(`Module.withImports_provides`, `Module.Ensured.provides_of_mem`), and stays.
-/

namespace FormCodemod

open FormCodemod.Tree (Alike)

/-- The symbols that a conversion puts in by itself, each with the module it is imported from. -/
def Options.emitted (o : Options) : List (String × String) :=
  [("useForm", o.targetModule), ("useFormMetadata", o.targetModule), ("getInputProps", o.targetModule),
    ("FormProvider", o.targetModule), ("parseWithYup", o.yupModule)]

namespace Tree

def identifier? : Tree → Option String
  | .expr _ (.ident x) _ => some x
  | .part _ (.name x) _ => some x
  | .pat _ (.binding x _) _ => some x
  | _ => none

/-- The item imports the symbol from the library, as a value and under its own name. -/
def Provides (source symbol : String) (t : Tree) : Prop :=
  ∃ d, t.import? = some d ∧ d.sourceName = source ∧ d.typeOnly = false ∧
    ∃ s ∈ d.specifiers, s.namedSpecifier? = some (symbol, symbol)

/-- The item imports the symbol, but not under its own name. -/
def Renames (symbol : String) (t : Tree) : Prop :=
  ∃ d s, t.import? = some d ∧ s ∈ d.specifiers ∧ s.importedName? = some symbol ∧
    s.namedSpecifier? ≠ some (symbol, symbol)

variable {source symbol : String} {t t' : Tree}

/-- A clear tree is not the symbol as an identifier. -/
theorem Clear.identifier?_ne {w : Watch} (h : t.Clear w) : t.identifier? ≠ some w.symbol := by
  unfold identifier?
  split
  · exact fun heq => (clear_ident.mp h).1 (Option.some.inj heq)
  · exact fun heq => (clear_name.mp h).1 (Option.some.inj heq)
  · exact fun heq => (clear_binding.mp h).1 (Option.some.inj heq)
  · exact nofun

/-- An item that is like a providing one provides the symbol. -/
theorem Alike.provides (h : Alike t t') (ht : t.Provides source symbol) : t'.Provides source symbol := by
  obtain ⟨d, hd, hsource, htype, s, hs, hname⟩ := ht
  obtain ⟨d', hd', halike⟩ := h.import? hd
  obtain ⟨s', hs', hss'⟩ := forall₂_exists_left halike.specifiers.flip hs
  exact ⟨d', hd', halike.sourceName_eq.trans hsource, halike.typeOnly.trans htype, s', hs',
    Alike.namedSpecifier? hss' hname⟩

/-- An item that renames the symbol is like none that does not. -/
theorem Alike.renames (h : Alike t t') (ht : t'.Renames symbol) : t.Renames symbol := by
  obtain ⟨d', s', hd', hs', himported, hname⟩ := ht
  obtain ⟨d, hd, halike⟩ := h.symm.import? hd'
  obtain ⟨s, hs, hss'⟩ := forall₂_exists_left halike.specifiers.flip hs'
  exact ⟨d, s, hd, hs, Alike.importedName? hss' himported, fun h => hname (Alike.namedSpecifier? hss'.symm h)⟩

end Tree

/-! ## Ensured imports -/

namespace Imports

variable {aliases : Renaming} {symbol x : String}

theorem namedSpecifier?_specifier_self (h : aliases.get? symbol = none) :
    (specifier aliases symbol).namedSpecifier? = some (symbol, symbol) := by
  rw [namedSpecifier?_specifier, h, Option.getD_none]

/-- A made specifier does not rename the symbol. -/
theorem specifier_not_renamed (h : aliases.get? symbol = none)
    (hx : (specifier aliases x).importedName? = some symbol) :
    (specifier aliases x).namedSpecifier? = some (symbol, symbol) := by
  rw [importedName?_specifier] at hx
  cases hx
  exact namedSpecifier?_specifier_self h

end Imports

namespace Module.Ensured

variable {source X symbol : String} {symbols : List String} {aliases : Renaming} {place : Option Nat} {m : Module}
  {items' : List Tree}

/-- What is imported stays imported. -/
theorem provides (h : Ensured source symbols aliases place m items') (hm : ∃ t ∈ m.items, t.Provides X symbol) :
    ∃ t ∈ items', t.Provides X symbol := by
  obtain ⟨t, ht, hprovides⟩ := hm
  cases h with
  | nothing h => exact ⟨t, ht, hprovides⟩
  | @merged pre post t₀ d hitems hd hsource hopen =>
      rw [hitems] at ht
      simp only [List.mem_append, List.mem_cons] at ht ⊢
      rcases ht with ht | rfl | ht
      · exact ⟨t, .inl ht, hprovides⟩
      · refine ⟨_, .inr (.inl rfl), ?_⟩
        obtain ⟨d₁, hd₁, hX, htype, s, hs, hname⟩ := hprovides
        rw [hd] at hd₁
        cases hd₁
        obtain ⟨extra, heq, -⟩ := Imports.exists_foldl_addSpecifier aliases symbols d.specifiers
        refine ⟨_, rfl, hX, htype, s, ?_, hname⟩
        show s ∈ symbols.foldl (Imports.addSpecifier aliases) d.specifiers
        rw [heq]
        exact List.mem_append_left _ hs
      · exact ⟨t, .inr (.inr ht), hprovides⟩
  | inserted h => exact ⟨t, mem_insertAt.mpr (.inr ht), hprovides⟩

/-- Ensured symbols are not renamed unless they were. -/
theorem renames (h : Ensured source symbols aliases place m items') (hsymbol : aliases.get? symbol = none)
    (hm : ∀ t ∈ m.items, ¬ t.Renames symbol) : ∀ t ∈ items', ¬ t.Renames symbol := by
  rintro t ht ⟨d, s, hd, hs, himported, hname⟩
  cases h with
  | nothing h => exact hm t ht ⟨d, s, hd, hs, himported, hname⟩
  | @merged pre post t₀ d₀ hitems hd₀ hsource hopen =>
      rw [hitems] at hm
      rcases List.mem_append.mp ht with ht | ht
      · exact hm t (by simp [ht]) ⟨d, s, hd, hs, himported, hname⟩
      · rcases List.mem_cons.mp ht with rfl | ht
        · cases hd
          obtain ⟨extra, heq, -⟩ := Imports.exists_foldl_addSpecifier aliases symbols d₀.specifiers
          have hs : s ∈ symbols.foldl (Imports.addSpecifier aliases) d₀.specifiers := hs
          rw [heq] at hs
          rcases List.mem_append.mp hs with hs | hs
          · exact hm t₀ (by simp) ⟨d₀, s, hd₀, hs, himported, hname⟩
          · obtain ⟨x, -, rfl⟩ := List.mem_map.mp hs
            exact hname (Imports.specifier_not_renamed hsymbol himported)
        · exact hm t (by simp [ht]) ⟨d, s, hd, hs, himported, hname⟩
  | inserted h =>
      rcases mem_insertAt.mp ht with ht | ht
      · obtain rfl := List.mem_singleton.mp ht
        cases hd
        obtain ⟨x, -, rfl⟩ := List.mem_map.mp hs
        exact hname (Imports.specifier_not_renamed hsymbol himported)
      · exact hm t ht ⟨d, s, hd, hs, himported, hname⟩

/-- A symbol that is ensured is imported under its own name, unless it was renamed. -/
theorem provides_of_mem (h : Ensured source symbols aliases place m items') (hsymbol : aliases.get? symbol = none)
    (hm : ∀ t ∈ m.items, ¬ t.Renames symbol) (hmem : symbol ∈ symbols) :
    ∃ t ∈ items', t.Provides source symbol := by
  cases h with
  | nothing h =>
      rw [h] at hmem
      cases hmem
  | @merged pre post t d hitems hd hsource hopen =>
      have htype : d.typeOnly = false := by
        rw [ImportDecl.isOpen, Bool.and_eq_true] at hopen
        simpa using hopen.1
      refine ⟨_, List.mem_append_right _ (List.mem_cons_self ..), _, rfl, hsource, htype, ?_⟩
      obtain ⟨extra, heq, -, -, hprovided⟩ := Imports.exists_foldl_addSpecifier aliases symbols d.specifiers
      show ∃ s ∈ symbols.foldl (Imports.addSpecifier aliases) d.specifiers, s.namedSpecifier? = some (symbol, symbol)
      rw [heq]
      rcases hprovided symbol hmem with hold | hnew
      · -- the import had the symbol before; it would be renamed if its near name were another
        obtain ⟨s, hs, himported⟩ := List.any_eq_true.mp hold
        refine ⟨s, List.mem_append_left _ hs, ?_⟩
        by_contra hname
        exact hm t (by simp [hitems]) ⟨d, s, hd, hs, by simpa using himported, hname⟩
      · exact ⟨_, List.mem_append_right _ (List.mem_map.mpr ⟨symbol, hnew, rfl⟩),
          Imports.namedSpecifier?_specifier_self hsymbol⟩
  | inserted h =>
      refine ⟨_, mem_insertAt.mpr (.inl (List.mem_singleton.mpr rfl)), _, rfl, rfl, rfl, ?_⟩
      exact ⟨_, List.mem_map.mpr ⟨symbol, Imports.mem_ordered.mpr hmem, rfl⟩,
        Imports.namedSpecifier?_specifier_self hsymbol⟩

end Module.Ensured

/-! ## Before the conversion -/

namespace Tree

variable {w : Watch} {symbol x y : String} {t : Tree}

/-- The symbol is neither an identifier nor a string of the tree. -/
def Unmentioned (symbol : String) (t : Tree) : Prop :=
  t.Everywhere fun u => u.identifier? ≠ some symbol ∧ u.string? ≠ some symbol

namespace Unmentioned

theorem tag_ne (h : t.Unmentioned symbol) : t.face.tag ≠ some symbol := by
  rw [tag_face]
  intro htag
  refine h.here.1 ?_
  unfold tag? at htag
  split at htag
  · exact htag
  · cases htag

/-- Nothing that is imported has the symbol for a name. -/
theorem namedSpecifier?_ne (h : t.Unmentioned symbol) (hxy : t.namedSpecifier? = some (x, y)) :
    x ≠ symbol ∧ y ≠ symbol := by
  unfold namedSpecifier? at hxy
  split at hxy
  · next o b o₁ near ts far =>
      cases hxy
      have hnear : y ≠ symbol := fun heq =>
        (h.child (c := .part o₁ (.name y) ts) (by simp)).here.1 (congrArg some heq)
      refine ⟨?_, hnear⟩
      have hfar := (h.child (c := far) (by simp)).here
      cases htext : farText far with
      | none => exact hnear
      | some z =>
          rintro rfl
          unfold farText at htext
          split at htext
          · exact hfar.1 htext
          · exact hfar.2 htext
          · cases htext
  · cases hxy

/-- What does not mention a symbol does not import it under another name. -/
theorem not_renames (h : t.Unmentioned symbol) (hsymbol : symbol ∈ emittedNames) : ¬ t.Renames symbol := by
  rintro ⟨d, s, hd, hs, himported, -⟩
  have hspec : s.Unmentioned symbol := by
    obtain rfl := toTree_of_import? hd
    exact (h.child (c := .list d.specifiers) (by simp [ImportDecl.toTree])).child hs
  unfold importedName? at himported
  split at himported
  · cases himported
    revert hsymbol
    decide
  · obtain ⟨⟨x, y⟩, hxy, rfl⟩ := Option.map_eq_some_iff.mp himported
    exact (hspec.namedSpecifier?_ne hxy).1 rfl

/-- What an attribute says is a string of the tree. -/
theorem literal_ne (h : t.Unmentioned symbol) : t.face.literal ≠ some symbol := by
  intro hliteral
  cases t with
  | node o k ts =>
      rw [face_node, Face.ofKind.eq_def] at hliteral
      split at hliteral
      · exact h.here.2 hliteral
      · cases hliteral
      · next heq =>
          obtain ⟨e, rfl, rfl⟩ := List.map_eq_singleton_iff.mp heq
          refine (h.child (List.mem_singleton.mpr rfl)).here.2 ?_
          rw [← string_face]
          exact hliteral
      all_goals cases hliteral
  | list ts => cases hliteral
  | absent => cases hliteral

/-- A node of a tree that does not mention the symbol is hit by banned elements only. -/
theorem hits_eq_false (h : t.Unmentioned w.symbol) (hbans : ∀ e, t.element? = some e → bansElement w e = false) :
    w.hits t = false := by
  have hshows : ∀ {ts : List Tree}, (∀ c ∈ ts, c.Unmentioned w.symbol) → w.shows (ts.map face) = false :=
    fun hts => shows_eq_false.mpr fun c hc => (hts c hc).tag_ne
  cases t with
  | node o k ts =>
      have hspells : w.spells k = false := by
        unfold Watch.spells
        split
        · exact beq_eq_false_iff_ne.mpr fun heq => h.here.1 (congrArg some heq)
        · exact beq_eq_false_iff_ne.mpr fun heq => h.here.1 (congrArg some heq)
        · rfl
      have hasks : w.asks k (ts.map face) = false := by
        unfold Watch.asks
        split
        · next heq =>
            obtain ⟨n, ts₁, rfl, rfl, h₁⟩ := List.map_eq_cons_iff.mp heq
            obtain ⟨v, rfl, rfl⟩ := List.map_eq_singleton_iff.mp h₁
            have hv : v.Unmentioned w.symbol := h.child (by simp)
            have hvalue := hv.literal_ne
            rw [beq_eq_false_iff_ne.mpr hvalue, Bool.and_false]
        · rfl
      have hbans : w.bans k (ts.map face) = false := by
        rw [← Bool.not_eq_true]
        intro htrue
        obtain ⟨e, he, hbanned⟩ := exists_of_bans (o := o) htrue
        rw [hbans e he] at hbanned
        cases hbanned
      have hholds : w.holds k (ts.map face) = false := Watch.holds_of_shows (hshows fun c hc => h.child hc)
      rw [Watch.hits, hspells, hasks, hbans, hholds]
      rfl
  | list ts => exact hshows fun c hc => h.child hc
  | absent => rfl

/-- A tree that does not mention the symbol is clear of it. -/
theorem clear (h : t.Unmentioned w.symbol)
    (hbans : t.Everywhere fun u => ∀ e, u.element? = some e → bansElement w e = false) : t.Clear w := by
  refine ⟨fun p u hu => ?_, h.tag_ne⟩
  refine hits_eq_false (fun q v hv => ?_) (hbans p u hu)
  exact h (p ++ q) v (at?_append.mpr ⟨u, hu, hv⟩)

end Unmentioned

end Tree

namespace Module

variable {o : Options} {m m' : Module} {symbol source : String}

/-- The symbol is neither an identifier nor a string of the module. -/
def Unmentioned (symbol : String) (m : Module) : Prop := ∀ t ∈ m.items, t.Unmentioned symbol

theorem aliases_ne (h : m.Unmentioned symbol) {x y : String}
    (hxy : (LibraryNames.aliasesIn source m.items).get? x = some y) : x ≠ symbol ∧ y ≠ symbol := by
  rcases Renaming.mem_of_get?_foldl hxy with hmem | hnone
  · obtain ⟨t, ht, hspecs⟩ := List.mem_flatMap.mp hmem
    split at hspecs
    · next d hd =>
        split at hspecs
        · obtain ⟨s, hs, hname⟩ := List.mem_filterMap.mp hspecs
          obtain rfl := Tree.toTree_of_import? hd
          have hspec : s.Unmentioned symbol :=
            ((h _ ht).child (c := .list d.specifiers) (by simp [ImportDecl.toTree])).child hs
          exact hspec.namedSpecifier?_ne hname
        · cases hspecs
    · cases hspecs
  · cases hnone

/-- A module that does not mention a symbol has no other name for it. -/
theorem aliases_get?_eq_none (h : m.Unmentioned symbol) :
    (LibraryNames.aliasesIn source m.items).get? symbol = none := by
  cases hget : (LibraryNames.aliasesIn source m.items).get? symbol with
  | none => rfl
  | some y => exact absurd rfl (aliases_ne h hget).1

theorem anyElement_eq_false {P : Element → Bool} (h : m.anyElement P = false) :
    ∀ t ∈ m.items, t.Everywhere fun u => ∀ e, u.element? = some e → P e = false := by
  intro t ht p u hu e he
  have hnode : u.isNode = true := by
    rw [← Tree.toTree_of_element? he]
    rfl
  have hany := any_eq_false_iff.mp h t ht p u hu hnode
  rwa [he, Option.any_some] at hany

/-- What a module needs from the start, feature by feature. -/
theorem mem_ofFeatures {f : Features} {x : String} :
    x ∈ (ImportPlan.ofFeatures f).symbols ↔ f.formik = true ∧ x = "useForm" ∨ f.useField = true ∧ x = "useField" ∨
      f.useFormikContext = true ∧ x = "useFormMetadata" ∨
        (f.field || f.fieldPropsSpread) = true ∧ x = "getInputProps" := by
  have hif : ∀ (b : Bool) (y : String), (x ∈ if b = true then [y] else []) ↔ b = true ∧ x = y := by
    intro b y
    cases b <;> simp
  simp only [ImportPlan.ofFeatures, List.mem_append, hif, or_assoc]

/-- What a module needs from the start. -/
def plan (o : Options) (m : Module) : ImportPlan := .ofFeatures (.ofModule (m.setting o).names m)

/-- The plan has the symbol. -/
def Planned (o : Options) (m : Module) (symbol : String) : Prop :=
  symbol ∈ (m.plan o).symbols ∨ symbol = "parseWithYup" ∧ (m.plan o).yupBridge = true

/-- Without a plan for the symbol, there is nothing in a module that makes a wrapper put it in. -/
theorem clear_of_unmentioned (h : m.Unmentioned symbol) (hplan : ¬ m.Planned o symbol) :
    m.Clear (.of (m.setting o).names symbol) := by
  obtain ⟨hsymbols, hyup⟩ := not_or.mp hplan
  intro t ht
  refine (h t ht).clear fun p u hu e he => ?_
  -- only two of the symbols are put in because of an element that is there from the start
  by_cases hform : symbol = "useForm"
  · subst hform
    have hformik : (m.anyElement fun e => e.tag? == some (m.setting o).names.formik) = false := by
      rw [plan, mem_ofFeatures] at hsymbols
      simpa [Features.ofModule] using hsymbols
    simpa [Tree.bansElement, Watch.of] using anyElement_eq_false hformik t ht p u hu e he
  · by_cases hparse : symbol = "parseWithYup"
    · subst hparse
      have hbridge : (m.anyElement fun e => e.tag? == some (m.setting o).names.formik) = false ∨
          (m.anyElement fun e => e.tag? == some (m.setting o).names.formik &&
            (Attrs.find? "validationSchema" e.attrs).isSome) = false := by
        simpa [plan, ImportPlan.ofFeatures, Features.ofModule, or_iff_not_imp_left] using hyup
      rcases hbridge with hbridge | hbridge
      · have htag := anyElement_eq_false hbridge t ht p u hu e he
        simp [Tree.bansElement, Watch.of, htag]
      · have htag := anyElement_eq_false hbridge t ht p u hu e he
        simpa [Tree.bansElement, Watch.of] using htag
    · simp [Tree.bansElement, Watch.of, hform, hparse]

end Module

/-! ## The symbol is not put in -/

namespace Module

variable {w : Watch} {o : Options} {m m' : Module} {symbol source : String} {symbols : List String} {aliases : Renaming}
  {place : Option Nat} {items' : List Tree}

theorem clear_specifier {x : String} (hx : x ≠ w.symbol) (haliases : ∀ y, aliases.get? x = some y → y ≠ w.symbol) :
    (Imports.specifier aliases x).Clear w := by
  have hy : (aliases.get? x).getD x ≠ w.symbol := by
    cases hget : aliases.get? x with
    | none => exact hx
    | some y => exact haliases y hget
  unfold Imports.specifier Make.importSpecifier
  split
  · simp [hx]
  · simp [hx, hy]

/-- Imports of other symbols keep a module clear. -/
theorem Ensured.clear (h : Ensured source symbols aliases place m items') (hm : m.Clear w) (hsymbols : w.symbol ∉ symbols)
    (haliases : ∀ x y, aliases.get? x = some y → y ≠ w.symbol) : ∀ t ∈ items', t.Clear w := by
  have hspecs : ∀ {xs : List String}, (∀ x ∈ xs, x ∈ symbols) → ∀ s ∈ xs.map (Imports.specifier aliases), s.Clear w := by
    intro xs hxs s hs
    obtain ⟨x, hx, rfl⟩ := List.mem_map.mp hs
    exact clear_specifier (fun heq => hsymbols (heq ▸ hxs x hx)) (haliases x)
  cases h with
  | nothing h => exact hm
  | @merged pre post t d hitems hd hsource hopen =>
      unfold Clear at hm
      rw [hitems] at hm
      refine forall_mem_replace hm ?_
      -- what is added to an import are specifiers of the symbols
      obtain ⟨extra, heq, hextra, -⟩ := Imports.exists_foldl_addSpecifier aliases symbols d.specifiers
      have hclear := hm t (by simp)
      rw [← Tree.toTree_of_import? hd, ImportDecl.toTree] at hclear
      simp at hclear
      rw [ImportDecl.toTree, Tree.clear_plain rfl]
      simp only [List.mem_cons, List.not_mem_nil, or_false, forall_eq_or_imp, forall_eq, Tree.clear_list]
      refine ⟨?_, hclear.2⟩
      show ∀ s ∈ symbols.foldl (Imports.addSpecifier aliases) d.specifiers, s.Clear w
      rw [heq]
      intro s hs
      rcases List.mem_append.mp hs with hs | hs
      · exact hclear.1 s hs
      · exact hspecs (fun x hx => (hextra x hx).1) s hs
  | inserted h =>
      intro t ht
      rcases mem_insertAt.mp ht with ht | ht
      · obtain rfl := List.mem_singleton.mp ht
        rw [Imports.made, Make.importDecl, Tree.clear_plain rfl]
        simp only [List.mem_cons, List.not_mem_nil, or_false, forall_eq_or_imp, forall_eq, Tree.clear_list]
        exact ⟨hspecs fun x hx => Imports.mem_ordered.mp hx, Make.clear_str, Tree.clear_absent⟩
      · exact hm t ht

section Unplanned

variable (hnames : (m.setting o).names.useField ≠ (m.setting o).names.useFormikContext) (hsymbol : symbol ∈ emittedNames)
  (hfree : m.Unmentioned symbol) (hplan : ¬ m.Planned o symbol)

include hnames hsymbol hfree hplan

/-- The context hook puts in a symbol only if it is planned. -/
theorem clear_convertContext : (Context.convert (m.setting o) m).Clear (.of (m.setting o).names symbol) := by
  have hm := clear_of_unmentioned hfree hplan
  by_cases hmeta : symbol = "useFormMetadata"
  · -- with two different names the scan does not miss a call of the context hook
    have hcalls : m.calls (m.setting o).names.useFormikContext = false := by
      have hsymbols := (not_or.mp hplan).1
      rw [plan, mem_ofFeatures] at hsymbols
      simpa [hmeta, Features.ofModule, hnames.symm] using hsymbols
    rw [Context.convert_eq_self hcalls]
    exact hm
  · exact Context.clear_convert hsymbol hmeta _ hm

/-- The module with its imports inserted is clear of a symbol that the plan does not have. -/
theorem clear_withImports : (m.withImports o).Clear (.of (m.setting o).names symbol) := by
  have hcontext := clear_convertContext hnames hsymbol hfree hplan
  have hremoved : ((Context.convert (m.setting o) m).removeImports o.sourceModule).Clear
      (.of (m.setting o).names symbol) := fun t ht => hcontext t (List.mem_filter.mp ht).1
  have haliases : ∀ x y, (m.setting o).names.aliases.get? x = some y → y ≠ symbol :=
    fun x y hxy => (aliases_ne hfree hxy).2
  obtain ⟨items₁, items₂, h₁, hens₂, heq⟩ := ((Context.convert (m.setting o) m).removeImports o.sourceModule).insertImports_inv
    o (m.plan o) (m.setting o).names.aliases (m.importPlace? o.sourceModule)
  obtain ⟨hsymbols, hyup⟩ := not_or.mp hplan
  have hclear₁ : ∀ t ∈ items₁, t.Clear (.of (m.setting o).names symbol) := by
    rcases h₁ with ⟨hbridge, hens₁⟩ | ⟨-, rfl⟩
    · refine hens₁.clear hremoved ?_ haliases
      intro hmem
      exact hyup ⟨List.mem_singleton.mp hmem, hbridge⟩
    · exact hremoved
  rw [withImports, ← plan, heq]
  exact hens₂.clear hclear₁ hsymbols haliases

/-- If the symbol is neither planned nor collected, no pass puts it in. -/
theorem clear_convert {m₄ : Module} {σ : Symbols}
    (h : (convertMarkup (m.setting o) (FieldHook.convert (m.setting o) (m.withImports o))).run {} = .ok (m₄, σ))
    (hσ : symbol ∉ σ.toList) : (Fieldset.normalize m₄).Clear { symbol := symbol } := by
  obtain ⟨m₃, σ₃, hwrap, hmark⟩ := convertMarkup_inv h
  have himports := clear_withImports hnames hsymbol hfree hplan
  have hfield := FieldHook.clear_convert hsymbol rfl (m.setting o) himports
  obtain ⟨hσ₃, hmarkup⟩ := FieldMarkup.clear_convert (w := { symbol := symbol }) hsymbol rfl rfl hmark hσ
  have hwrapped := FormWrapper.clear_convert hsymbol hwrap hσ₃ hfield
  exact Fieldset.clear_normalize hsymbol (hmarkup fun t ht => (hwrapped t ht).weaken rfl)

end Unplanned

/-! ## The symbol is imported -/

theorem symbol_mem (h : (symbol, source) ∈ o.emitted) : symbol ∈ emittedNames := by
  simp only [Options.emitted, List.mem_cons, Prod.mk.injEq, List.not_mem_nil, or_false] at h
  rcases h with ⟨rfl, -⟩ | ⟨rfl, -⟩ | ⟨rfl, -⟩ | ⟨rfl, -⟩ | ⟨rfl, -⟩ <;> decide

/-- The parser of schemas comes from a library of its own, all other names from the target. -/
theorem source_eq (h : (symbol, source) ∈ o.emitted) :
    symbol = "parseWithYup" ∧ source = o.yupModule ∨ symbol ≠ "parseWithYup" ∧ source = o.targetModule := by
  simp only [Options.emitted, List.mem_cons, Prod.mk.injEq, List.not_mem_nil, or_false] at h
  rcases h with ⟨rfl, rfl⟩ | ⟨rfl, rfl⟩ | ⟨rfl, rfl⟩ | ⟨rfl, rfl⟩ | ⟨rfl, rfl⟩ <;> simp

theorem not_renames_of_alike {items : List Tree} (h : List.Forall₂ Alike items items')
    (hitems : ∀ t ∈ items, ¬ t.Renames symbol) : ∀ t ∈ items', ¬ t.Renames symbol := by
  intro t' ht' hrenames
  obtain ⟨t, ht, halike⟩ := forall₂_exists_left h ht'
  exact hitems t ht (halike.renames hrenames)

/-- The imports that are planned do not rename the symbol, and import it if it is planned. -/
theorem withImports_provides (source : String) (hsymbol : symbol ∈ emittedNames) (hfree : m.Unmentioned symbol)
    (hcontext : List.Forall₂ Alike m.items (Context.convert (m.setting o) m).items) :
    (∀ t ∈ (m.withImports o).items, ¬ t.Renames symbol) ∧
      ((symbol, source) ∈ o.emitted → m.Planned o symbol → ∃ t ∈ (m.withImports o).items, t.Provides source symbol) := by
  have hrenames := not_renames_of_alike hcontext fun t ht => (hfree t ht).not_renames hsymbol
  have hremoved : ∀ t ∈ ((Context.convert (m.setting o) m).removeImports o.sourceModule).items, ¬ t.Renames symbol :=
    fun t ht => hrenames t (List.mem_filter.mp ht).1
  have halias : (m.setting o).names.aliases.get? symbol = none := aliases_get?_eq_none hfree
  obtain ⟨items₁, items₂, h₁, hens₂, heq⟩ := ((Context.convert (m.setting o) m).removeImports o.sourceModule).insertImports_inv
    o (m.plan o) (m.setting o).names.aliases (m.importPlace? o.sourceModule)
  have hrenames₁ : ∀ t ∈ items₁, ¬ t.Renames symbol := by
    rcases h₁ with ⟨-, hens₁⟩ | ⟨-, rfl⟩
    · exact hens₁.renames halias hremoved
    · exact hremoved
  rw [withImports, ← plan, heq]
  refine ⟨hens₂.renames halias hrenames₁, fun hemitted hplan => ?_⟩
  rcases source_eq hemitted with ⟨rfl, rfl⟩ | ⟨hne, rfl⟩
  · have hbridge : (m.plan o).yupBridge = true := by
      rcases hplan with hplan | hplan
      · simp [plan, mem_ofFeatures] at hplan
      · exact hplan.2
    rcases h₁ with ⟨-, hens₁⟩ | ⟨hnone, -⟩
    · exact hens₂.provides (hens₁.provides_of_mem halias hremoved (List.mem_singleton.mpr rfl))
    · rw [hbridge] at hnone
      cases hnone
  · rcases hplan with hplan | hplan
    · exact hens₂.provides_of_mem halias hrenames₁ hplan
    · exact absurd hplan.1 hne

/-- Every symbol that the conversion puts in is imported: if a module with none of a symbol before has
it as an identifier afterwards, one of its imports from the symbol's library, not of types only,
lists it under its own name. -/
theorem convert_provides (o : Options) (m m' : Module)
    (hnames : (m.setting o).names.useField ≠ (m.setting o).names.useFormikContext) (h : m.convert o = .ok m')
    (symbol source : String) (hemitted : (symbol, source) ∈ o.emitted)
    (hfree : ∀ p u, m.at? p = some u → u.identifier? ≠ some symbol ∧ u.string? ≠ some symbol)
    (huse : ∃ p u, m'.at? p = some u ∧ u.identifier? = some symbol) :
    ∃ t ∈ m'.items, t.Provides source symbol := by
  have hsymbol := symbol_mem hemitted
  have hunmentioned : m.Unmentioned symbol := by
    intro t ht p u hu
    obtain ⟨i, hi⟩ := List.mem_iff_getElem?.mp ht
    exact hfree (i :: p) u (Tree.at?_cons_eq_some.mpr ⟨t, hi, hu⟩)
  obtain ⟨m₄, σ, hbody, hcontext, hitems, hens⟩ := convert_items h
  have halike : List.Forall₂ Alike (m.withImports o).items (Fieldset.normalize m₄).items := hitems.imp fun _ _ h => h.2
  obtain ⟨hrenames, hprovides⟩ := withImports_provides source hsymbol hunmentioned
    (hcontext.imp fun _ _ h => h.2)
  by_cases hplan : m.Planned o symbol
  · -- it was imported before the passes ran, which do not touch the names of imports
    obtain ⟨t, ht, hprovides⟩ := hprovides hemitted hplan
    obtain ⟨t', ht', htt'⟩ := forall₂_exists_left halike.flip ht
    exact hens.provides ⟨t', ht', Alike.provides htt' hprovides⟩
  by_cases hσ : symbol ∈ σ.toList
  · -- it was collected, and topped up at the end
    have htarget : source = o.targetModule := by
      rcases source_eq hemitted with ⟨rfl, -⟩ | ⟨-, htarget⟩
      · simp [Symbols.mem_toList] at hσ
      · exact htarget
    rw [htarget]
    exact hens.provides_of_mem rfl (not_renames_of_alike halike hrenames) hσ
  · -- no pass has put it in
    have hclear := clear_convert hnames hsymbol hunmentioned hplan hbody hσ
    have hm' : m'.Clear { symbol := symbol } := hens.clear hclear hσ nofun
    obtain ⟨p, u, hu, hident⟩ := huse
    exact absurd hident ((Tree.clear_list.mpr hm').at? rfl hu).identifier?_ne

def wrapped : Module where
  origin := .made
  items := [Make.importDecl "formik" [Make.importSpecifier "Formik" "Formik"],
    .stmt .made (.func false) [Make.name "F", .part .made (.function false false) [.list [],
      Make.block [Make.ret (Make.element "Formik" [] [Make.element "form" [] []])], .absent, .absent]]]

/-- The module is converted, and imports the hook of the form afterwards. -/
theorem wrapped_provides :
    ∃ m', wrapped.convert {} = .ok m' ∧ ∃ t ∈ m'.items, t.Provides "@conform-to/react" "useForm" := by
  have hfree : ∀ p u, wrapped.at? p = some u → u.identifier? ≠ some "useForm" ∧ u.string? ≠ some "useForm" := by
    intro p u hu
    have hnone := (Tree.any_eq_false_iff (P := fun u => u.identifier? == some "useForm" || u.string? == some "useForm")
      (.list wrapped.items)).mp (by decide) p u hu
    cases u with
    | node o k ts => simpa using hnone rfl
    | list ts => exact ⟨nofun, nofun⟩
    | absent => exact ⟨nofun, nofun⟩
  obtain ⟨m', hm', huse⟩ : ∃ m', wrapped.convert {} = .ok m' ∧ ∃ u, m'.at? [1, 1, 1, 0, 0, 1, 0] = some u ∧
      u.identifier? = some "useForm" := ⟨_, rfl, _, rfl, rfl⟩
  exact ⟨m', hm', convert_provides {} wrapped m' (by decide) hm' "useForm" "@conform-to/react" (by decide) hfree ⟨_, huse⟩⟩

end Module

end FormCodemod
