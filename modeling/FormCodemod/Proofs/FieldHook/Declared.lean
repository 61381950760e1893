import Mathlib.Data.List.Perm.Subperm
import FormCodemod.Proofs.Context.Bound
import FormCodemod.Proofs.FieldHook.Outcomes
import FormCodemod.Proofs.Names.Fresh

/-!
# Names that the field hooks leave

The conversion of a hook takes out the names that its pattern bound. It keeps those that are declared again
(`FieldHook.keptNames`) and brings in others (`FieldHook.broughtIn`): a name for the field if it had none, one for the form,
and setters that are called but were not taken out of the hook's result.

No name that is brought in is taken by then (`FieldHook.not_taken_of_broughtIn`), and all of them are taken from then on. So
the statements declare no name twice afterwards if they did not before (`FieldHook.nodup_declaredNames`).
-/

namespace FormCodemod.FieldHook

open FormCodemod.Tree (declaredNames)
open scoped List

variable {s : Setting} {uses : List Use} {p : Progress} {t d slot : Tree} {ss : List Tree} {h : FieldHook} {c : Site}
  {hook x : String} {taken : List String}

/-! ## Names that are kept -/

/-- The names of a hook's pattern that are declared again: the field's, those that were given to its values and to the meta
data, and those of setters. -/
def keptNames (uses : List Use) (h : FieldHook) : List String :=
  ((firstName? h.slots).toList ++ (h.slot 0).takenKeys.map (·.2)) ++
    (((wholeName? uses (h.slot 1)).toList ++ (h.slot 1).takenKeys.map (·.2)) ++
      ((wholeName? uses (h.slot 2)).toList ++ ["setValue", "setTouched"].filterMap (takenSetter? · (h.slot 2))))

/-- The name of a hook's first place and the names taken from it are bound by its pattern,
each for itself. -/
theorem firstName?_sublist (h : FieldHook) :
    ((firstName? h.slots).toList ++ (h.slot 0).takenKeys.map (·.2)).Sublist (h.slot 0).boundNames := by
  unfold firstName? slot
  split
  next heq =>
    -- a name takes no keys
    rw [heq]
    exact .refl _
  next => exact Tree.takenKeys_sublist _

/-- The name of a whole place and the names taken from it are bound by its pattern, each for
itself. -/
theorem wholeName?_sublist (uses : List Use) (slot : Tree) :
    ((wholeName? uses slot).toList ++ slot.takenKeys.map (·.2)).Sublist slot.boundNames := by
  unfold wholeName?
  split
  next x _ _ =>
    show ((if uses.contains (.ref x) then some x else none).toList ++ []).Sublist [x]
    rw [List.append_nil]
    split
    · exact .refl _
    · exact List.nil_sublist _
  next => exact Tree.takenKeys_sublist slot

/-- The names of setters are bound by the pattern of the third place, each once. -/
theorem setterNames_subperm (uses : List Use) (hslot : slot.boundNames.Nodup) :
    ((wholeName? uses slot).toList ++ ["setValue", "setTouched"].filterMap (takenSetter? · slot)).Subperm
      slot.boundNames := by
  cases hwhole : wholeName? uses slot with
  | some y =>
      obtain ⟨hbound, hnone⟩ : slot.boundNames = [y] ∧ ∀ k, takenSetter? k slot = none := by
        unfold wholeName? at hwhole
        split at hwhole
        · split at hwhole
          · cases hwhole
            exact ⟨rfl, fun _ => rfl⟩
          · cases hwhole
        · cases hwhole
      rw [hbound]
      simp [hnone]
  | none =>
      have htaken : (["setValue", "setTouched"].filterMap (takenSetter? · slot)).Nodup := by
        have hkeys : ["setValue", "setTouched"].Nodup := by decide
        exact hkeys.filterMap fun k k' x hk hk' => Tree.takenNames_injective hslot hk hk'
      refine List.subperm_of_subset htaken ?_
      intro y hy
      obtain ⟨k, -, hk⟩ := List.mem_filterMap.mp hy
      exact Tree.mem_boundNames_of_takenNames hk

/-- The first three places of a pattern bind part of the names that it binds. -/
theorem slots_sublist (h : FieldHook) :
    ((h.slot 0).boundNames ++ ((h.slot 1).boundNames ++ (h.slot 2).boundNames)).Sublist
      (h.slots.flatMap Tree.boundNames) := by
  have habsent : Tree.boundNames .absent = [] := rfl
  unfold slot
  rcases h.slots with _ | ⟨t₀, _ | ⟨t₁, _ | ⟨t₂, ts⟩⟩⟩
  · simp [habsent]
  · simp [habsent]
  · simp [habsent]
  · simp

/-- No more names are kept than the pattern bound. -/
theorem keptNames_subperm (uses : List Use) (hh : (h.slots.flatMap Tree.boundNames).Nodup) :
    (keptNames uses h).Subperm (h.slots.flatMap Tree.boundNames) := by
  have hthird : (h.slot 2).boundNames.Nodup :=
    (((List.sublist_append_right ..).trans (List.sublist_append_right ..)).trans (slots_sublist h)).nodup hh
  have hparts := (firstName?_sublist h).subperm.append
    ((wholeName?_sublist uses (h.slot 1)).subperm.append (setterNames_subperm uses hthird))
  exact hparts.trans (slots_sublist h).subperm

/-! ## Names that are brought in -/

/-- The setters that are called, were not taken out of the hook's result and have a name that is not taken. -/
def missingSetters (uses : List Use) (taken : List String) (slot : Tree) : List String :=
  ["setValue", "setTouched"].filter fun k =>
    (takenSetter? k slot).isNone && (uses.contains (.call k) && !taken.contains k)

def broughtIn (uses : List Use) (p : Progress) (h : FieldHook) : List String :=
  (if (firstName? h.slots).isSome then [] else [p.nextField]) ++
    (p.nextForm :: missingSetters uses (p.nextForm :: (firstName? h.slots).getD p.nextField :: p.taken) (h.slot 2))

theorem missingSetters_nodup (uses : List Use) (taken : List String) (slot : Tree) :
    (missingSetters uses taken slot).Nodup :=
  List.Nodup.filter _ (by decide)

theorem not_taken_of_missingSetters (hx : x ∈ missingSetters uses taken slot) : x ∉ taken := by
  have hmissing := (List.mem_filter.mp hx).2
  intro hmem
  simp [hmem] at hmissing

/-- The names that are made from `field` and from `form` are never the same. -/
theorem nextField_ne_nextForm (p : Progress) : p.nextField ≠ p.nextForm := by
  obtain ⟨x, hx⟩ := exists_freshName_eq ("field" ++ if p.count == 0 then "" else toString p.count) p.taken
  obtain ⟨y, hy⟩ := exists_freshName_eq ("form" ++ if p.count == 0 then "" else toString p.count) p.taken
  intro heq
  rw [Progress.nextField, Progress.nextForm, hx, hy] at heq
  -- their second letters differ
  have hsecond := congrArg (fun z : String => z.toList[1]?) heq
  simp [String.toList_append] at hsecond

/-- No name is brought in that was taken before. -/
theorem not_taken_of_broughtIn (hx : x ∈ broughtIn uses p h) : x ∉ p.taken := by
  rcases List.mem_append.mp hx with hx | hx
  · split at hx
    · cases hx
    · rw [List.mem_singleton.mp hx]
      exact freshName_not_mem _ _
  · rcases List.mem_cons.mp hx with rfl | hx
    · exact freshName_not_mem _ _
    · intro hmem
      apply not_taken_of_missingSetters hx
      exact List.mem_cons_of_mem _ (List.mem_cons_of_mem _ hmem)

theorem broughtIn_nodup (uses : List Use) (p : Progress) (h : FieldHook) : (broughtIn uses p h).Nodup := by
  rw [broughtIn]
  generalize hmissing :
    missingSetters uses (p.nextForm :: (firstName? h.slots).getD p.nextField :: p.taken) (h.slot 2) = ms
  have hms : ms.Nodup := hmissing ▸ missingSetters_nodup ..
  -- the missing setters are looked for when the other two names are taken
  have hnot : ∀ y ∈ ms, y ∉ p.nextForm :: (firstName? h.slots).getD p.nextField :: p.taken := by
    intro y hy
    rw [← hmissing] at hy
    exact not_taken_of_missingSetters hy
  have hform : (p.nextForm :: ms).Nodup := List.nodup_cons.mpr ⟨fun hmem => hnot _ hmem (List.mem_cons_self ..), hms⟩
  cases hfirst : firstName? h.slots with
  | some y => exact hform
  | none =>
      rw [hfirst] at hnot
      refine List.nodup_cons.mpr ⟨?_, hform⟩
      intro hmem
      rcases List.mem_cons.mp hmem with heq | hmem
      · exact nextField_ne_nextForm p heq
      · exact hnot _ hmem (List.mem_cons_of_mem _ (List.mem_cons_self ..))

/-! ## One hook -/

/-- A setter goes by the name that it was given, or by its own if it is missing. -/
theorem setterName?_toList (uses : List Use) (taken : List String) (slot : Tree) (k : String) :
    (setterName? uses taken slot k).toList =
      [k].filterMap (takenSetter? · slot) ++
        [k].filter fun k => (takenSetter? k slot).isNone && (uses.contains (.call k) && !taken.contains k) := by
  rw [setterName?]
  cases hget : takenSetter? k slot with
  | some x => simp [hget]
  | none =>
      cases hcall : uses.contains (.call k) && !taken.contains k with
      | true => simp only [List.filterMap_cons, List.filter_cons, hget, hcall]; rfl
      | false => simp only [List.filterMap_cons, List.filter_cons, hget, hcall]; rfl

/-- What is declared for the third place takes the names that the pattern gave, and those of
missing setters. -/
theorem names_setterEntries (s : Setting) (uses : List Use) (taken : List String) (h : FieldHook) (form : String)
    (slot : Tree) :
    ((setterEntries s uses taken h form slot).map (·.1)).Perm
      ((wholeName? uses slot).toList ++ ["setValue", "setTouched"].filterMap (takenSetter? · slot) ++
        missingSetters uses taken slot) := by
  have hkeys : ["setValue", "setTouched"] = ["setValue"] ++ ["setTouched"] := rfl
  rw [map_fst_setterEntries, missingSetters, hkeys, List.perm_iff_count]
  intro y
  simp only [setterName?_toList, List.filterMap_append, List.filter_append, List.count_append]
  omega

/-- What a hook's declarator binds and what is declared behind its statement are the names that are kept and those that
are brought in. -/
theorem names_siteOf (s : Setting) (uses : List Use) (p : Progress) (h : FieldHook) :
    ([(siteOf s uses p h).field, (siteOf s uses p h).form] ++
        ((siteOf s uses p h).reads ++ (siteOf s uses p h).helpers).map (·.1)).Perm
      (keptNames uses h ++ broughtIn uses p h) := by
  have hfield : [(firstName? h.slots).getD p.nextField] =
      (firstName? h.slots).toList ++ if (firstName? h.slots).isSome then [] else [p.nextField] := by
    cases firstName? h.slots <;> rfl
  have hsetters := names_setterEntries s uses (p.nextForm :: (firstName? h.slots).getD p.nextField :: p.taken) h
    p.nextForm (h.slot 2)
  have hpair : ∀ a b : String, [a, b] = [a] ++ [b] := fun _ _ => rfl
  simp only [siteOf, List.map_append, map_fst_readEntries]
  rw [hpair, hfield, keptNames, broughtIn, List.perm_iff_count]
  intro y
  have hcount := hsetters.count_eq y
  simp only [List.count_append, List.count_cons, List.count_nil] at hcount ⊢
  omega

/-- Constants declare their names. -/
theorem declaredNames_declarations (es : List (String × Tree)) : declaredNames (declarations es) = es.map (·.1) := by
  induction es with
  | nil => rfl
  | cons e es ih =>
      rw [List.map_cons, ← ih]
      rfl

/-- A hook's declarator bound the names of its places, and binds two names afterwards. The other names that its statement
declares stay. -/
theorem declared_site (hc : (outcome s uses p t).site? = some c) :
    ∃ others, t.declared.Perm (others ++ c.hook.slots.flatMap Tree.boundNames) ∧
      (outcome s uses p t).after.declared.Perm (others ++ [c.field, c.form]) := by
  obtain ⟨o, kw, dcl, pre, d, post, rfl, -, hd, hafter, -⟩ := site_inv hc
  obtain ⟨od, b, po, pb, rest, e, rfl, -⟩ := exists_of_ofDeclarator? hd
  rw [hafter]
  have hmove : ∀ as bs cs : List String, (as ++ (bs ++ cs)).Perm (as ++ cs ++ bs) := by
    intro as bs cs
    rw [List.append_assoc]
    exact List.Perm.append_left as List.perm_append_comm
  refine ⟨pre.flatMap (·.declaredPattern.boundNames) ++ post.flatMap (·.declaredPattern.boundNames), ?_, ?_⟩
  · rw [Tree.declared, List.flatMap_append, List.flatMap_cons, Tree.declaredPattern, Tree.boundNames,
      Tree.allBoundNames_eq_flatMap]
    exact hmove ..
  · rw [Tree.declared, List.flatMap_append, List.flatMap_cons]
    exact hmove _ [c.field, c.form] _

/-- The names that are brought in are taken from then on. -/
theorem handedOut_of_broughtIn (hc : (outcome s uses p t).site? = some c) : broughtIn uses p c.hook ⊆ c.handedOut := by
  intro x hx
  rw [eq_siteOf hc, Site.handedOut, List.mem_append]
  rcases List.mem_append.mp hx with hx | hx
  · split at hx
    next => cases hx
    next hnone =>
      have hfield : (firstName? c.hook.slots).getD p.nextField = p.nextField := by
        rw [Option.not_isSome_iff_eq_none.mp hnone]
        rfl
      refine .inr (List.mem_cons_of_mem _ ?_)
      show x ∈ [(firstName? c.hook.slots).getD p.nextField]
      rwa [hfield]
  · rcases List.mem_cons.mp hx with rfl | hx
    · exact .inr (List.mem_cons_self ..)
    · exact .inl ((names_setterEntries ..).symm.subset (List.mem_append_right _ hx))

/-! ## The names of all statements -/

/-- What is known of the names that statements declare afterwards: they are names that the statements declared before, none
more often, and others that were not taken, each once. -/
structure Accounts (taken before after kept brought : List String) : Prop where
  perm : after.Perm (kept ++ brought)
  subperm : kept.Subperm before
  nodup : brought.Nodup
  fresh : ∀ x ∈ brought, x ∉ taken

namespace Accounts

variable {more before after kept brought before' after' kept' brought' : List String}

/-- Names of a first part, all of which are taken when the names of a second part are looked for. -/
theorem append (h : Accounts taken before after kept brought)
    (h' : Accounts (more ++ taken) before' after' kept' brought') (hmore : brought ⊆ more) :
    Accounts taken (before ++ before') (after ++ after') (kept ++ kept') (brought ++ brought') where
  perm := by
    rw [List.perm_iff_count]
    intro x
    have hx := h.perm.count_eq x
    have hx' := h'.perm.count_eq x
    simp only [List.count_append] at hx hx' ⊢
    omega
  subperm := h.subperm.append h'.subperm
  nodup := by
    rw [Context.nodup_append_iff_of_nodup h.nodup h'.nodup]
    intro x hx hmem
    exact h'.fresh x hx (List.mem_append_left _ (hmore hmem))
  fresh := by
    intro x hx
    rcases List.mem_append.mp hx with hx | hx
    · exact h.fresh x hx
    · exact fun hmem => h'.fresh x hx (List.mem_append_right _ hmem)

/-- Afterwards no name is there twice if none was before and the names before are taken. -/
theorem nodup_after (h : Accounts taken before after kept brought) (hbefore : before.Nodup) (hsub : before ⊆ taken) :
    after.Nodup := by
  have hkept : kept.Nodup := by
    obtain ⟨l, hl, hsublist⟩ := h.subperm
    exact hl.nodup_iff.mp (hsublist.nodup hbefore)
  rw [h.perm.nodup_iff, Context.nodup_append_iff_of_nodup hkept h.nodup]
  intro x hx hmem
  exact h.fresh x hx (hsub (h.subperm.subset hmem))

end Accounts

/-- The names of one statement. -/
theorem accounts_outcome (s : Setting) (uses : List Use) (p : Progress) (ht : t.declared.Nodup) :
    ∃ kept brought,
      Accounts p.taken t.declared (declaredNames (outcome s uses p t).written) kept brought ∧
        brought ⊆ (outcome s uses p t).handedOut := by
  cases hc : (outcome s uses p t).site? with
  | none =>
      have hwritten : declaredNames (outcome s uses p t).written = t.declared := by
        rw [Outcome.written, Outcome.inserted, hc, after_of_site?_eq_none hc]
        exact List.append_nil _
      rw [hwritten]
      exact ⟨t.declared, [], ⟨by simp, .refl _, .nil, fun _ hx => absurd hx List.not_mem_nil⟩, List.nil_subset _⟩
  | some c =>
      obtain ⟨others, hbefore, hafter⟩ := declared_site hc
      have hwritten : declaredNames (outcome s uses p t).written =
          (outcome s uses p t).after.declared ++ (c.reads ++ c.helpers).map (·.1) := by
        rw [Outcome.written, Outcome.inserted, hc, Tree.declaredNames_cons]
        show _ ++ declaredNames (c.inserted ++ []) = _
        rw [List.append_nil, Site.inserted, declaredNames_declarations]
      have hnames : ([c.field, c.form] ++ (c.reads ++ c.helpers).map (·.1)).Perm
          (keptNames uses c.hook ++ broughtIn uses p c.hook) := by
        rw [eq_siteOf hc]
        exact names_siteOf s uses p c.hook
      -- the places of the hook share no name, since the statement declares none twice
      have hslots : (c.hook.slots.flatMap Tree.boundNames).Nodup :=
        (List.sublist_append_right ..).nodup (hbefore.nodup_iff.mp ht)
      refine ⟨others ++ keptNames uses c.hook, broughtIn uses p c.hook, ⟨?_, ?_, ?_, ?_⟩, ?_⟩
      · calc declaredNames (outcome s uses p t).written
            = (outcome s uses p t).after.declared ++ (c.reads ++ c.helpers).map (·.1) := hwritten
          _ ~ others ++ [c.field, c.form] ++ (c.reads ++ c.helpers).map (·.1) := hafter.append_right _
          _ = others ++ ([c.field, c.form] ++ (c.reads ++ c.helpers).map (·.1)) := List.append_assoc ..
          _ ~ others ++ (keptNames uses c.hook ++ broughtIn uses p c.hook) := hnames.append_left _
          _ = others ++ keptNames uses c.hook ++ broughtIn uses p c.hook := (List.append_assoc ..).symm
      · exact ((List.subperm_append_left others).mpr (keptNames_subperm uses hslots)).trans hbefore.symm.subperm
      · exact broughtIn_nodup uses p c.hook
      · exact fun x hx => not_taken_of_broughtIn hx
      · rw [Outcome.handedOut, hc]
        show _ ⊆ c.handedOut ++ []
        rw [List.append_nil]
        exact handedOut_of_broughtIn hc

/-- The names of all statements. -/
theorem accounts_outcomes (s : Setting) (uses : List Use) (p : Progress) (hss : (declaredNames ss).Nodup) :
    ∃ kept brought,
      Accounts p.taken (declaredNames ss) (declaredNames ((outcomes s uses p ss).flatMap Outcome.written)) kept
        brought := by
  induction ss generalizing p with
  | nil => exact ⟨[], [], ⟨.refl _, .refl _, .nil, nofun⟩⟩
  | cons t ss ih =>
      rw [Tree.declaredNames_cons, List.nodup_append] at hss
      obtain ⟨kept, brought, hhere, hmore⟩ := accounts_outcome s uses p hss.1
      obtain ⟨kept', brought', hrest⟩ := ih (step s uses p t) hss.2.1
      rw [step_eq] at hrest
      refine ⟨kept ++ kept', brought ++ brought', ?_⟩
      rw [outcomes, List.flatMap_cons, Tree.declaredNames_append, Tree.declaredNames_cons, step_eq]
      exact hhere.append hrest hmore

/-- Statements that declare no name twice do not do so afterwards either. -/
theorem nodup_declaredNames (s : Setting) (uses : List Use) (hss : (declaredNames ss).Nodup)
    (hp : declaredNames ss ⊆ p.taken) :
    (declaredNames ((outcomes s uses p ss).flatMap Outcome.written)).Nodup := by
  obtain ⟨kept, brought, h⟩ := accounts_outcomes s uses p hss
  exact h.nodup_after hss hp

end FormCodemod.FieldHook
