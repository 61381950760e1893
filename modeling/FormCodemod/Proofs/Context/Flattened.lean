import FormCodemod.Convert.Context
import FormCodemod.Proofs.Convert.Declared
import FormCodemod.Proofs.Convert.Reads
import FormCodemod.Proofs.Names.Hooks
import FormCodemod.Proofs.Scope.Uses

/-!
# Reads off a context that is bound to a variable

`const b = useFormikContext()` binds the whole form state to `b`, and `b.values` becomes `values`. That name means the
form's values if the scope declares it once, by the helper that the conversion puts in.
`Context.convertScope_flattened` says when it does: if the scope has no declaration of that name already, that of `b`
among them.

Members are replaced by plain names first, and only then is it asked which names the scope refers to and which it
declares. So a name that a declaration of the scope has taken is given no helper, and `b` itself, if it is called like
one of its members, is declared a second time.
-/

namespace FormCodemod

open FormCodemod.Tree (declaredNames)

/-! ## Helpers of capabilities that go by their own names -/

namespace Capabilities

/-- The capabilities that are read off a form state and have a helper. -/
def helpedKeys : List String := ["values", "setFieldValue", "setFieldTouched", "isSubmitting"]

/-- The helper of a capability that goes by its own name. -/
inductive IsHelper (s : Setting) (form : String) : String → Tree → Prop
  | values : IsHelper s form "values" (valuesHelper form "values")
  | direct : IsHelper s form "setFieldValue" (setter s "setFieldValue" (Make.member (Make.ident form) "update"))
  | indirect : IsHelper s form "setFieldValue" (setter s "setFieldValue" (Make.ident "update"))
  | setFieldTouched : IsHelper s form "setFieldTouched" (touchedHelper s "setFieldTouched")
  | isSubmitting : IsHelper s form "isSubmitting" (submittingHelper "isSubmitting")

variable {s : Setting} {form k b : String} {t : Tree} {uses : List Use} {declared : List String} {fieldset : Bool}

/-- A helper declares the capability that it helps with, under its own name. -/
theorem IsHelper.declared_eq (h : IsHelper s form k t) : t.declared = [k] := by
  cases h <;> rfl

/-- The variable that holds the form is no helper. -/
theorem not_isHelper_whole (s : Setting) (form k b : String) :
    ¬ IsHelper s form k (Make.constNamed b (Make.ident formName)) := by
  intro h
  generalize ht : Make.constNamed b (Make.ident formName) = t at h
  cases h <;> cases ht

/-- A name that is referred to and not declared. -/
def ownName? (uses : List Use) (declared : List String) (k : String) : Option String :=
  if uses.contains (.ref k) && !declared.contains k then some k else none

theorem ownName?_eq_some {x : String} : ownName? uses declared k = some x ↔ x = k ∧ .ref k ∈ uses ∧ k ∉ declared := by
  unfold ownName?
  split
  next hc =>
    rw [Bool.and_eq_true, Bool.not_eq_true', List.contains_iff_mem] at hc
    have hno : k ∉ declared := fun hmem => by simp [hmem] at hc
    rw [Option.some.injEq, eq_comm]
    exact (and_iff_left ⟨hc.1, hno⟩).symm
  next hc =>
    refine iff_of_false nofun ?_
    rintro ⟨-, huses, hno⟩
    simp [huses, hno] at hc

/-- The capabilities of a scope that took nothing apart go by their own names. -/
def ofUses (uses : List Use) (declared : List String) (fieldset : Bool) : Capabilities where
  values := ownName? uses declared "values"
  setFieldValue := ownName? uses declared "setFieldValue"
  setFieldTouched := ownName? uses declared "setFieldTouched"
  isSubmitting := ownName? uses declared "isSubmitting"
  getFieldProps := ownName? uses declared "getFieldProps"
  fieldset := fieldset

theorem resolve_nil (uses : List Use) (declared : List String) (fieldset : Bool) :
    { resolve [] uses declared with fieldset := fieldset } = ofUses uses declared fieldset := rfl

/-- A capability that is used and not declared has a helper. -/
theorem exists_isHelper (s : Setting) (form : String) (fieldset : Bool) (hk : k ∈ helpedKeys) (huses : .ref k ∈ uses)
    (hno : k ∉ declared) : ∃ t ∈ (ofUses uses declared fieldset).helpers s form, IsHelper s form k t := by
  have hopen : ownName? uses declared k = some k := ownName?_eq_some.mpr ⟨rfl, huses, hno⟩
  simp only [helpers, ofUses, List.mem_append]
  simp only [helpedKeys, List.mem_cons, List.not_mem_nil, or_false] at hk
  rcases hk with rfl | rfl | rfl | rfl
  · exact ⟨_, .inl (.inl (.inl (.inl (by simp [hopen])))), .values⟩
  · cases hdirect : (ofUses uses declared fieldset).onlySetsValues with
    | true =>
        refine ⟨_, .inl (.inl (.inl (.inr (List.mem_flatMap.mpr ⟨_, Option.mem_toList.mpr hopen, ?_⟩)))), .direct⟩
        rw [ofUses] at hdirect
        simp [setterHelpers, hdirect]
    | false =>
        refine ⟨_, .inl (.inl (.inl (.inr (List.mem_flatMap.mpr ⟨_, Option.mem_toList.mpr hopen, ?_⟩)))), .indirect⟩
        rw [ofUses] at hdirect
        simp [setterHelpers, hdirect]
  · exact ⟨_, .inl (.inr (by simp [hopen])), .setFieldTouched⟩
  · exact ⟨_, .inr (by simp [hopen]), .isSubmitting⟩

/-- The helpers have different names. -/
theorem helped_sublist (uses : List Use) (declared : List String) (fieldset : Bool) :
    (ofUses uses declared fieldset).helped.Sublist
      (["values"] ++ ["update", "setFieldValue"] ++ [fieldsName] ++ ["setFieldTouched"] ++ ["isSubmitting"]) := by
  have hopen : ∀ k, (ownName? uses declared k).toList.Sublist [k] := by
    intro k
    unfold ownName?
    split
    · exact .refl _
    · exact List.nil_sublist _
  have hsetter : ∀ (direct : Bool) (k : String), ((ownName? uses declared k).toList.flatMap fun x =>
      if direct then [x] else ["update", x]).Sublist ["update", k] := by
    intro direct k
    cases hk : ownName? uses declared k with
    | none => exact List.nil_sublist _
    | some x =>
        obtain ⟨rfl, -⟩ := ownName?_eq_some.mp hk
        cases direct with
        | false => exact .refl _
        | true => exact .cons _ (.refl _)
  have hfieldset : (if fieldset then [fieldsName] else []).Sublist [fieldsName] := by
    cases fieldset with
    | false => exact List.nil_sublist _
    | true => exact .refl _
  exact ((((hopen _).append (hsetter _ _)).append hfieldset).append (hopen _)).append (hopen _)

/-- The names that helpers take are those that are used and not declared. -/
theorem mem_helped_ofUses (hk : k ∈ helpedKeys) :
    k ∈ (ofUses uses declared fieldset).helped ↔ .ref k ∈ uses ∧ k ∉ declared := by
  constructor
  · intro h
    have hne : ∀ k ∈ helpedKeys, k ≠ "update" ∧ k ≠ fieldsName := by decide
    rcases mem_helped h with h | ⟨-, h⟩ | h
    · exact absurd h (hne k hk).1
    · exact absurd h (hne k hk).2
    · simp only [names, ofUses, List.mem_append, Option.mem_toList, ownName?_eq_some] at h
      rcases h with ((⟨rfl, hopen⟩ | ⟨rfl, hopen⟩) | ⟨rfl, hopen⟩) | ⟨rfl, hopen⟩
      · exact hopen
      · exact hopen
      · exact hopen
      · exact hopen
  · rintro ⟨huses, hno⟩
    obtain ⟨t, ht, hhelper⟩ := exists_isHelper ⟨{}, false⟩ formName fieldset hk huses hno
    rw [← declaredNames_helpers _ ⟨{}, false⟩ formName]
    exact List.mem_flatMap.mpr ⟨t, ht, by simp [hhelper.declared_eq]⟩

/-- A capability has a helper if it is referred to and not declared. -/
theorem isHelper_iff (hk : k ∈ helpedKeys) :
    (∃ t ∈ wholeHelper uses (some b) ++ (ofUses uses declared fieldset).helpers s form, IsHelper s form k t) ↔
      .ref k ∈ uses ∧ k ∉ declared := by
  constructor
  · rintro ⟨t, ht, hhelper⟩
    rcases List.mem_append.mp ht with ht | ht
    · unfold wholeHelper at ht
      split at ht
      · split at ht
        · obtain rfl := List.mem_singleton.mp ht
          exact absurd hhelper (not_isHelper_whole s form k _)
        · cases ht
      · cases ht
    · rw [← mem_helped_ofUses hk, ← declaredNames_helpers]
      exact List.mem_flatMap.mpr ⟨t, ht, by simp [hhelper.declared_eq]⟩
  · rintro ⟨huses, hno⟩
    obtain ⟨t, ht, hhelper⟩ := exists_isHelper s form fieldset hk huses hno
    exact ⟨t, List.mem_append_right _ ht, hhelper⟩

end Capabilities

/-! ## The declaration of the hook -/

namespace Tree

variable {hook : String} {t t' p : Tree} {ss ss' : List Tree} {i : Nat}

/-- A converted hook binds the form in the place of its pattern. -/
theorem declaredPattern_convertHook? (h : convertHook? hook t = some (t', p)) :
    t.declaredPattern = p ∧ t'.declaredPattern = Make.binding formName := by
  obtain ⟨o, d, co, callee, args, targs, -, rfl, rfl⟩ := convertHook?_eq_some h
  exact ⟨rfl, rfl⟩

/-- The statement of a converted hook declares the form in the place of what the pattern bound. -/
theorem declared_convertHookIn? (h : convertHookIn? hook t = some (t', p)) :
    ∃ rest, t.declared.Perm (p.boundNames ++ rest) ∧ t'.declared.Perm (formName :: rest) := by
  obtain ⟨o, kw, dcl, pre, d, d', post, hd, rfl, rfl⟩ := convertHookIn?_eq_some h
  obtain ⟨hp, hform⟩ := declaredPattern_convertHook? hd
  refine ⟨(pre ++ post).flatMap fun d => d.declaredPattern.boundNames, ?_, ?_⟩
  · rw [declared, List.flatMap_append, List.flatMap_cons, hp, List.flatMap_append]
    exact List.perm_append_comm_assoc ..
  · rw [declared, List.flatMap_append, List.flatMap_cons, hform, List.flatMap_append]
    exact List.perm_append_comm_assoc ..

/-- The statements declare the form in the place of what the hook was bound to. -/
theorem declaredNames_hook (h : mapFirst? (convertHookIn? hook) ss = some (ss', i, p)) :
    ∃ rest, (declaredNames ss).Perm (p.boundNames ++ rest) ∧ (declaredNames ss').Perm (formName :: rest) := by
  obtain ⟨pre, t, t', post, rfl, ht, rfl, -⟩ := mapFirst?_eq_some h
  obtain ⟨rest, hbefore, hafter⟩ := declared_convertHookIn? ht
  refine ⟨rest ++ (declaredNames pre ++ declaredNames post), ?_, ?_⟩
  · rw [declaredNames_append, declaredNames_cons, ← List.append_assoc p.boundNames]
    exact (List.perm_append_comm_assoc ..).trans (hbefore.append_right _)
  · rw [declaredNames_append, declaredNames_cons, ← List.cons_append]
    exact (List.perm_append_comm_assoc ..).trans (hafter.append_right _)

end Tree

namespace Context

variable {s : Setting} {body : Tree} {ss ss' : List Tree} {i : Nat} {p : Tree} {b k : String}

/-- The helpers of a scope that bound the form state to `b`. -/
def helpersOf (s : Setting) (b : String) (flat : Tree) : List Tree :=
  let uses := flat.unwiredUses s.names
  let caps := Capabilities.resolve [] uses (declaredNames flat.statements)
  Capabilities.wholeHelper uses (some b) ++
    { caps with fieldset := caps.fieldset || flat.rendersFields s.names }.helpers s formName

/-- A scope that bound the form state to a variable is flattened, with helpers behind the hook. -/
theorem statements_convertScope (hss : body.statements? = some ss)
    (hhook : mapFirst? (Tree.convertHookIn? s.names.useFormikContext) ss = some (ss', i, p))
    (hb : p.wholeBinding? = some b) :
    (convertScope s body).statements =
      insertAt (i + 1) (helpersOf s b ((body.withStatements ss').flatten b formName))
        ((body.withStatements ss').flatten b formName).statements := by
  rw [convertScope, hss]
  dsimp only
  rw [hhook]
  dsimp only
  rw [Tree.convertReads_of_whole hb, Tree.takenNames_of_wholeBinding? hb, hb, Tree.statements_withStatements]
  rfl

/-- Where one of these capabilities is read off the variable, its plain name is put in. -/
theorem findsFirst_flatRead? {t : Tree} {q : Place} (hk : k ∈ Capabilities.helpedKeys)
    (h : t.FindsFirst Tree.opensScope (Tree.memberOf? b) q k) :
    t.FindsFirst Tree.opensScope (Tree.flatRead? b formName) q (Make.ident k) := by
  have hflat : ∀ k ∈ Capabilities.helpedKeys, handlers.lookup k = none ∧ flattened.contains k = true := by decide
  obtain ⟨u, hu, hmember⟩ := h.found
  refine ⟨h.reached, ⟨u, hu, ?_⟩, fun q' hq' hne u hu => ?_⟩
  · rw [Tree.flatRead?_eq_bind, hmember, Option.bind_some, Tree.flatKey?, (hflat k hk).1]
    exact if_pos (hflat k hk).2
  · rw [Tree.flatRead?_eq_bind, h.first q' hq' hne u hu, Option.bind_none]

theorem memberOf?_of_not_isNode (u : Tree) (h : u.isNode = false) : u.opensScope = false ∧ u.memberOf? b = none := by
  cases u with
  | node o k ts => cases h
  | list ts => exact ⟨rfl, rfl⟩
  | absent => exact ⟨rfl, rfl⟩

theorem flatRead?_of_not_isNode (u : Tree) (h : u.isNode = false) : Tree.flatRead? b formName u = none := by
  rw [Tree.flatRead?_eq_bind, (memberOf?_of_not_isNode u h).2, Option.bind_none]

/-- The plain name stands where the member was read, and is referred to unless it is left out there. -/
theorem refers_flatten {t : Tree} {q : Place} (s : Skip) (hk : k ∈ Capabilities.helpedKeys)
    (h : t.FindsFirst Tree.opensScope (Tree.memberOf? b) q k) :
    (t.flatten b formName).at? q = some (Make.ident k) ∧
      (¬ (t.flatten b formName).LeftOut s q → .ref k ∈ (t.flatten b formName).usesWith s) := by
  have hread := findsFirst_flatRead? hk h
  have hhere := hread.at?_mapDown flatRead?_of_not_isNode
  have hreached := hread.reaches_mapDown (fun _ _ => Tree.outline_flatRead?) flatRead?_of_not_isNode rfl
  exact ⟨hhere, fun hno => Tree.refers s k _ q _ _ hreached hhere hno⟩

/-- To flatten reads leaves the declared names alone. -/
theorem declaredNames_flatten (hb : p.wholeBinding? = some b) (body : Tree) (ss : List Tree) :
    declaredNames ((body.withStatements ss).flatten b formName).statements = declaredNames ss := by
  rw [← Tree.convertReads_of_whole hb, Tree.statements_convertReads_withStatements,
    Tree.declaredNames_map (Tree.rewritten_convertReads p)]

/-- What is counted of a capability's name once the helpers are in. -/
theorem count_helpersOf (hk : k ∈ Capabilities.helpedKeys) (flat : Tree) :
    (declaredNames (helpersOf s b flat)).count k =
      (if b = k ∧ .ref k ∈ flat.unwiredUses s.names then 1 else 0) +
        if .ref k ∈ flat.unwiredUses s.names ∧ k ∉ declaredNames flat.statements then 1 else 0 := by
  have hwhole : (declaredNames (Capabilities.wholeHelper (flat.unwiredUses s.names) (some b))).count k =
      if b = k ∧ .ref k ∈ flat.unwiredUses s.names then 1 else 0 := by
    rw [Capabilities.declaredNames_wholeHelper, Option.filter_some]
    by_cases hbk : b = k
    · subst hbk
      by_cases huse : .ref b ∈ flat.unwiredUses s.names
      · simp [huse]
      · simp [huse]
    · have hnone : ¬ (b = k ∧ .ref k ∈ flat.unwiredUses s.names) := fun h => hbk h.1
      rw [if_neg hnone, List.count_eq_zero]
      intro hmem
      split at hmem
      · exact hbk (List.mem_singleton.mp hmem).symm
      · cases hmem
  rw [helpersOf, Tree.declaredNames_append, List.count_append, hwhole, Capabilities.declaredNames_helpers,
    Capabilities.resolve_nil, (Capabilities.helped_sublist ..).nodup (by decide) |>.count]
  simp only [Capabilities.mem_helped_ofUses hk]

/-- In a scope that binds the whole form state to `b`, a capability `k` is declared once and by its helper exactly if the
scope did not declare `k` before and refers to `k` when `b.k` has become `k`. It does refer to it if `b.k` is read at a
place that inputs do not lose. -/
theorem convertScope_flattened (s : Setting) (body : Tree) (ss ss' : List Tree) (i : Nat) (p : Tree) (b : String)
    (hss : body.statements? = some ss)
    (hhook : mapFirst? (Tree.convertHookIn? s.names.useFormikContext) ss = some (ss', i, p))
    (hb : p.wholeBinding? = some b) :
    ∃ (flat : Tree) (helpers : List Tree),
      flat = (body.withStatements ss').flatten b formName ∧
      (convertScope s body).statements = insertAt (i + 1) helpers flat.statements ∧
      ∀ k ∈ Capabilities.helpedKeys,
        (((declaredNames (convertScope s body).statements).count k = 1 ∧
            ∃ t ∈ helpers, Capabilities.IsHelper s formName k t) ↔
          k ∉ declaredNames ss ∧ .ref k ∈ flat.unwiredUses s.names) ∧
        ∀ q, (body.withStatements ss').FindsFirst Tree.opensScope (Tree.memberOf? b) q k →
          flat.at? q = some (Make.ident k) ∧
            (¬ flat.LeftOut (.wiring s.names) q → .ref k ∈ flat.unwiredUses s.names) := by
  refine ⟨_, _, rfl, statements_convertScope hss hhook hb, fun k hk => ⟨?_, fun q hq => refers_flatten _ hk hq⟩⟩
  generalize hflat : (body.withStatements ss').flatten b formName = flat
  obtain ⟨rest, hbefore, hafter⟩ := Tree.declaredNames_hook hhook
  rw [Tree.boundNames_of_wholeBinding? hb] at hbefore
  -- the hook now declares the form, in the place of the variable
  have hdeclared : (declaredNames flat.statements).Perm (formName :: rest) := by
    rw [← hflat, declaredNames_flatten hb]
    exact hafter
  have hform : ∀ k ∈ Capabilities.helpedKeys, k ≠ formName := by decide
  -- so a capability is declared by the other statements or by the helpers
  have hcount : (declaredNames (convertScope s body).statements).count k =
      rest.count k + (declaredNames (helpersOf s b flat)).count k := by
    rw [statements_convertScope hss hhook hb, hflat, (Tree.declaredNames_insertAt ..).count_eq, List.count_append,
      hdeclared.count_eq, List.count_cons_of_ne (hform k hk).symm]
  have hhelper : (∃ t ∈ helpersOf s b flat, Capabilities.IsHelper s formName k t) ↔
      .ref k ∈ flat.unwiredUses s.names ∧ k ∉ declaredNames flat.statements := Capabilities.isHelper_iff hk
  have hflatNames : k ∈ declaredNames flat.statements ↔ k ∈ rest := by
    rw [hdeclared.mem_iff, List.mem_cons, or_iff_right (hform k hk)]
  have hownNames : k ∈ declaredNames ss ↔ k = b ∨ k ∈ rest := by
    rw [hbefore.mem_iff, List.singleton_append, List.mem_cons]
  rw [hcount, hhelper, count_helpersOf hk]
  constructor
  · rintro ⟨hone, huse, hno⟩
    refine ⟨fun hmem => ?_, huse⟩
    rcases hownNames.mp hmem with rfl | hmem
    · -- the variable is called like the member, and both are declared
      rw [if_pos ⟨rfl, huse⟩, if_pos ⟨huse, hno⟩] at hone
      omega
    · exact hno (hflatNames.mpr hmem)
  · rintro ⟨hno, huse⟩
    have hrest : k ∉ rest := fun hmem => hno (hownNames.mpr (.inr hmem))
    have hne : b ≠ k := fun heq => hno (hownNames.mpr (.inl heq.symm))
    have hopen : k ∉ declaredNames flat.statements := fun hmem => hrest (hflatNames.mp hmem)
    rw [List.count_eq_zero_of_not_mem hrest, if_neg fun h => hne h.1, if_pos ⟨huse, hopen⟩]
    exact ⟨rfl, huse, hopen⟩

/-- `{ const values = useFormikContext(); return <p>{values.values.name}</p>; }` -/
def valuesBody : Tree :=
  let name := Make.member (Make.member (Make.ident "values") "values") "name"
  Make.block [Make.constNamed "values" (Make.callNamed "useFormikContext" []),
    Make.ret (Make.element "p" [] [Make.container name])]

/-- The variable that holds the form state is called like the member that is read off it, and both are declared. -/
theorem valuesBody_flattened :
    ∃ (ss' : List Tree) (flat : Tree) (helpers : List Tree) (q : Place),
      mapFirst? (Tree.convertHookIn? "useFormikContext") valuesBody.statements = some (ss', 0, Make.binding "values") ∧
      (valuesBody.withStatements ss').FindsFirst Tree.opensScope (Tree.memberOf? "values") q "values" ∧
      flat.at? q = some (Make.ident "values") ∧ .ref "values" ∈ flat.unwiredUses {} ∧
      (convertScope ⟨{}, false⟩ valuesBody).statements = insertAt 1 helpers flat.statements ∧
      declaredNames (convertScope ⟨{}, false⟩ valuesBody).statements = ["form", "values", "values"] ∧
      ¬ ((declaredNames (convertScope ⟨{}, false⟩ valuesBody).statements).count "values" = 1 ∧
        ∃ t ∈ helpers, Capabilities.IsHelper ⟨{}, false⟩ formName "values" t) := by
  obtain ⟨flat, helpers, rfl, hstatements, hkeys⟩ :=
    convertScope_flattened ⟨{}, false⟩ valuesBody _ _ 0 (Make.binding "values") "values" rfl rfl rfl
  obtain ⟨hiff, hreads⟩ := hkeys "values" (by decide)
  refine ⟨_, _, helpers, [1, 0, 3, 0, 0, 0], rfl, ?read, (hreads _ ?read).1, by decide, hstatements, by decide, ?_⟩
  · exact (Tree.mem_outermostAt_iff memberOf?_of_not_isNode _).mp (List.mem_singleton.mpr rfl)
  · exact fun honce => (hiff.mp honce).1 (by decide)

end Context

end FormCodemod
