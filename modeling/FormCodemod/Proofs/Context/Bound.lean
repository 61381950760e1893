import FormCodemod.Proofs.Context.Converted
import FormCodemod.Proofs.Context.Flattened

/-!
# Names that a component binds

A component binds the names of its parameters and those that its statements declare (`Tree.ownNames`). The conversion of
the context hook takes out the names that the hook's result was bound to, keeps those of them that capabilities go by, and
brings in names of its own (`Context.broughtIn`): `form`, `update` and `fields`, and the names of capabilities that the
scope refers to without having taken them.

Only the last of these are compared with what the statements declare, and none with the parameters. So a component
that binds no name twice does so afterwards exactly if a name that is brought in was there before
(`Context.convert_binds_once`).
-/

namespace FormCodemod

open FormCodemod.Tree (declaredNames)
open Observed (Gives)

namespace Tree

variable {t t' : Tree} {ts' : List Tree} {x : String}

def paramNames (t : Tree) : List String := (t.children[0]?.bind itemNames?).getD []

def bodyNames (t : Tree) : List String := (t.children[1]?.map fun body => declaredNames body.statements).getD []

def ownNames (t : Tree) : List String := t.paramNames ++ t.bodyNames

/-! ## What a walk leaves of names -/

/-- The trees bind and declare the same names. -/
structure SameNames (t t' : Tree) : Prop where
  bound : t'.boundNames = t.boundNames
  items : t'.itemNames? = t.itemNames?
  pattern : t'.declaredPattern.boundNames = t.declaredPattern.boundNames
  tag : t'.tag? = t.tag?
  declared : t'.declared = t.declared
  statements : declaredNames t'.statements = declaredNames t.statements

/-- A node binds the same names around children that bind the same names. -/
theorem sameNames_congruence : Congruence SameNames where
  refl _ := ⟨rfl, rfl, rfl, rfl, rfl, rfl⟩
  trans h h' :=
    ⟨h'.bound.trans h.bound, h'.items.trans h.items, h'.pattern.trans h.pattern, h'.tag.trans h.tag,
      h'.declared.trans h.declared, h'.statements.trans h.statements⟩
  parent {t ts'} h := by
    cases t with
    | node o k ts =>
        -- a pattern binds what its parts bind, and a statement declares what its declarators or its name do
        have hbound : ts'.map (fun t => (t.boundNames, t.itemNames?)) = ts.map fun t => (t.boundNames, t.itemNames?) :=
          map_eq_of_forall₂ (h.imp fun _ _ h => Prod.ext h.bound h.items)
        have hdeclared : ts'.map (fun t => (t.declaredPattern.boundNames, t.tag?)) =
            ts.map fun t => (t.declaredPattern.boundNames, t.tag?) :=
          map_eq_of_forall₂ (h.imp fun _ _ h => Prod.ext h.pattern h.tag)
        refine ⟨?_, rfl, ?_, ?_, ?_, ?_⟩
        · rw [withChildren, boundNames_node, boundNames_node, hbound]
        · cases k with
          | part k =>
              cases k with
              | declarator d =>
                  cases h with
                  | nil => rfl
                  | cons hp _ => exact hp.bound
              | _ => rfl
          | _ => rfl
        · cases k with
          | part k => cases k <;> rfl
          | _ => rfl
        · rw [withChildren, declared_node, declared_node, hdeclared]
        · cases k with
          | stmt k =>
              cases k with
              | block =>
                  exact flatMap_eq_of_map_eq (map_eq_of_forall₂ (h.imp fun _ _ h => h.declared))
              | _ => rfl
          | _ => rfl
    | list ts =>
        have hitems : List.map boundNames ts' = ts.map boundNames := map_eq_of_forall₂ (h.imp fun _ _ h => h.bound)
        refine ⟨rfl, ?_, rfl, rfl, rfl, rfl⟩
        rw [withChildren, itemNames?, itemNames?, allBoundNames_eq_flatMap, allBoundNames_eq_flatMap,
          flatMap_eq_of_map_eq hitems]
    | absent => exact ⟨rfl, rfl, rfl, rfl, rfl, rfl⟩

/-- From outside, a function binds and declares nothing, whatever it holds. -/
theorem sameNames_of_isFunction (h : t.isFunction = true) (ts' : List Tree) : SameNames t (t.withChildren ts') := by
  unfold isFunction at h
  split at h
  · exact ⟨rfl, rfl, rfl, rfl, rfl, rfl⟩
  · exact ⟨rfl, rfl, rfl, rfl, rfl, rfl⟩
  · cases h

/-- Whatever is done with bodies, a walk leaves the names that functions bind by parameters. -/
theorem walkable_sameNames {m : Type → Type} [Monad m] [Observed m] (f : ScopeKind → Tree → m Tree) :
    Walkable f fun t _ t' _ => SameNames t t' :=
  sameNames_congruence.walkable fun hscope _ => sameNames_of_isFunction (isFunction_of_scopeBody? hscope) _

/-- A walk through the parts of a function leaves the names that it binds as they are. -/
theorem ownNames_withChildren (h : List.Forall₂ SameNames t.children ts') : (t.withChildren ts').ownNames = t.ownNames := by
  have hchildren : (t.withChildren ts').children = ts' := children_withChildren h.length_eq.symm
  rw [ownNames, ownNames, paramNames, paramNames, bodyNames, bodyNames, hchildren]
  generalize t.children = ts at h
  cases h with
  | nil => rfl
  | cons hparams h =>
      have hitems := hparams.items
      cases h with
      | nil => simp [hitems]
      | cons hbody h => simp [hitems, hbody.statements]

/-! ## Names that a pattern gives to capabilities -/

/-- A key that is taken under a name binds that name only. -/
theorem takenKey?_boundNames {q : Tree} {e : String × String} (h : takenKey? q = some e) : q.boundNames = [e.2] := by
  unfold takenKey? at h
  split at h
  · cases h
    rfl
  · obtain ⟨k, -, rfl⟩ := Option.map_eq_some_iff.mp h
    rfl
  · cases h

/-- A pattern binds every name that it gives to a key, and others perhaps. -/
theorem takenKeys_sublist (p : Tree) : (p.takenKeys.map (·.2)).Sublist p.boundNames := by
  unfold takenKeys
  split
  next ps _ =>
    rw [boundNames, allBoundNames_eq_flatMap]
    -- property by property: one that is taken binds the one name, others are passed over
    induction ps with
    | nil => exact .refl _
    | cons q ps ih =>
        rw [List.flatMap_cons]
        cases hq : takenKey? q with
        | none =>
            rw [List.filterMap_cons_none hq]
            exact ih.trans (List.sublist_append_right ..)
        | some e =>
            rw [List.filterMap_cons_some hq, List.map_cons, takenKey?_boundNames hq]
            exact ih.cons_cons e.2
  next => exact List.nil_sublist _

/-- A pattern that binds no name twice does not give one name to two keys. -/
theorem takenNames_injective {p : Tree} {k k' : String} (hp : p.boundNames.Nodup) (h : p.takenNames.get? k = some x)
    (h' : p.takenNames.get? k' = some x) : k = k' := by
  have htaken : ∀ {k : String}, p.takenNames.get? k = some x → (k, x) ∈ p.takenKeys :=
    fun h => (Renaming.mem_of_get?_foldl h).resolve_right nofun
  have hnodup : (p.takenKeys.map (·.2)).Nodup := hp.sublist (takenKeys_sublist p)
  exact congrArg Prod.fst (List.inj_on_of_nodup_map hnodup (htaken h) (htaken h') rfl)

end Tree

/-! ## Names of helpers -/

namespace Context

open Capabilities (helpedKeys ownName?)

variable {s : Setting} {p flat : Tree} {x : String}

/-- The names of the old pattern that are declared again: that of the whole form state, if the scope refers to it, and
those that were given to capabilities with a helper. -/
def keptNames (s : Setting) (p flat : Tree) : List String :=
  (p.wholeBinding?.filter fun x => (flat.unwiredUses s.names).contains (.ref x)).toList ++
    helpedKeys.filterMap p.takenNames.get?

/-- Whether the setter of values is declared along with a variable for what it calls. -/
def needsUpdate (c : Capabilities) : Bool := c.setFieldValue.isSome && !c.onlySetsValues

/-- The names that are declared and were not in the old pattern: that of the form, those of helpers for helpers, and those
of capabilities that the scope refers to, has not taken and does not declare. -/
def broughtIn (s : Setting) (p flat : Tree) : List String :=
  let caps := capabilitiesFor s p flat
  [formName] ++ (if needsUpdate caps then ["update"] else []) ++ (if caps.fieldset then [fieldsName] else []) ++
    helpedKeys.filter fun k =>
      (p.takenNames.get? k).isNone && (ownName? (flat.unwiredUses s.names) (declaredNames flat.statements) k).isSome

theorem broughtIn_nodup (s : Setting) (p flat : Tree) : (broughtIn s p flat).Nodup := by
  have hone : ∀ (b : Bool) (x : String), (if b then [x] else []).Sublist [x] := by
    intro b x
    cases b with
    | true => exact .refl _
    | false => exact List.nil_sublist _
  -- each part is there as a whole, in part or not at all
  have hall : ([formName] ++ ["update"] ++ [fieldsName] ++ helpedKeys).Nodup := by decide
  exact hall.sublist ((((List.Sublist.refl _).append (hone ..)).append (hone ..)).append List.filter_sublist)

/-- The names that are kept were bound by the hook's pattern. -/
theorem keptNames_subset (h : x ∈ keptNames s p flat) : x ∈ p.boundNames := by
  rcases List.mem_append.mp h with h | h
  · have hwhole := (Option.filter_eq_some_iff.mp (Option.mem_toList.mp h)).1
    rw [Tree.boundNames_of_wholeBinding? hwhole]
    exact List.mem_singleton.mpr rfl
  · obtain ⟨k, -, hk⟩ := List.mem_filterMap.mp h
    exact Tree.mem_boundNames_of_takenNames hk

theorem keptNames_nodup (hp : p.boundNames.Nodup) : (keptNames s p flat).Nodup := by
  have hkeys : helpedKeys.Nodup := by decide
  have htaken : (helpedKeys.filterMap p.takenNames.get?).Nodup :=
    hkeys.filterMap fun k k' x hk hk' => Tree.takenNames_injective hp hk hk'
  rw [keptNames]
  cases hwhole : p.wholeBinding? with
  | none => exact htaken
  | some x =>
      -- a variable takes nothing apart
      rw [Tree.takenNames_of_wholeBinding? hwhole]
      have hnone : helpedKeys.filterMap (Renaming.get? []) = [] := by decide
      rw [hnone, List.append_nil, Option.filter_some]
      split
      · exact List.nodup_singleton x
      · exact .nil

/-- The name that a capability goes by was given to it, or is its own. -/
theorem pick_toList (taken : Renaming) (uses : List Use) (declared : List String) (k : String) :
    ((taken.get? k).or (ownName? uses declared k)).toList =
      [k].filterMap taken.get? ++
        [k].filter fun k => (taken.get? k).isNone && (ownName? uses declared k).isSome := by
  cases hget : taken.get? k with
  | some x => simp [hget]
  | none =>
      cases hown : ownName? uses declared k with
      | none => simp [hget, hown]
      | some y =>
          obtain ⟨rfl, -⟩ := Capabilities.ownName?_eq_some.mp hown
          simp [hget, hown]

theorem setter_perm (direct : Bool) (y : Option String) :
    (y.toList.flatMap fun x => if direct then [x] else ["update", x]).Perm
      ((if y.isSome && !direct then ["update"] else []) ++ y.toList) := by
  cases y with
  | none => exact .refl _
  | some y => cases direct <;> exact .refl _

/-- With the form's own name, the helpers declare the names that are kept and those that are brought in. -/
theorem declaredNames_helpersFor (s : Setting) (p flat : Tree) :
    (formName :: declaredNames (helpersFor s p flat)).Perm (keptNames s p flat ++ broughtIn s p flat) := by
  have hkeys : helpedKeys = ["values"] ++ (["setFieldValue"] ++ (["setFieldTouched"] ++ ["isSubmitting"])) := rfl
  have hpick := pick_toList p.takenNames (flat.unwiredUses s.names) (declaredNames flat.statements)
  have hvalues : (capabilitiesFor s p flat).values.toList = _ := hpick "values"
  have hsetter : (capabilitiesFor s p flat).setFieldValue.toList = _ := hpick "setFieldValue"
  have htouched : (capabilitiesFor s p flat).setFieldTouched.toList = _ := hpick "setFieldTouched"
  have hsubmitting : (capabilitiesFor s p flat).isSubmitting.toList = _ := hpick "isSubmitting"
  rw [helpersFor, Tree.declaredNames_append, Capabilities.declaredNames_wholeHelper, Capabilities.declaredNames_helpers,
    keptNames, broughtIn, Capabilities.helped, needsUpdate, hkeys, List.perm_iff_count]
  intro x
  have hupdate :=
    (setter_perm (capabilitiesFor s p flat).onlySetsValues (capabilitiesFor s p flat).setFieldValue).count_eq x
  rw [hsetter, List.count_append, List.count_append] at hupdate
  -- each capability goes by a name that is kept or by one that is brought in, and is counted once
  simp only [List.filterMap_append, List.filter_append, List.count_append, List.count_cons, List.count_nil,
    hvalues, hsetter, htouched, hsubmitting]
  omega

/-! ## Functions that were given a context -/

def convertFunction (s : Setting) (t : Tree) : Tree :=
  match t.scopeBody? with
  | some (_, body) => t.withChildren (t.children.set 1 (convertScope s body))
  | none => t

/-- If there is a hook in the function's statements, no name is brought in that the parameters bind, that another
declarator declares, or that is kept. -/
def Apart (s : Setting) (t : Tree) : Prop :=
  ∀ k o ss ss' i p, t.scopeBody? = some (k, .stmt o .block ss) →
    mapFirst? (Tree.convertHookIn? s.names.useFormikContext) ss = some (ss', i, p) →
    ∀ x ∈ broughtIn s p (p.convertReads (.stmt o .block ss')),
      x ∉ t.paramNames ++ (declaredNames ss').erase formName ++ keptNames s p (p.convertReads (.stmt o .block ss'))

theorem ownNames_of_scopeBody? {t body : Tree} {k : ScopeKind} (h : t.scopeBody? = some (k, body)) :
    t.ownNames = t.paramNames ++ declaredNames body.statements := by
  rw [Tree.ownNames, Tree.bodyNames, Tree.children_of_scopeBody? h]
  rfl

/-- A function whose body is exchanged binds its parameters and what the new body declares. -/
theorem ownNames_set {t body body' : Tree} {k : ScopeKind} (h : t.scopeBody? = some (k, body)) :
    (t.withChildren (t.children.set 1 body')).ownNames = t.paramNames ++ declaredNames body'.statements := by
  have hlt : 1 < t.children.length := (List.getElem?_eq_some_iff.mp (Tree.children_of_scopeBody? h)).1
  rw [Tree.ownNames, Tree.bodyNames, Tree.paramNames, Tree.paramNames, Tree.children_withChildren List.length_set,
    List.getElem?_set_ne Nat.one_ne_zero, List.getElem?_set_self hlt]
  rfl

/-- Lists that are each free of repetitions are so together exactly if no item of the last is in one before. -/
theorem nodup_append_iff_of_nodup {α : Type} {as bs : List α} (has : as.Nodup) (hbs : bs.Nodup) :
    (as ++ bs).Nodup ↔ ∀ x ∈ bs, x ∉ as := by
  rw [List.nodup_append']
  constructor
  · rintro ⟨-, -, hdisjoint⟩ x hx hmem
    exact hdisjoint hmem hx
  · intro h
    exact ⟨has, hbs, fun x hmem hx => h x hx hmem⟩

/-- What a function with a hook binds when it is converted. -/
theorem ownNames_convertFunction {t : Tree} {k : ScopeKind} {o : Origin} {ss ss' : List Tree} {i : Nat} {p : Tree}
    (hscope : t.scopeBody? = some (k, .stmt o .block ss))
    (hhook : mapFirst? (Tree.convertHookIn? s.names.useFormikContext) ss = some (ss', i, p)) :
    t.ownNames.Perm (t.paramNames ++ (declaredNames ss').erase formName ++ p.boundNames) ∧
      (convertFunction s t).ownNames.Perm
        (t.paramNames ++ (declaredNames ss').erase formName ++ keptNames s p (p.convertReads (.stmt o .block ss')) ++
          broughtIn s p (p.convertReads (.stmt o .block ss'))) := by
  obtain ⟨rest, hbefore, hafter⟩ := Tree.declaredNames_hook hhook
  have hrest : rest.Perm ((declaredNames ss').erase formName) := by
    have herase := hafter.symm.erase formName
    rwa [List.erase_cons_head] at herase
  have hreads : declaredNames (ss'.map p.convertReads) = declaredNames ss' :=
    Tree.declaredNames_map (Tree.rewritten_convertReads p) ss'
  have hhelpers := declaredNames_helpersFor s p (p.convertReads (.stmt o .block ss'))
  have hconverted : declaredNames (converted s o ss' i p) =
      declaredNames (insertAt (i + 1) (helpersFor s p (p.convertReads (.stmt o .block ss'))) (ss'.map p.convertReads)) :=
    rfl
  constructor
  · have hown : t.ownNames = t.paramNames ++ declaredNames ss := ownNames_of_scopeBody? hscope
    rw [hown, List.append_assoc]
    exact ((hbefore.trans (List.perm_append_comm.trans (hrest.append_right _)))).append_left _
  · have hown : (convertFunction s t).ownNames = t.paramNames ++ declaredNames (converted s o ss' i p) := by
      rw [convertFunction, hscope]
      dsimp only
      rw [convertScope_of_hook hhook, ownNames_set hscope]
      rfl
    rw [hown, List.append_assoc, List.append_assoc, hconverted]
    refine List.Perm.append_left _ ((Tree.declaredNames_insertAt ..).trans ?_)
    -- the form is declared by the hook, the rest of what is brought in by the helpers
    rw [hreads]
    refine ((hafter.trans (hrest.cons formName)).append_right _).trans ?_
    exact List.perm_middle.symm.trans (hhelpers.append_left _)

/-- A function without a hook in its statements stays as it is. -/
theorem convertFunction_of_none {t : Tree}
    (h : ∀ k o ss r, t.scopeBody? = some (k, .stmt o .block ss) →
      mapFirst? (Tree.convertHookIn? s.names.useFormikContext) ss ≠ some r) : convertFunction s t = t := by
  rw [convertFunction]
  split
  next k body hscope =>
    rcases convertScope_cases s body with hself | ⟨o, ss, ss', i, p, rfl, hhook, -⟩
    · obtain ⟨hlt, hbody⟩ := List.getElem?_eq_some_iff.mp (Tree.children_of_scopeBody? hscope)
      rw [hself, ← hbody, List.set_getElem_self, Tree.withChildren_children]
    · exact absurd hhook (h k o ss _ hscope)
  next => rfl

/-- A function that binds no name twice does so once converted exactly if the names that are brought in are apart from the
others. -/
theorem nodup_convertFunction_iff (s : Setting) {t : Tree} (hnodup : t.ownNames.Nodup) :
    (convertFunction s t).ownNames.Nodup ↔ Apart s t := by
  by_cases hno : ∀ k o ss r, t.scopeBody? = some (k, .stmt o .block ss) →
      mapFirst? (Tree.convertHookIn? s.names.useFormikContext) ss ≠ some r
  · rw [convertFunction_of_none hno]
    -- nothing changes, and nothing is asked of names
    exact iff_of_true hnodup fun k o ss ss' i p hscope hhook => absurd hhook (hno k o ss _ hscope)
  · push Not at hno
    obtain ⟨k, o, ss, ⟨ss', i, p⟩, hscope, hhook⟩ := hno
    obtain ⟨hbefore, hafter⟩ := ownNames_convertFunction hscope hhook
    rw [hbefore.nodup_iff, List.nodup_append'] at hnodup
    obtain ⟨hothers, hbound, hdisjoint⟩ := hnodup
    have hkept : (t.paramNames ++ (declaredNames ss').erase formName ++
        keptNames s p (p.convertReads (.stmt o .block ss'))).Nodup :=
      List.nodup_append'.mpr ⟨hothers, keptNames_nodup hbound, fun x hx hx' => hdisjoint hx (keptNames_subset hx')⟩
    rw [hafter.nodup_iff, nodup_append_iff_of_nodup hkept (broughtIn_nodup ..)]
    constructor
    · -- a function has one body, and one hook is the first in it
      intro h k₁ o₁ ss₁ ss₁' i₁ p₁ hscope₁ hhook₁
      rw [hscope] at hscope₁
      cases hscope₁
      rw [hhook] at hhook₁
      cases hhook₁
      exact h
    · exact fun h => h k o ss ss' i p hscope hhook

/-! ## Functions of a converted module -/

/-- The trees that the pass comes to in a module: what is part of an item, or of what the body of a function that it came
to was converted to. -/
inductive Handed (s : Setting) (m : Module) : Tree → Prop
  | item {t : Tree} : t ∈ m.items → Handed s m t
  | child {t c : Tree} : Handed s m t → c ∈ t.children → Handed s m c
  | body {t body : Tree} {k : ScopeKind} : Handed s m t → t.scopeBody? = some (k, body) → Handed s m (convertScope s body)

/-- A function that binds the names of one that the pass came to and converted. -/
def BindsConverted (s : Setting) (m : Module) (t' : Tree) : Prop :=
  ∃ t, Handed s m t ∧ t'.ownNames = (convertFunction s t).ownNames

/-- A function that the context pass has come to binds the names of a converted one, whatever is
converted inside of it later. -/
theorem treats_convertScope (s : Setting) (m : Module) :
    Tree.TreatsFunctions (m := Id) (fun _ body => pure (convertScope s body)) Tree.levels (Handed s m)
      (BindsConverted s m) where
  child := .child
  depth_le := Tree.levels_le_of_mem
  depth_lt := Tree.levels_lt_of_mem
  body {t k body body' σ σ'} hfit hscope hgives := by
    obtain ⟨rfl, -⟩ := Observed.pure_inv hgives
    refine ⟨hfit.body hscope, levels_convertScope_lt hscope, t, hfit, ?_⟩
    rw [convertFunction, hscope]
  walked {t ts'} _ hgood hwalked := by
    obtain ⟨u, hu, hnames⟩ := hgood
    have hsame : List.Forall₂ Tree.SameNames t.children ts' :=
      hwalked.imp fun _ _ ⟨_, _, _, h⟩ => Tree.walk_gives (Tree.walkable_sameNames _) h
    exact ⟨u, hu, (Tree.ownNames_withChildren hsame).trans hnames⟩

/-- A function that binds no name twice, by its parameters and its statements, does so once its context hook is converted
exactly if none of the names that are brought in was there before. The functions of a converted module bind the names of
such functions. -/
theorem convert_binds_once (s : Setting) :
    (∀ t : Tree, t.ownNames.Nodup → ((convertFunction s t).ownNames.Nodup ↔ Apart s t)) ∧
    ∀ (m : Module), ∀ h ∈ (convert s m).handouts, ∃ t t',
      Handed s m t ∧ (convert s m).at? h.place = some t' ∧ t'.scopeBody? = some (h.kind, h.body) ∧
        t'.ownNames = (convertFunction s t).ownNames := by
  refine ⟨fun t hnodup => nodup_convertFunction_iff s hnodup, fun m h hh => ?_⟩
  have hgives : Gives (m := Id) (m.forEachScope fun _ body => pure (convertScope s body)) {} (convert s m) {} :=
    ⟨rfl, rfl⟩
  obtain ⟨t', hplace, hscope, t, hhanded, hnames⟩ :=
    Module.functions_forEachScope (treats_convertScope s m) Tree.levels_le_size (fun _ => .item) hgives h hh
  exact ⟨t, t', hhanded, hplace, hscope, hnames⟩

/-- `({ isSubmitting }) { const { values } = useFormikContext(); return <p title={isSubmitting}>{values.name}</p>; }` -/
def flaggedFunction : Tree :=
  .part .made (.function false false)
    [.list [Make.objectPat ["isSubmitting"]],
      Make.block
        [Make.const (Make.objectPat ["values"]) (Make.callNamed "useFormikContext" []),
          Make.ret (Make.element "p" [Make.exprAttr "title" (Make.ident "isSubmitting")]
            [Make.container (Make.member (Make.ident "values") "name")])],
      .absent, .absent]

/-- A flag that is passed to the component is declared once more, as one that is always false. -/
theorem flaggedFunction_binds_twice :
    flaggedFunction.ownNames.Nodup ∧
      (convertFunction ⟨{}, false⟩ flaggedFunction).ownNames = ["isSubmitting", "form", "values", "isSubmitting"] ∧
      ¬ (convertFunction ⟨{}, false⟩ flaggedFunction).ownNames.Nodup := by
  refine ⟨by decide, by decide, fun hnodup => ?_⟩
  have hapart := ((convert_binds_once ⟨{}, false⟩).1 flaggedFunction (by decide)).mp hnodup
  exact hapart _ _ _ _ _ _ rfl rfl "isSubmitting" (by decide) (by decide)

end Context

end FormCodemod
