import FormCodemod.Convert.Context
import FormCodemod.Convert.FieldHook
import FormCodemod.Library.Features
import FormCodemod.Proofs.Imports.Ensured
import FormCodemod.Proofs.Names.Made
import FormCodemod.Proofs.Names.Scopes

/-!
# Names that the hooks put in

The field hook puts in none of the emitted names (`FieldHook.clear_convert`), the context hook only
its own (`Context.clear_convert`), and that only in a module that calls the hook
(`Context.convert_eq_self`).
-/

namespace FormCodemod

open Observed (Gives)

variable {w : Watch}

/-- A module has no node with a property exactly if no item has one anywhere. -/
theorem Module.any_eq_false_iff {m : Module} {P : Tree → Bool} :
    m.any P = false ↔ ∀ t ∈ m.items, t.Everywhere fun u => u.isNode = true → P u = false := by
  rw [Module.any, Tree.anyAll_eq_any, List.any_eq_false]
  simp only [Bool.not_eq_true]
  exact forall₂_congr fun t _ => Tree.any_eq_false_iff t

/-! ## The context hook -/

namespace Tree

variable {t t' p : Tree} {x : String}

/-- A declarator that is converted calls the hook, and calls what replaces it afterwards. -/
theorem convertHook?_eq_some (h : convertHook? x t = some (t', p)) :
    ∃ o d co callee args targs, callee.ident? = some x ∧
      t = part o (.declarator d) [p, expr co .call [callee, args, targs]] ∧
      t' = part o (.declarator d)
        [Make.binding formName, expr co .call [Make.ident "useFormMetadata", args, targs]] := by
  unfold convertHook? at h
  split at h
  · split at h
    · next hcallee =>
        cases h
        exact ⟨_, _, _, _, _, _, beq_iff_eq.mp hcallee, rfl, rfl⟩
    · cases h
  · cases h

/-- A statement that is converted declares variables, and one of its declarators is converted. -/
theorem convertHookIn?_eq_some (h : convertHookIn? x t = some (t', p)) :
    ∃ o kw dcl pre d d' post, convertHook? x d = some (d', p) ∧ t = stmt o (.vars kw dcl) (pre ++ d :: post) ∧
      t' = stmt o (.vars kw dcl) (pre ++ d' :: post) := by
  unfold convertHookIn? at h
  split at h
  · obtain ⟨⟨ds', i, p⟩, hfirst, heq⟩ := Option.map_eq_some_iff.mp h
    cases heq
    obtain ⟨pre, d, d', post, rfl, hd, rfl, -⟩ := mapFirst?_eq_some hfirst
    exact ⟨_, _, _, pre, d, d', post, hd, rfl, rfl⟩
  · cases h

/-- A converted declarator of the context hook holds only names that are put in or were there. -/
theorem clear_convertHook? (hw : w.symbol ∈ emittedNames) (hmeta : w.symbol ≠ "useFormMetadata") (ht : t.Clear w)
    (h : convertHook? x t = some (t', p)) : t'.Clear w ∧ p.Clear w := by
  obtain ⟨o, d, co, callee, args, targs, -, rfl, rfl⟩ := convertHook?_eq_some h
  simp at ht
  simp [ht, hmeta.symm, ne_symbol hw, emittedNames, formName]

theorem clear_convertHookIn? (hw : w.symbol ∈ emittedNames) (hmeta : w.symbol ≠ "useFormMetadata") (ht : t.Clear w)
    (h : convertHookIn? x t = some (t', p)) : t'.Clear w ∧ p.Clear w := by
  obtain ⟨o, kw, dcl, pre, d, d', post, hd, rfl, rfl⟩ := convertHookIn?_eq_some h
  rw [clear_plain rfl] at ht ⊢
  obtain ⟨hd', hp⟩ := clear_convertHook? hw hmeta (ht d (by simp)) hd
  exact ⟨forall_mem_replace ht hd', hp⟩

/-- Without a call of the hook a declarator is left alone. -/
theorem convertHook?_eq_none (h : t.Everywhere fun u => u.calleeName? ≠ some x) : convertHook? x t = none := by
  unfold convertHook?
  split
  · next o d p co callee args targs =>
      have hcall : (expr co .call [callee, args, targs]).calleeName? ≠ some x :=
        (h.child (List.mem_cons_of_mem _ (List.mem_singleton.mpr rfl))).here
      exact if_neg fun hcallee => hcall (beq_iff_eq.mp hcallee)
  · rfl

theorem convertHookIn?_eq_none (h : t.Everywhere fun u => u.calleeName? ≠ some x) : convertHookIn? x t = none := by
  unfold convertHookIn?
  split
  · next o kw d ds =>
      have hnone : mapFirst? (convertHook? x) ds = none :=
        mapFirst?_eq_none.mpr fun d hd => convertHook?_eq_none (h.child hd)
      rw [hnone]
      rfl
  · rfl

end Tree

namespace Context

/-- The context pass puts no symbol but its hook into a scope. -/
theorem clear_convertScope (hw : w.symbol ∈ emittedNames) (hmeta : w.symbol ≠ "useFormMetadata") (s : Setting)
    {body : Tree} (h : body.Clear w) : (convertScope s body).Clear w := by
  unfold convertScope
  split
  · exact h
  · next ss hss =>
      split
      · exact h
      · next ss' n p hfirst =>
          obtain ⟨pre, t, t', post, rfl, ht, rfl, -⟩ := mapFirst?_eq_some hfirst
          have hss := h.statements? hss
          obtain ⟨ht', hp⟩ := Tree.clear_convertHookIn? hw hmeta (hss t (by simp)) ht
          -- first the statement with the hook, then the reads in the whole scope, then the helpers
          have hbody : (body.withStatements (pre ++ t' :: post)).Clear w := by
            rw [Tree.clear_withStatements]
            exact forall_mem_replace hss ht'
          have hreads := (Tree.keeps_convertReads hw p hbody.free).clear hbody
          exact hreads.declareHelpers hw hp (Capabilities.names_resolve hw hp _ _) _ s _ _

/-- The context pass puts no symbol but its hook into a module. -/
theorem clear_convert (hw : w.symbol ∈ emittedNames) (hmeta : w.symbol ≠ "useFormMetadata") (s : Setting)
    {m : Module} (h : m.Clear w) : (convert s m).Clear w :=
  Module.clear_run_forEachScope (fun _ _ => clear_convertScope hw hmeta s) h

/-- Without a call of the hook a scope stays as it is. -/
theorem convertScope_eq_self {s : Setting} {body : Tree}
    (h : body.Everywhere fun u => u.calleeName? ≠ some s.names.useFormikContext) : convertScope s body = body := by
  unfold convertScope
  split
  · rfl
  · next ss hss =>
      have hnone : mapFirst? (Tree.convertHookIn? s.names.useFormikContext) ss = none := by
        rw [mapFirst?_eq_none]
        intro t ht
        refine Tree.convertHookIn?_eq_none (h.child ?_)
        unfold Tree.statements? at hss
        split at hss
        · cases hss
          exact ht
        · cases hss
      rw [hnone]

/-- A module that does not call the hook stays as it is. -/
theorem convert_eq_self {s : Setting} {m : Module} (h : m.calls s.names.useFormikContext = false) :
    convert s m = m := by
  have hnone : ∀ t ∈ m.items, t.Everywhere fun u => u.calleeName? ≠ some s.names.useFormikContext := by
    intro t ht p u hu
    cases u with
    | node o k ts =>
        have hcallee := Module.any_eq_false_iff.mp h t ht p _ hu rfl
        simpa using hcallee
    | list ts => simp [Tree.calleeName?]
    | absent => simp [Tree.calleeName?]
  -- no scope changes, so no item does
  have hrun : Gives (m.forEachScope fun _ body => (pure (convertScope s body) : Id Tree)) {} (convert s m) {} :=
    ⟨rfl, rfl⟩
  obtain ⟨items', heq, hitems⟩ := Module.forEachScope_inv hrun
  have hwalk := Tree.walkable_eq (f := fun _ body => (pure (convertScope s body) : Id Tree))
    (Q := fun u => u.calleeName? ≠ some s.names.useFormikContext) (by
      rintro k body σ body' σ' ⟨rfl, rfl⟩ hbody
      exact convertScope_eq_self hbody)
  have hsame := eq_of_forall₂ (hitems.forall₂ fun t ht _ _ _ h => Module.itemScopes_gives hwalk h (hnone t ht))
  rw [heq, hsame]

end Context

/-! ## The field hook -/

/-- A fresh name begins like the name it is made from. -/
theorem exists_freshName_eq (base : String) (taken : List String) : ∃ x, freshName base taken = base ++ x := by
  have hfrom : ∀ tries n, ∃ x, freshFrom base taken tries n = base ++ x := by
    intro tries
    induction tries with
    | zero =>
        intro n
        exact ⟨"", by simp [freshFrom]⟩
    | succ tries ih =>
        intro n
        rw [freshFrom]
        split
        · exact ih (n + 1)
        · exact ⟨_, rfl⟩
  rw [freshName]
  split
  · exact hfrom _ _
  · exact ⟨"", by simp⟩

/-- No emitted name begins with an `f`. -/
theorem freshName_ne (hw : w.symbol ∈ emittedNames) {base : String} (hbase : base.toList.head? = some 'f')
    (mark : String) (taken : List String) : freshName (base ++ mark) taken ≠ w.symbol := by
  -- the bases are `field` and `form`, so the first letter is enough to tell the names apart
  have hhead : ∀ s ∈ emittedNames, s.toList.head? ≠ some 'f' := by decide
  obtain ⟨x, hx⟩ := exists_freshName_eq (base ++ mark) taken
  intro heq
  refine hhead w.symbol hw ?_
  rw [← heq, hx, String.append_assoc, String.toList_append, List.head?_append, hbase]
  rfl

theorem Tree.Clear.callTo? {t u : Tree} {x : String} (h : t.Clear w) (hu : t.callTo? x = some u) : u.Clear w := by
  unfold Tree.callTo? at hu
  split at hu
  · obtain rfl := Option.some.inj hu
    exact h.unparen
  · cases hu

theorem Tree.Clear.spread? {t e : Tree} (h : t.Clear w) (he : t.spread? = some e) : e.Clear w := by
  unfold Tree.spread? at he
  split at he
  · cases he
    simpa using h
  · cases he

theorem Tree.Clear.fieldName {t : Tree} (hw : w.symbol ∈ emittedNames) (h : t.Clear w) : t.fieldName.Clear w := by
  have hspread : (t.spread?.getD t).Clear w := by
    cases ht : t.spread? with
    | none => exact h
    | some e => exact h.spread? ht
  have hproperty : ∀ p v : Tree, p.Clear w → Tree.nameProperty? p = some v → v.Clear w := by
    intro p v hp hv
    unfold Tree.nameProperty? at hv
    split at hv
    · cases hv
      simp at hp
      exact hp.2
    · cases hv
      simp [ne_symbol hw, emittedNames]
    · cases hv
  unfold Tree.fieldName
  dsimp only
  split
  · next ps heq =>
      have hps := hspread.unparen
      rw [heq] at hps
      simp at hps
      cases hfind : ps.findSome? Tree.nameProperty? with
      | none => exact hspread
      | some v =>
          obtain ⟨p, hp, hv⟩ := List.exists_of_findSome?_eq_some hfind
          exact hproperty p v (hps p hp) hv
  · exact hspread

namespace FieldHook

/-- The parts of a hook are clear. -/
structure Clear (w : Watch) (h : FieldHook) : Prop where
  slots : ∀ t ∈ h.slots, t.Clear w
  name : h.name.Clear w
  valueType : h.valueType.Clear w

variable {t t' : Tree} {h : FieldHook} {field form hook : String}

/-- What is read off a field hook is clear if its declarator is. -/
theorem clear_ofDeclarator? (hw : w.symbol ∈ emittedNames) (htag : w.asTag = false) (ht : t.Clear w)
    (hh : ofDeclarator? hook t = some h) : h.Clear w := by
  unfold ofDeclarator? at hh
  split at hh
  · next o d po b slots rest e =>
      simp at ht
      split at hh
      · next co callee args targs hcall =>
          cases hh
          have hclear := ht.2.callTo? hcall
          simp at hclear
          obtain ⟨-, hargs, htargs⟩ := hclear
          refine ⟨ht.1.1, ?_, ?_⟩
          · cases hhead : args.head? with
            | none => exact Make.clear_str
            | some a => exact (hargs a (List.mem_of_head? hhead)).fieldName hw
          · cases hhead : targs.children.head? with
            | none => exact Tree.clear_absent
            | some a => exact htargs.free.clear_child htag (List.mem_of_head? hhead)
      · cases hh
  · cases hh

/-- The name that a hook's result has got is not the symbol, if its pattern is clear. -/
theorem firstName?_ne {slots : List Tree} {x : String} (hslots : ∀ t ∈ slots, t.Clear w)
    (hx : firstName? slots = some x) : x ≠ w.symbol := by
  unfold firstName? at hx
  split at hx
  · cases hx
    have hslot := hslots _ (List.mem_cons_self ..)
    simp at hslot
    exact hslot.1
  · cases hx

/-- The name that the field goes by is one that was bound, or else a fresh one. -/
theorem fieldName_ne (hh : h.Clear w) (hfield : field ≠ w.symbol) : (firstName? h.slots).getD field ≠ w.symbol := by
  cases hx : firstName? h.slots with
  | none => exact hfield
  | some x => exact firstName?_ne hh.slots hx

/-- A hook with its new pattern is clear, unless one of the two names is the symbol. -/
theorem clear_rebind (ht : t.Clear w) (hfield : field ≠ w.symbol) (hform : form ≠ w.symbol) :
    (rebind field form t).Clear w := by
  unfold rebind
  split
  · simp at ht
    simp [hfield, hform, ht.2]
  · exact ht

/-- A statement that is converted declares variables. The first of its declarators that holds a hook is bound anew, and
the others stay as they are. -/
theorem convertStatement?_eq_some (hh : convertStatement? hook field form t = some (t', h)) :
    ∃ o kw dcl pre d post, ofDeclarator? hook d = some h ∧ t = .stmt o (.vars kw dcl) (pre ++ d :: post) ∧
      t' = .stmt o (.vars kw dcl) (pre ++ rebind ((firstName? h.slots).getD field) form d :: post) ∧
      ∀ e ∈ pre, ofDeclarator? hook e = none := by
  unfold convertStatement? at hh
  split at hh
  · obtain ⟨⟨ds', n, h⟩, hfirst, heq⟩ := Option.map_eq_some_iff.mp hh
    cases heq
    obtain ⟨pre, d, d', post, rfl, hd, rfl, -, hpre⟩ := mapFirst?_eq_some hfirst
    obtain ⟨h', hof, heq⟩ := Option.map_eq_some_iff.mp hd
    cases heq
    exact ⟨_, _, _, pre, d, post, hof, rfl, rfl, fun e he => Option.map_eq_none_iff.mp (hpre e he)⟩
  · cases hh

/-- A statement with its hook converted is clear, and so is what was read off the hook. -/
theorem clear_convertStatement? (hw : w.symbol ∈ emittedNames) (htag : w.asTag = false) (hfield : field ≠ w.symbol)
    (hform : form ≠ w.symbol) (ht : t.Clear w) (hh : convertStatement? hook field form t = some (t', h)) : t'.Clear w ∧ h.Clear w := by
  obtain ⟨o, kw, dcl, pre, d, post, hof, rfl, rfl, -⟩ := convertStatement?_eq_some hh
  rw [Tree.clear_plain rfl] at ht ⊢
  have hclear := ht d (by simp)
  have hh := clear_ofDeclarator? hw htag hclear hof
  exact ⟨forall_mem_replace ht (clear_rebind hclear (fieldName_ne hh hfield) hform), hh⟩

/-! ### Declarations -/

theorem clear_fieldMember {k : String} (hfield : field ≠ w.symbol) : (fieldMember field k).Clear w := by
  simpa [fieldMember] using hfield

theorem clear_firstError (hfield : field ≠ w.symbol) : (firstError field).Clear w := by
  simp [firstError, clear_fieldMember hfield]

theorem clear_metaMember {k : String} (hfield : field ≠ w.symbol) : (metaMember field k).Clear w := by
  unfold metaMember
  split
  · exact clear_firstError hfield
  · exact clear_fieldMember hfield

theorem clear_valueDecls {slot : Tree} (hslot : slot.Clear w) (hfield : field ≠ w.symbol) :
    ∀ t ∈ valueDecls field slot, t.Clear w := by
  intro t ht
  obtain ⟨e, he, rfl⟩ := List.mem_map.mp ht
  exact Make.clear_constNamed.mpr ⟨hslot.takenKeys_ne he, clear_fieldMember hfield⟩

theorem clear_metaDecls {slot : Tree} (hslot : slot.Clear w) (hfield : field ≠ w.symbol) (uses : List Use) :
    ∀ t ∈ metaDecls uses field slot, t.Clear w := by
  intro t ht
  unfold metaDecls at ht
  split at ht
  · split at ht
    · obtain rfl := List.mem_singleton.mp ht
      simp at hslot
      simp [hslot.1, clear_fieldMember hfield, clear_firstError hfield]
    · cases ht
  · obtain ⟨e, he, rfl⟩ := List.mem_map.mp ht
    exact Make.clear_constNamed.mpr ⟨hslot.takenKeys_ne he, clear_metaMember hfield⟩

/-- The setter of a value names the form and the field, and nothing else that is new. -/
theorem clear_setValue (hw : w.symbol ∈ emittedNames) (hh : h.Clear w) (hform : form ≠ w.symbol) (s : Setting) :
    (setValue s h form).Clear w := by
  have hvalue : "value" ≠ w.symbol := ne_symbol hw (by decide)
  have hshould : "shouldValidate" ≠ w.symbol := ne_symbol hw (by decide)
  unfold setValue
  split
  · split
    · simp [hvalue, hshould, hform, hh.name]
    · simp [hvalue, hshould, hform, hh.name, hh.valueType]
  · simp [hvalue, hshould, hform, hh.name]

theorem clear_setTouched (hw : w.symbol ∈ emittedNames) (s : Setting) : (setTouched s).Clear w := by
  simp [setTouched, ne_symbol hw, emittedNames]

/-- What is declared for the third place of a hook is clear. -/
theorem clear_helperDecls {slot : Tree} (hw : w.symbol ∈ emittedNames) (hh : h.Clear w) (hslot : slot.Clear w)
    (hform : form ≠ w.symbol) (s : Setting) (uses : List Use) (taken : List String) :
    ∀ t ∈ (helperDecls s uses taken h form slot).1, t.Clear w := by
  have hvalue := clear_setValue hw hh hform s
  have htouched := clear_setTouched (w := w) hw s
  intro t ht
  simp only [helperDecls, List.mem_append, List.mem_map, Option.mem_toList] at ht
  rcases ht with (ht | ⟨x, hx, rfl⟩) | ⟨x, hx, rfl⟩
  · split at ht
    · split at ht
      · obtain rfl := List.mem_singleton.mp ht
        simp at hslot
        simp [hslot.1, hvalue, htouched]
      · cases ht
    · cases ht
  · exact Make.clear_constNamed.mpr ⟨hslot.takenOr_ne hw (by decide) hx, hvalue⟩
  · exact Make.clear_constNamed.mpr ⟨hslot.takenOr_ne hw (by decide) hx, htouched⟩

/-! ### Scopes -/

/-- A step of the conversion keeps the statements that are done clear. -/
theorem clear_step (hw : w.symbol ∈ emittedNames) (htag : w.asTag = false) (s : Setting) (uses : List Use)
    {p : Progress} (hp : ∀ t ∈ p.done, t.Clear w) (ht : t.Clear w) : ∀ u ∈ (step s uses p t).done, u.Clear w := by
  have hfield : ∀ mark, freshName ("field" ++ mark) p.taken ≠ w.symbol := fun mark => freshName_ne hw rfl mark _
  have hform : ∀ mark, freshName ("form" ++ mark) p.taken ≠ w.symbol := fun mark => freshName_ne hw rfl mark _
  intro u hu
  unfold step at hu
  dsimp only at hu
  split at hu
  · rcases List.mem_append.mp hu with hu | hu
    · exact hp u hu
    · obtain rfl := List.mem_singleton.mp hu
      exact ht
  · next t' h heq =>
      obtain ⟨ht', hh⟩ := clear_convertStatement? hw htag (hfield _) (hform _) ht heq
      have hslot : ∀ n : Nat, ((h.slots[n]?).getD Tree.absent).Clear w := by
        intro n
        cases hn : h.slots[n]? with
        | none => exact Tree.clear_absent
        | some slot => exact hh.slots slot (List.mem_of_getElem? hn)
      simp only [List.mem_append, List.mem_singleton] at hu
      rcases hu with (((hu | rfl) | hu) | hu) | hu
      · exact hp u hu
      · exact ht'
      · exact clear_valueDecls (hslot 0) (fieldName_ne hh (hfield _)) u hu
      · exact clear_metaDecls (hslot 1) (fieldName_ne hh (hfield _)) uses u hu
      · exact clear_helperDecls hw hh (hslot 2) (hform _) s uses _ u hu

/-- Converting the statements of a scope one after the other keeps them all clear. -/
theorem clear_foldl_step (hw : w.symbol ∈ emittedNames) (htag : w.asTag = false) (s : Setting) (uses : List Use)
    {ss : List Tree} {p : Progress} (hp : ∀ t ∈ p.done, t.Clear w) (hss : ∀ t ∈ ss, t.Clear w) :
    ∀ u ∈ (ss.foldl (step s uses) p).done, u.Clear w := by
  induction ss generalizing p with
  | nil => exact hp
  | cons t ss ih =>
      refine ih (clear_step hw htag s uses hp (hss t (List.mem_cons_self ..))) ?_
      intro u hu
      exact hss u (List.mem_cons_of_mem _ hu)

/-- To drop an await brings nothing in. -/
theorem keeps_dropAwait (setters : List String) (ht : t.Free w) : Tree.Keeps w t (dropAwait setters t) := by
  unfold dropAwait
  split
  · next o e =>
      split
      · next hcalls =>
          refine ⟨ht.child (List.mem_singleton.mpr rfl), ?_⟩
          have hcode : e.unparen.isCode = true := by
            unfold callsSetter at hcalls
            split at hcalls
            · next heq =>
                rw [heq]
                rfl
            · cases hcalls
          rw [Tree.face_of_unparen_isCode hcode]
          rfl
      · exact .refl ht
  · exact .refl ht

/-- The field hook pass puts no symbol into a scope. -/
theorem clear_convertScope (hw : w.symbol ∈ emittedNames) (htag : w.asTag = false) (s : Setting) {body : Tree}
    (hbody : body.Clear w) : (convertScope s body).Clear w := by
  unfold convertScope
  split
  · exact hbody
  · next ss hss =>
      have hdone : (body.withStatements (ss.foldl (step s body.uses)
          { done := [], taken := Tree.declaredNames ss, setters := [], count := 0 }).done).Clear w := by
        rw [Tree.clear_withStatements]
        exact clear_foldl_step hw htag s body.uses (fun t ht => nomatch ht) (hbody.statements? hss)
      exact (Tree.Keeps.mapUp (fun t => keeps_dropAwait _) _ hdone.free).clear hdone

/-- The field hook pass puts no symbol into a module. -/
theorem clear_convert (hw : w.symbol ∈ emittedNames) (htag : w.asTag = false) (s : Setting) {m : Module}
    (h : m.Clear w) : (convert s m).Clear w :=
  Module.clear_run_forEachScope (fun _ _ => clear_convertScope hw htag s) h

end FieldHook

end FormCodemod
