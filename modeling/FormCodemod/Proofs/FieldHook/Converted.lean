import FormCodemod.Proofs.FieldHook.Bound

/-!
# Field hooks that are converted

A declarator holds a field hook if it takes the result of a call of the hook apart place by place
(`FieldHook.DeclaresHook`), and is converted when it binds two names instead, the field and the form
(`FieldHook.bindsPair`).

Of each statement only the first hook is converted. `FieldHook.convertScope_hooks` says so for every hook of a scope: it
binds two names afterwards exactly if it did before, or if no hook stands in front of it in its statement.
-/

namespace FormCodemod.FieldHook

variable {s : Setting} {t d e : Tree} {ss : List Tree} {hook : String}
  {setters : List String} {j : Nat}

/-! ## Declarators with a hook -/

/-- `[...] = hook(...)`, where the call may stand in parentheses. -/
def DeclaresHook (hook : String) (d : Tree) : Prop :=
  ∃ o b po pb slots type e co callee args targs,
    d = .part o (.declarator b) [.pat po (.array pb) [.list slots, type], e] ∧
      e.unparen = .expr co .call [callee, .list args, targs] ∧ callee.ident? = some hook

def isBinding : Tree → Bool
  | .pat _ (.binding _ _) _ => true
  | _ => false

def bindsPair : Tree → Bool
  | .part _ (.declarator _) (.pat _ (.array _) [.list [field, form], _] :: _) => isBinding field && isBinding form
  | _ => false

/-- A declarator declares a hook exactly if one can be read off it. -/
theorem declaresHook_iff : DeclaresHook hook d ↔ ∃ h, ofDeclarator? hook d = some h := by
  constructor
  · rintro ⟨o, b, po, pb, slots, type, e, co, callee, args, targs, rfl, he, hcallee⟩
    have hcall : e.callTo? hook = some (.expr co .call [callee, .list args, targs]) := by
      rw [Tree.callTo?, he, if_pos]
      exact beq_iff_eq.mpr hcallee
    rw [ofDeclarator?, hcall]
    exact ⟨_, rfl⟩
  · rintro ⟨h, hh⟩
    unfold ofDeclarator? at hh
    split at hh
    next o b po pb slots type e =>
      split at hh
      next co callee args targs hcall =>
        unfold Tree.callTo? at hcall
        split at hcall
        next hname =>
          have he := Option.some.inj hcall
          rw [he] at hname
          exact ⟨o, b, po, pb, slots, type, e, co, callee, args, targs, rfl, he, beq_iff_eq.mp hname⟩
        next => cases hcall
      next => cases hh
    next => cases hh

/-- A rebound hook is taken apart into two names. -/
theorem bindsPair_rebind {field form : String} {h : FieldHook} (hd : ofDeclarator? hook d = some h) :
    bindsPair (rebind field form d) = true := by
  obtain ⟨o, b, po, pb, rest, e, rfl, -⟩ := exists_of_ofDeclarator? hd
  rfl

/-! ## Awaits in declarators -/

theorem isBinding_withoutAwaits (setters : List String) (t : Tree) :
    isBinding (withoutAwaits setters t) = isBinding t := by
  have hnone : ∀ {u : Tree}, u.isExpression = true → isBinding u = false := by
    intro u hu
    unfold isBinding
    split
    next => cases hu
    next => rfl
  generalize hv : withoutAwaits setters t = v
  have hrewritten : t.Rewritten v := hv ▸ rewritten_withoutAwaits setters t
  cases hrewritten with
  | expression h h' => rw [hnone h, hnone h']
  | @node o k ts ts' h =>
      cases k with
      | pat k => cases k <;> rfl
      | _ => rfl
  | list => rfl
  | absent => rfl

/-- A declarator with a hook binds what it bound when awaits are dropped in it. -/
theorem bindsPair_withoutAwaits (hd : DeclaresHook hook d) : bindsPair (withoutAwaits setters d) = bindsPair d := by
  obtain ⟨o, b, po, pb, slots, type, e, co, callee, args, targs, rfl, -, -⟩ := hd
  have hslots : Tree.mapUpAll Tree.opensScope (dropAwait setters) slots = slots.map (withoutAwaits setters) :=
    Tree.mapUpAll_eq_map ..
  show bindsPair (.part o (.declarator b) [.pat po (.array pb) [.list (Tree.mapUpAll _ _ slots), _], _]) = _
  rw [hslots]
  rcases slots with _ | ⟨field, _ | ⟨form, _ | ⟨third, rest⟩⟩⟩
  · rfl
  · rfl
  · show (isBinding (withoutAwaits setters field) && isBinding (withoutAwaits setters form)) = _
    rw [isBinding_withoutAwaits, isBinding_withoutAwaits]
    rfl
  · rfl

/-! ## Statements -/

/-- If no hook of a statement is converted, it declares no variables with one. -/
theorem not_declaresHook_of_kept (hc : (outcome s uses p t).site? = none) (ht : t.isVars = true)
    (hd : d ∈ t.stmtDeclarators) : ¬ DeclaresHook s.names.useField d := by
  rw [declaresHook_iff]
  rintro ⟨h, hh⟩
  unfold Tree.isVars at ht
  split at ht
  next o kw dcl ds =>
    unfold outcome at hc
    split at hc
    next hnone =>
      rw [convertStatement?, Option.map_eq_none_iff, mapFirst?_eq_none] at hnone
      have hdeclarator := hnone d hd
      rw [convertDeclarator?, hh] at hdeclarator
      cases hdeclarator
    next => cases hc
  next => cases ht

/-- The first hook in a statement that declares variables. -/
def IsFirstHook (hook : String) (t : Tree) (j : Nat) : Prop :=
  t.isVars = true ∧ ∀ i < j, ∀ e, t.stmtDeclarators[i]? = some e → ¬ DeclaresHook hook e

/-- Where a hook was there is a declarator that binds two names if the hook did, or if it is the first one. -/
theorem exists_declarator_after (uses : List Use) (p : Progress) (hd : t.stmtDeclarators[j]? = some d) (hhook : DeclaresHook s.names.useField d) :
    ∃ d', (outcome s uses p t).after.stmtDeclarators[j]? = some d' ∧ DeclaresHook s.names.useField d' ∧
      (bindsPair d' = true ↔ bindsPair d = true ∨ IsFirstHook s.names.useField t j) := by
  cases hc : (outcome s uses p t).site? with
  | none =>
      have hno : ¬ IsFirstHook s.names.useField t j := by
        rintro ⟨hvars, -⟩
        exact not_declaresHook_of_kept hc hvars (List.mem_of_getElem? hd) hhook
      refine ⟨d, ?_, hhook, (or_iff_left hno).symm⟩
      rw [after_of_site?_eq_none hc]
      exact hd
  | some c =>
      obtain ⟨o, kw, dcl, pre, first, post, rfl, hpre, hfirst, hafter, -⟩ := site_inv hc
      rw [hafter]
      have hbefore : ∀ e ∈ pre, ¬ DeclaresHook s.names.useField e := by
        intro e he hhook
        obtain ⟨h, hh⟩ := declaresHook_iff.mp hhook
        rw [hpre e he] at hh
        cases hh
      have hd : (pre ++ first :: post)[j]? = some d := hd
      show ∃ d', (pre ++ rebind c.field c.form first :: post)[j]? = some d' ∧ _
      rcases Nat.lt_trichotomy j pre.length with hlt | heq | hgt
      · -- in front of the first hook there is none
        rw [List.getElem?_append_left hlt] at hd
        exact absurd hhook (hbefore d (List.mem_of_getElem? hd))
      · subst heq
        obtain rfl : first = d := by simpa using hd
        refine ⟨rebind c.field c.form first, by simp, ?_, ?_⟩
        · obtain ⟨od, b, po, pb, slots, type, e, co, callee, args, targs, rfl, he, hcallee⟩ := hhook
          exact ⟨od, b, .made, false, _, _, e, co, callee, args, targs, rfl, he, hcallee⟩
        · refine iff_of_true (bindsPair_rebind hfirst) (.inr ⟨rfl, ?_⟩)
          intro i hi e he
          have he : (pre ++ first :: post)[i]? = some e := he
          rw [List.getElem?_append_left hi] at he
          exact hbefore e (List.mem_of_getElem? he)
      · -- behind it the declarators are as they were
        have hno : ¬ IsFirstHook s.names.useField (.stmt o (.vars kw dcl) (pre ++ first :: post)) j := by
          rintro ⟨-, hnone⟩
          refine hnone pre.length hgt first ?_ (declaresHook_iff.mpr ⟨_, hfirst⟩)
          show (pre ++ first :: post)[pre.length]? = some first
          simp
        refine ⟨d, ?_, hhook, (or_iff_left hno).symm⟩
        rw [List.getElem?_append_right (by omega), List.getElem?_cons, if_neg (by omega)] at hd ⊢
        exact hd

/-! ## Scopes -/

/-- Which field hooks of a scope are converted. Statement by statement, where a hook was there is a declarator that binds two
names exactly if the hook did or if it is the first hook of its statement, which declares variables. -/
theorem convertScope_hooks (s : Setting) {body : Tree} {ss : List Tree} (hbody : body.statements? = some ss) :
    (bodyOutcomes s body).map Outcome.before = ss ∧
    (convertScope s body).statements =
      ((bodyOutcomes s body).flatMap Outcome.written).map (withoutAwaits (madeSetters s body)) ∧
    ∀ u ∈ bodyOutcomes s body, ∀ j d, u.before.stmtDeclarators[j]? = some d → DeclaresHook s.names.useField d →
      ∃ d', (withoutAwaits (madeSetters s body) u.after).stmtDeclarators[j]? = some d' ∧
        (bindsPair d' = true ↔ bindsPair d = true ∨ IsFirstHook s.names.useField u.before j) := by
  refine ⟨?_, statements_convertScope hbody, ?_⟩
  · rw [bodyOutcomes_eq hbody]
    exact map_before_outcomes ..
  · intro u hu j d hd hhook
    obtain ⟨p, hu, -⟩ := exists_of_mem_bodyOutcomes hu
    obtain ⟨d', hd', hhook', hpair⟩ := exists_declarator_after body.uses p hd hhook
    rw [← hu] at hd'
    refine ⟨withoutAwaits (madeSetters s body) d', getElem?_stmtDeclarators hd', ?_⟩
    rw [bindsPair_withoutAwaits hhook']
    exact hpair

/-- `[{ value: x }] = useField(name)` -/
def renamedHook (x name : String) : Tree :=
  .part .made (.declarator false)
    [.pat .made (.array false)
      [.list [.pat .made (.object false) [.list [.pat .made .keyValue [Make.key "value", Make.binding x]], .absent]], .absent],
      Make.callNamed "useField" [Make.str name]]

/-- `{ const [{ value: a }] = useField("a"), [{ value: b }] = useField("b"); }` -/
def twoHooksBody : Tree :=
  Make.block [.stmt .made (.vars "const" false) [renamedHook "a" "a", renamedHook "b" "b"]]

/-- The renamed hook is one, whatever its names are. -/
theorem renamedHook_declaresHook (x name : String) : DeclaresHook "useField" (renamedHook x name) :=
  ⟨_, _, _, _, _, _, _, _, _, _, _, rfl, rfl, rfl⟩

/-- Of the two hooks of a statement the second one still takes its result apart as before. -/
theorem twoHooksBody_hooks :
    ∃ u ∈ bodyOutcomes ⟨{}, false⟩ twoHooksBody,
      u.before.stmtDeclarators = [renamedHook "a" "a", renamedHook "b" "b"] ∧
      (∃ d, (withoutAwaits (madeSetters ⟨{}, false⟩ twoHooksBody) u.after).stmtDeclarators[0]? = some d ∧
        bindsPair d = true) ∧
      ∃ d, (withoutAwaits (madeSetters ⟨{}, false⟩ twoHooksBody) u.after).stmtDeclarators[1]? = some d ∧
        bindsPair d = false := by
  have hbody : twoHooksBody.statements? = some _ := rfl
  have hhooks := (convertScope_hooks ⟨{}, false⟩ hbody).2.2
  refine ⟨_, List.mem_cons_self .., rfl, ?_, ?_⟩
  · obtain ⟨d, hd, hpair⟩ := hhooks _ (List.mem_cons_self ..) 0 _ rfl (renamedHook_declaresHook "a" "a")
    refine ⟨d, hd, hpair.mpr (.inr ⟨rfl, ?_⟩)⟩
    intro i hi
    omega
  · obtain ⟨d, hd, hpair⟩ := hhooks _ (List.mem_cons_self ..) 1 _ rfl (renamedHook_declaresHook "b" "b")
    refine ⟨d, hd, Bool.eq_false_iff.mpr fun h => ?_⟩
    rcases hpair.mp h with hpair | ⟨-, hfirst⟩
    · cases hpair
    · exact hfirst 0 (by decide) _ rfl (renamedHook_declaresHook "a" "a")

end FormCodemod.FieldHook
