import FormCodemod.Convert.Context
import FormCodemod.Proofs.Convert.Capabilities
import FormCodemod.Proofs.Convert.Reads
import FormCodemod.Proofs.Names.Hooks
import FormCodemod.Proofs.Scope.Treated
import FormCodemod.Proofs.Wrapper.Statements

/-!
# Scopes that were given a context

What the conversion of the context hook does to a scope is said once (`Context.convertScope_cases`): nothing, if no
variable of the block is declared with a hook, or else three things. The first such hook is converted, the reads in all
statements are, and the helpers that the scope then needs are put behind the hook.

Helpers bring functions into scopes that may have held none. These functions have no statements, so there is nothing to do
in them, and the levels that a walk has to go down do not become more (`levels_convertScope_lt`).
-/

namespace FormCodemod

namespace Context

variable {s : Setting} {P : Tree → Prop}

def capabilitiesFor (s : Setting) (p flat : Tree) : Capabilities :=
  let caps := Capabilities.resolve p.takenNames (flat.unwiredUses s.names) (Tree.declaredNames flat.statements)
  { caps with fieldset := caps.fieldset || flat.rendersFields s.names }

def helpersFor (s : Setting) (p flat : Tree) : List Tree :=
  Capabilities.wholeHelper (flat.unwiredUses s.names) p.wholeBinding? ++ (capabilitiesFor s p flat).helpers s formName

/-- A property of helpers, from one of each kind of helper. -/
theorem forall_mem_helpersFor (p flat : Tree)
    (hwhole : ∀ x, P (Make.constNamed x (Make.ident formName)))
    (hvalues : ∀ x, P (Capabilities.valuesHelper formName x))
    (hsetter : ∀ x, P (Capabilities.setter s x (Make.member (Make.ident formName) "update")) ∧
      P (Capabilities.setter s x (Make.ident "update")))
    (hupdate : P (Make.constNamed "update" (Make.member (Make.ident formName) "update")))
    (hfieldset : P (Capabilities.fieldsetHelper formName)) (htouched : ∀ x, P (Capabilities.touchedHelper s x))
    (hsubmitting : ∀ x, P (Capabilities.submittingHelper x)) : ∀ t ∈ helpersFor s p flat, P t := by
  intro t ht
  rcases List.mem_append.mp ht with ht | ht
  · exact Capabilities.forall_mem_wholeHelper (fun x _ => hwhole x) _ t ht
  · exact Capabilities.forall_mem_helpers (fun x _ => hvalues x) (fun x _ => hsetter x) hupdate hfieldset
      (fun x _ => htouched x) (fun x _ => hsubmitting x) t ht

/-! ## What is done to a scope -/

/-- The statements of a block that holds a hook, its reads converted and its helpers put in. -/
def converted (s : Setting) (o : Origin) (ss' : List Tree) (i : Nat) (p : Tree) : List Tree :=
  insertAt (i + 1) (helpersFor s p (p.convertReads (.stmt o .block ss'))) (ss'.map p.convertReads)

/-- A scope with a hook is converted at the first one. -/
theorem convertScope_of_hook {o : Origin} {ss ss' : List Tree} {i : Nat} {p : Tree}
    (h : mapFirst? (Tree.convertHookIn? s.names.useFormikContext) ss = some (ss', i, p)) :
    convertScope s (.stmt o .block ss) = .stmt o .block (converted s o ss' i p) := by
  have hreads : p.convertReads (Tree.stmt o .block ss') = .stmt o .block (ss'.map p.convertReads) :=
    Tree.convertReads_block p o ss'
  rw [convertScope, Tree.statements?]
  dsimp only
  rw [h]
  dsimp only
  rw [Tree.withStatements, converted, hreads]
  rfl

/-- A scope without a hook is left as it is. -/
theorem convertScope_of_none {ss : List Tree} {o : Origin}
    (h : mapFirst? (Tree.convertHookIn? s.names.useFormikContext) ss = none) :
    convertScope s (.stmt o .block ss) = .stmt o .block ss := by
  rw [convertScope, Tree.statements?]
  dsimp only
  rw [h]

/-- A scope stays as it is, or it is a block in which a variable is declared with a hook. -/
theorem convertScope_cases (s : Setting) (body : Tree) :
    convertScope s body = body ∨
      ∃ o ss ss' i p, body = .stmt o .block ss ∧
        mapFirst? (Tree.convertHookIn? s.names.useFormikContext) ss = some (ss', i, p) ∧
        convertScope s body = .stmt o .block (converted s o ss' i p) := by
  cases hss : body.statements? with
  | none =>
      left
      rw [convertScope, hss]
  | some ss =>
      obtain ⟨o, rfl⟩ := Tree.eq_block_of_statements? hss
      cases hfirst : mapFirst? (Tree.convertHookIn? s.names.useFormikContext) ss with
      | none => exact .inl (convertScope_of_none hfirst)
      | some r => exact .inr ⟨o, ss, r.1, r.2.1, r.2.2, rfl, hfirst, convertScope_of_hook hfirst⟩

/-- What holds of the converted statements and of the helpers holds of all statements of the scope. -/
theorem forall_mem_converted {o : Origin} {ss' : List Tree} {i : Nat} {p : Tree}
    (hhelpers : ∀ t ∈ helpersFor s p (p.convertReads (.stmt o .block ss')), P t)
    (hown : ∀ t ∈ ss', P (p.convertReads t)) : ∀ t ∈ converted s o ss' i p, P t := by
  intro t ht
  rcases mem_insertAt.mp ht with ht | ht
  · exact hhelpers t ht
  · obtain ⟨u, hu, rfl⟩ := List.mem_map.mp ht
    exact hown u hu

end Context

/-! ## Levels of functions -/

namespace Tree

variable {t t' c : Tree} {ts ts' : List Tree} {n : Nat}

def hasStatements : Tree → Bool
  | .stmt _ .block (_ :: _) => true
  | _ => false

/-- A function that has statements, so that helpers may be put among them. -/
def isBusy (t : Tree) : Bool := t.isFunction && t.children[1]?.any hasStatements

mutual

/-- How deep functions nest in a tree, where one that has statements counts as if a function stood among them. -/
def levels : Tree → Nat
  | t@(.node _ _ ts) =>
      if t.isFunction then max (levelsAll ts) (if t.isBusy then 1 else 0) + 1 else levelsAll ts
  | .list ts => levelsAll ts
  | .absent => 0

def levelsAll : List Tree → Nat
  | [] => 0
  | t :: ts => max t.levels (levelsAll ts)

end

theorem levelsAll_le_iff : levelsAll ts ≤ n ↔ ∀ t ∈ ts, t.levels ≤ n := by
  induction ts with
  | nil => simp [levelsAll]
  | cons t ts ih => rw [levelsAll, Nat.max_le, ih, List.forall_mem_cons]

/-- The levels of a tree are those of its children, and one more for a function, with its
statements counted. -/
theorem levels_eq (t : Tree) :
    t.levels = if t.isFunction then max (levelsAll t.children) (if t.isBusy then 1 else 0) + 1 else levelsAll t.children := by
  cases t with
  | node o k ts => rw [levels, children_node]
  | list ts => rfl
  | absent => rfl

theorem levels_le_of_mem (h : c ∈ t.children) : c.levels ≤ t.levels := by
  have hall := levelsAll_le_iff.mp (Nat.le_refl (levelsAll t.children)) c h
  rw [levels_eq t]
  split
  · omega
  · exact hall

theorem levels_lt_of_mem (hfunction : t.isFunction = true) (h : c ∈ t.children) : c.levels < t.levels := by
  have hall := levelsAll_le_iff.mp (Nat.le_refl (levelsAll t.children)) c h
  rw [levels_eq t, if_pos hfunction]
  omega

/-- A function with statements has a level below it for helpers. -/
theorem two_le_levels (h : t.isBusy = true) : 2 ≤ t.levels := by
  have hfunction : t.isFunction = true := ((Bool.and_eq_true ..).mp h).1
  rw [levels_eq t, if_pos hfunction, if_pos h]
  omega

theorem size_pos (t : Tree) : 0 < t.size := by
  cases t with
  | node o k ts => exact Nat.succ_pos _
  | list ts => exact Nat.succ_pos _
  | absent => exact Nat.one_pos

theorem levels_le_size (t : Tree) : t.levels ≤ t.size := by
  induction t using childInd with
  | h t ih =>
      have hchildren : levelsAll t.children ≤ sizeAll t.children :=
        levelsAll_le_iff.mpr fun c hc => Nat.le_trans (ih c hc) (size_le_of_mem hc)
      have hbusy : t.isBusy = true → 1 ≤ sizeAll t.children := by
        intro h
        -- the body is there to be counted
        obtain ⟨body, hbody, -⟩ := (Option.any_eq_true ..).mp ((Bool.and_eq_true ..).mp h).2
        exact Nat.le_trans (size_pos body) (size_le_of_mem (List.mem_of_getElem? hbody))
      rw [levels_eq, size_eq]
      split
      · split
        · have := hbusy ‹_›
          omega
        · omega
      · omega

/-- Changes that bring in no levels. -/
structure Shallower (t t' : Tree) : Prop where
  levels : t'.levels ≤ t.levels
  hasStatements : t'.hasStatements = true → t.hasStatements = true

theorem Shallower.of_plain (t : Tree) (h : t'.levels = 0) (hno : t'.hasStatements = false) : Shallower t t' where
  levels := h ▸ Nat.zero_le _
  hasStatements hyes := by rw [hno] at hyes; cases hyes

/-- A function that has statements after changes below had some before. -/
theorem isBusy_of_forall₂ (h : List.Forall₂ Shallower t.children ts') (hbusy : (t.withChildren ts').isBusy = true) :
    t.isBusy = true := by
  rw [isBusy, (walkKinds_withChildren t ts').1, children_withChildren h.length_eq.symm, Bool.and_eq_true,
    Option.any_eq_true] at hbusy
  obtain ⟨hfunction, body', hbody', hyes⟩ := hbusy
  -- the body has the same number among the children before and after
  obtain ⟨hlt', rfl⟩ := List.getElem?_eq_some_iff.mp hbody'
  have hlt : 1 < t.children.length := h.length_eq ▸ hlt'
  have hbody : Shallower t.children[1] ts'[1] := h.get hlt hlt'
  rw [isBusy, hfunction, Bool.true_and, List.getElem?_eq_getElem hlt]
  exact hbody.hasStatements hyes

/-- Changes below a node that bring in no levels bring none to the node. -/
theorem shallower_congruence : Congruence Shallower where
  refl _ := ⟨Nat.le_refl _, id⟩
  trans h h' := ⟨Nat.le_trans h'.levels h.levels, fun hyes => h.hasStatements (h'.hasStatements hyes)⟩
  parent {t ts'} h := by
    have hall : levelsAll ts' ≤ levelsAll t.children := by
      refine levelsAll_le_iff.mpr fun c' hc' => ?_
      obtain ⟨c, hc, hle⟩ := forall₂_exists_left h hc'
      exact Nat.le_trans hle.levels (levelsAll_le_iff.mp (Nat.le_refl _) c hc)
    constructor
    · have hbusy : (if (t.withChildren ts').isBusy then 1 else 0) ≤ if t.isBusy then 1 else 0 := by
        cases hyes : (t.withChildren ts').isBusy with
        | true => simp [isBusy_of_forall₂ h hyes]
        | false => exact Nat.zero_le _
      rw [levels_eq, levels_eq t, (walkKinds_withChildren t ts').1, children_withChildren h.length_eq.symm]
      split
      · omega
      · exact hall
    · -- a block holds statements if it held some before
      cases t with
      | node o k ts =>
          intro hyes
          unfold hasStatements at hyes
          split at hyes
          next heq =>
            cases heq
            cases h with
            | cons => rfl
          next => cases hyes
      | list ts => exact id
      | absent => exact id

end Tree

namespace Context

variable {s : Setting} {body t : Tree} {k : ScopeKind}

/-- To convert reads brings in no levels. -/
theorem shallower_convertReads (p t : Tree) : Tree.Shallower t (p.convertReads t) := by
  rw [Tree.convertReads_eq_mapDown]
  refine Tree.shallower_congruence.mapDown (fun t t' h => ?_) _ t
  rcases Tree.readIn?_eq_some h with ⟨x, -, h⟩ | h
  · obtain ⟨k, -, rfl | ⟨member, rfl⟩⟩ := Tree.flatRead?_eq_some h
    · exact .of_plain t rfl rfl
    · exact .of_plain t rfl rfl
  · obtain ⟨_, _, _, member, -, -, rfl⟩ := Tree.handlerRead?_eq_some h
    exact .of_plain t rfl rfl

theorem shallower_convertHook? {hook : String} {d d' p : Tree} (h : d.convertHook? hook = some (d', p)) :
    Tree.Shallower d d' := by
  obtain ⟨o, dk, co, callee, args, targs, -, rfl, rfl⟩ := Tree.convertHook?_eq_some h
  -- the pattern and what is called are replaced, and the arguments stay
  have hcall : Tree.Shallower (.expr co .call [callee, args, targs])
      (.expr co .call [Make.ident "useFormMetadata", args, targs]) :=
    Tree.shallower_congruence.parent (t := .expr co .call [callee, args, targs])
      (.cons (.of_plain callee rfl rfl) (.cons (Tree.shallower_congruence.refl _)
        (.cons (Tree.shallower_congruence.refl _) .nil)))
  exact Tree.shallower_congruence.parent (t := .part o (.declarator dk) [p, .expr co .call [callee, args, targs]])
    (.cons (.of_plain p rfl rfl) (.cons hcall .nil))

theorem forall₂_replace {α : Type} {R : α → α → Prop} {pre post : List α} {a a' : α} (hrefl : ∀ a, R a a) (h : R a a') :
    List.Forall₂ R (pre ++ a :: post) (pre ++ a' :: post) :=
  List.rel_append (List.forall₂_same.mpr fun a _ => hrefl a) (.cons h (List.forall₂_same.mpr fun a _ => hrefl a))

theorem shallower_convertHookIn? {hook : String} {t t' p : Tree} (h : t.convertHookIn? hook = some (t', p)) :
    Tree.Shallower t t' := by
  obtain ⟨o, kw, dcl, pre, d, d', post, hd, rfl, rfl⟩ := Tree.convertHookIn?_eq_some h
  exact Tree.shallower_congruence.parent (t := .stmt o (.vars kw dcl) (pre ++ d :: post))
    (forall₂_replace Tree.shallower_congruence.refl (shallower_convertHook? hd))

/-- Helpers nest one level of functions. -/
theorem levels_helpersFor (s : Setting) (p flat : Tree) : ∀ t ∈ helpersFor s p flat, t.levels ≤ 1 := by
  -- parameters have types or not
  obtain ⟨names, typed⟩ := s
  cases typed <;>
    exact forall_mem_helpersFor p flat (fun _ => Nat.zero_le _) (fun _ => Nat.zero_le _)
      (fun _ => ⟨Nat.le_refl _, Nat.le_refl _⟩) (Nat.zero_le _) (Nat.zero_le _) (fun _ => Nat.le_refl _)
      fun _ => Nat.zero_le _

/-- The body that is put into a function has fewer levels than the function had. -/
theorem levels_convertScope_lt (h : t.scopeBody? = some (k, body)) : (convertScope s body).levels < t.levels := by
  have hfunction := Tree.isFunction_of_scopeBody? h
  have hbody := Tree.children_of_scopeBody? h
  rcases convertScope_cases s body with hself | ⟨o, ss, ss', i, p, rfl, hfirst, hconverted⟩
  · rw [hself]
    exact Tree.levels_lt_of_mem hfunction (List.mem_of_getElem? hbody)
  · obtain ⟨pre, a, a', post, rfl, ha, rfl, -⟩ := mapFirst?_eq_some hfirst
    have hbusy : t.isBusy = true := by
      rw [Tree.isBusy, hfunction, hbody, Bool.true_and]
      cases pre <;> rfl
    -- the statements have no more levels than they had inside of the function, and helpers only one
    have hown : ∀ u ∈ pre ++ a' :: post, (p.convertReads u).levels < t.levels := by
      intro u hu
      obtain ⟨v, hv, hle⟩ := forall₂_exists_left
        (forall₂_replace Tree.shallower_congruence.refl (shallower_convertHookIn? ha)) hu
      have hblock : v.levels ≤ (Tree.stmt o .block (pre ++ a :: post)).levels := Tree.levels_le_of_mem hv
      have hfun := Tree.levels_lt_of_mem hfunction (List.mem_of_getElem? hbody)
      have hreads := (shallower_convertReads p u).levels
      have := hle.levels
      omega
    rw [hconverted]
    show Tree.levelsAll _ < t.levels
    have htwo := Tree.two_le_levels hbusy
    refine Nat.lt_of_le_sub_one (by omega) (Tree.levelsAll_le_iff.mpr (forall_mem_converted ?_ ?_))
    · intro u hu
      have := levels_helpersFor s _ _ u hu
      omega
    · intro u hu
      have := hown u hu
      omega

end Context

end FormCodemod
