import FormCodemod.Proofs.Context.Converted
import FormCodemod.Proofs.Context.Hooks

/-!
# Context hooks that are left

A scope may declare several variables with a call of the context hook. The conversion takes the first one that is written
plainly, and is done. `Context.convert_leaves_hooks` says what is left: in a scope with such a call one less than there
was, and in another scope everything. So no call is left in the scopes of a converted module if each function held one
at most, and that one was written plainly (`Tree.Lone`).
-/

namespace FormCodemod

open Observed (Gives)

namespace Context

open FormCodemod.Tree (hooks Lone)

variable {s : Setting} {body : Tree} {o : Origin} {ss ss' : List Tree} {i : Nat} {p : Tree} {hook : String}

/-- No helper calls a function for its value that has a name of its own. -/
theorem hooks_helpersFor (s : Setting) (p flat : Tree) (hook : String) : hooks hook (helpersFor s p flat) = [] := by
  have hall : ∀ t ∈ helpersFor s p flat, t.stmtDeclarators.filter (fun d => d.initialCall? == some hook) = [] :=
    forall_mem_helpersFor p flat (fun _ => rfl) (fun _ => rfl) (fun _ => ⟨rfl, rfl⟩) rfl rfl (fun _ => rfl) fun _ => rfl
  rw [hooks, Tree.allDeclarators, List.filter_flatMap, List.flatMap_eq_nil_iff]
  exact hall

/-- The hooks of a converted scope are those of its statements with their reads converted. -/
theorem length_hooks_converted (s : Setting) (o : Origin) (ss' : List Tree) (i : Nat) (p : Tree) (hook : String) :
    (hooks hook (converted s o ss' i p)).length = (hooks hook (ss'.map p.convertReads)).length := by
  rw [converted, Tree.hooks_insertAt, hooks_helpersFor]
  rfl

/-- A scope with a plain hook keeps one hook less. -/
theorem length_hooks_convertScope_lt (hname : hook ∉ "useFormMetadata" :: flattened)
    (h : mapFirst? (Tree.convertHookIn? hook) ss = some (ss', i, p)) :
    (hooks hook (converted s o ss' i p)).length + 1 ≤ (hooks hook ss).length := by
  rw [List.mem_cons, not_or] at hname
  have hfirst := Tree.length_hooks_first hname.1 h
  have hreads := Tree.length_hooks_convertReads_le hname.2 p ss'
  rw [length_hooks_converted]
  omega

/-! ## Functions with a lone hook -/

/-- The hooks in the statements of a function are lone. -/
def HoldsLone (hook : String) (t : Tree) : Prop := ∀ k body, t.scopeBody? = some (k, body) → Lone hook body.statements

theorem holdsLone_of_not_isFunction {t : Tree} (h : t.isFunction = false) : HoldsLone hook t := by
  intro k body hscope
  rw [Tree.isFunction_of_scopeBody? hscope] at h
  cases h

def holdsHook (hook : String) (t : Tree) : Bool := t.scopeBody?.any fun b => !(hooks hook b.2.statements).isEmpty

theorem lone_of_nil (h : hooks hook ss = []) : Lone hook ss where
  length_le := by
    rw [h]
    exact Nat.zero_le 1
  plain t ht d hd hcall := by
    have hmem : d ∈ hooks hook ss := Tree.mem_hooks.mpr ⟨⟨t, ht, hd⟩, hcall⟩
    rw [h] at hmem
    cases hmem

/-- Where no function holds a hook, the hooks of all of them are lone. -/
theorem everywhere_holdsLone {t : Tree} (h : t.any Tree.nowhere (holdsHook hook) = false) :
    t.Everywhere (HoldsLone hook) := by
  intro q u hu k body hscope
  have hnode : u.isNode = true := by
    cases u with
    | node => rfl
    | list => cases hscope
    | absent => cases hscope
  have hno := (Tree.any_eq_false_iff t).mp h q u hu hnode
  rw [holdsHook, hscope, Option.any_some, Bool.not_eq_false', List.isEmpty_iff] at hno
  exact lone_of_nil hno

/-- A node that is no read keeps its kind, around children with their reads converted. -/
theorem convertReads_eq_withChildren {t : Tree} (hs : t.opensScope = false) (hread : p.readIn? t = none) :
    p.convertReads t = t.withChildren (t.children.map p.convertReads) := by
  have hmap : p.convertReads = Tree.mapDown Tree.opensScope p.readIn? := funext (Tree.convertReads_eq_mapDown p)
  rw [hmap, Tree.mapDown_eq_withChildren hs hread]

theorem convertReads_of_opensScope {t : Tree} (h : t.opensScope = true) : p.convertReads t = t := by
  rw [Tree.convertReads_eq_mapDown]
  cases t with
  | node o k ts => rw [Tree.mapDown_node, if_pos h]
  | list ts => cases h
  | absent => cases h

/-- What declares a component is no statement with declarators. -/
theorem stmtDeclarators_of_opensScope {t : Tree} (h : t.opensScope = true) : t.stmtDeclarators = [] := by
  unfold Tree.stmtDeclarators
  split
  · cases h
  · cases h
  · rfl

/-- The declarators of a statement have their reads converted, each by itself. -/
theorem stmtDeclarators_convertReads (p t : Tree) :
    (p.convertReads t).stmtDeclarators = t.stmtDeclarators.map p.convertReads ∧ (p.convertReads t).isVars = t.isVars := by
  by_cases hs : t.opensScope = true
  · rw [convertReads_of_opensScope hs, stmtDeclarators_of_opensScope hs]
    exact ⟨rfl, rfl⟩
  · cases hread : p.readIn? t with
    | some t' =>
        have hnew : p.convertReads t = t' := by
          obtain ⟨⟨o, k, ts, rfl⟩, -⟩ := Tree.expr_of_readIn? hread
          rw [Tree.convertReads_eq_mapDown, Tree.mapDown, if_neg hs, hread]
        obtain ⟨⟨o, k, ts, rfl⟩, ⟨o', k', ts', rfl⟩⟩ := Tree.expr_of_readIn? hread
        rw [hnew]
        exact ⟨rfl, rfl⟩
    | none =>
        rw [convertReads_eq_withChildren ((Bool.not_eq_true _).mp hs) hread]
        cases t with
        | node o k ts =>
            cases k with
            | stmt k => cases k <;> exact ⟨rfl, rfl⟩
            | _ => exact ⟨rfl, rfl⟩
        | list ts => exact ⟨rfl, rfl⟩
        | absent => exact ⟨rfl, rfl⟩

/-- Reads that are converted leave a plain hook plain, if they leave it a hook. -/
theorem isSome_convertHook?_convertReads {d : Tree} (h : (d.convertHook? hook).isSome = true)
    (hcall : (p.convertReads d).initialCall? = some hook) : ((p.convertReads d).convertHook? hook).isSome = true := by
  by_cases hs : d.opensScope = true
  · rw [convertReads_of_opensScope hs]
    exact h
  · obtain ⟨⟨d', q⟩, hd'⟩ := Option.isSome_iff_exists.mp h
    obtain ⟨o, dk, co, callee, args, targs, hcallee, rfl, -⟩ := Tree.convertHook?_eq_some hd'
    -- neither the declarator nor the call is a read, so both stay around what they hold
    have hcall' : p.convertReads (.expr co .call [callee, args, targs]) =
        .expr co .call ([callee, args, targs].map p.convertReads) :=
      convertReads_eq_withChildren rfl (Tree.readIn?_of_calleeName? hcallee)
    have hd : p.convertReads (.part o (.declarator dk) [q, .expr co .call [callee, args, targs]]) =
        .part o (.declarator dk) [p.convertReads q, .expr co .call ([callee, args, targs].map p.convertReads)] := by
      rw [convertReads_eq_withChildren ((Bool.not_eq_true _).mp hs) Tree.readIn?_part, ← hcall']
      rfl
    rw [hd] at hcall ⊢
    have hcallee' : ((p.convertReads callee).ident? == some hook) = true := beq_iff_eq.mpr hcall
    show (if (p.convertReads callee).ident? == some hook then some _ else none).isSome = true
    rw [if_pos hcallee']
    rfl

/-- To convert reads keeps hooks lone. -/
theorem lone_convertReads (hflat : hook ∉ flattened) (h : Lone hook ss) (p : Tree) : Lone hook (ss.map p.convertReads) where
  length_le := Nat.le_trans (Tree.length_hooks_convertReads_le hflat p ss) h.length_le
  plain t' ht' d' hd' hcall := by
    obtain ⟨t, ht, rfl⟩ := List.mem_map.mp ht'
    obtain ⟨hdeclarators, hvars⟩ := stmtDeclarators_convertReads p t
    rw [hdeclarators] at hd'
    obtain ⟨d, hd, rfl⟩ := List.mem_map.mp hd'
    obtain ⟨hplain, hhook⟩ := h.plain t ht d hd ((Tree.bringsNone_convertReads hflat p d).initial hcall)
    exact ⟨hvars.trans hplain, isSome_convertHook?_convertReads hhook hcall⟩

/-- Where the parts of a function were changed one by one, its body was. -/
theorem scopeBody?_withChildren_map {g : Tree → Tree} (hg : g .absent = .absent) {t body' : Tree} {k : ScopeKind}
    (h : (t.withChildren (t.children.map g)).scopeBody? = some (k, body')) :
    ∃ body, t.scopeBody? = some (k, body) ∧ body' = g body := by
  have hall : List.Forall₂ (fun c c' => c' = g c) t.children (t.children.map g) :=
    List.forall₂_map_right_iff.mpr (List.forall₂_same.mpr fun _ _ => rfl)
  cases t with
  | node o kind ts =>
      rw [Tree.children_node] at h hall
      rcases Tree.scopeBody?_eq_some.mp h with ⟨rfl, hbody', _, a, b, ps', tps', r', heq⟩ | ⟨rfl, _, a, ps', tps', r', heq⟩
      · obtain ⟨rfl, rfl, hts⟩ := Tree.node.inj heq
        rw [hts] at hall
        obtain ⟨ps, body, tps, r, rfl, rfl⟩ := Tree.forall₂_four hall
        have hbody : body.isAbsent = false := by
          cases body with
          | absent =>
              rw [hg] at hbody'
              cases hbody'
          | _ => rfl
        exact ⟨body, Tree.scopeBody?_eq_some.mpr (.inl ⟨rfl, hbody, _, _, _, _, _, _, rfl⟩), rfl⟩
      · obtain ⟨rfl, rfl, hts⟩ := Tree.node.inj heq
        rw [hts] at hall
        obtain ⟨ps, body, tps, r, rfl, rfl⟩ := Tree.forall₂_four hall
        exact ⟨body, rfl, rfl⟩
  | list ts => cases h
  | absent => cases h

/-- What a read becomes holds no hook. -/
theorem everywhere_of_readIn? {t t' : Tree} (h : p.readIn? t = some t') : t'.Everywhere (HoldsLone hook) := by
  apply everywhere_holdsLone
  rcases Tree.readIn?_eq_some h with ⟨x, -, h⟩ | h
  · obtain ⟨k, -, rfl | ⟨member, rfl⟩⟩ := Tree.flatRead?_eq_some h
    · rfl
    · rfl
  · obtain ⟨_, _, _, member, -, -, rfl⟩ := Tree.handlerRead?_eq_some h
    rfl

/-- The statements of a body have their reads converted, each by itself. -/
theorem statements_convertReads (p body : Tree) :
    (p.convertReads body).statements = body.statements.map p.convertReads := by
  have hmap : p.convertReads = Tree.mapDown Tree.opensScope p.readIn? := funext (Tree.convertReads_eq_mapDown p)
  rw [hmap]
  refine Tree.statements_mapDown (fun t t' hread => ?_) body
  obtain ⟨⟨_, _, _, rfl⟩, ⟨_, _, _, rfl⟩⟩ := Tree.expr_of_readIn? hread
  exact ⟨rfl, rfl⟩

/-- A function whose hooks are lone is left with lone hooks when its reads are converted. -/
theorem holdsLone_convertReads {t : Tree} (hflat : hook ∉ flattened) (p : Tree) (h : HoldsLone hook t) :
    HoldsLone hook (p.convertReads t) := by
  by_cases hs : t.opensScope = true
  · rw [convertReads_of_opensScope hs]
    exact h
  · cases hread : p.readIn? t with
    | some t' =>
        -- what is put in for a read is no function
        obtain ⟨⟨o, k, ts, rfl⟩, -⟩ := Tree.expr_of_readIn? hread
        rw [Tree.convertReads_eq_mapDown, Tree.mapDown, if_neg hs, hread]
        exact (everywhere_of_readIn? hread).here
    | none =>
        rw [convertReads_eq_withChildren ((Bool.not_eq_true _).mp hs) hread]
        intro k body' hscope
        have habsent : p.convertReads .absent = .absent := by
          rw [Tree.convertReads_eq_mapDown]
          rfl
        obtain ⟨body, hbody, rfl⟩ := scopeBody?_withChildren_map habsent hscope
        rw [statements_convertReads]
        exact lone_convertReads hflat (h k body hbody) p

/-- Functions all over a tree are left with lone hooks when reads are converted. -/
theorem everywhere_convertReads {t : Tree} (hflat : hook ∉ flattened) (p : Tree) (h : t.Everywhere (HoldsLone hook)) :
    (p.convertReads t).Everywhere (HoldsLone hook) := by
  have hstay : ∀ t, HoldsLone hook t → HoldsLone hook (t.mapDown Tree.opensScope p.readIn?) := by
    intro t ht
    rw [← Tree.convertReads_eq_mapDown]
    exact holdsLone_convertReads hflat p ht
  rw [Tree.convertReads_eq_mapDown]
  exact Tree.everywhere_mapDown (fun _ _ => everywhere_of_readIn?) hstay h

/-- Around trees that hold lone hooks, a node that is no function holds none by itself. -/
theorem everywhere_node {t : Tree} (ht : t.isFunction = false) :
    t.Everywhere (HoldsLone hook) ↔ ∀ c ∈ t.children, c.Everywhere (HoldsLone hook) := by
  rw [Tree.everywhere_iff]
  exact and_iff_right (holdsLone_of_not_isFunction ht)

/-- The conversion of a hook puts nothing new below a function. -/
theorem everywhere_convertHook? {d d' : Tree} (h : d.convertHook? hook = some (d', p))
    (hd : d.Everywhere (HoldsLone hook)) : d'.Everywhere (HoldsLone hook) := by
  obtain ⟨o, dk, co, callee, args, targs, -, rfl, rfl⟩ := Tree.convertHook?_eq_some h
  have hcall := hd.child (c := .expr co .call [callee, args, targs]) (by simp)
  have hname : ∀ x, (Make.ident x).Everywhere (HoldsLone hook) := fun x => everywhere_holdsLone rfl
  have hpattern : (Make.binding formName).Everywhere (HoldsLone hook) := everywhere_holdsLone rfl
  rw [everywhere_node rfl]
  simp only [Tree.children_node, List.forall_mem_cons, List.not_mem_nil, false_implies, implies_true, and_true]
  refine ⟨hpattern, (everywhere_node rfl).mpr ?_⟩
  simp only [Tree.children_node, List.forall_mem_cons, List.not_mem_nil, false_implies, implies_true, and_true]
  exact ⟨hname _, hcall.child (by simp), hcall.child (by simp)⟩

/-- To convert a hook keeps the hooks of the functions below lone. -/
theorem everywhere_convertHookIn? {t t' : Tree} (h : t.convertHookIn? hook = some (t', p))
    (ht : t.Everywhere (HoldsLone hook)) : t'.Everywhere (HoldsLone hook) := by
  obtain ⟨o, kw, dcl, pre, d, d', post, hd, rfl, rfl⟩ := Tree.convertHookIn?_eq_some h
  have hds := (everywhere_node (t := .stmt o (.vars kw dcl) (pre ++ d :: post)) rfl).mp ht
  refine (everywhere_node (t := .stmt o (.vars kw dcl) (pre ++ d' :: post)) rfl).mpr (forall_mem_replace hds ?_)
  exact everywhere_convertHook? hd (hds d (by simp))

/-- Helpers hold functions without hooks. -/
theorem everywhere_helpersFor (s : Setting) (p flat : Tree) (hook : String) :
    ∀ t ∈ helpersFor s p flat, t.Everywhere (HoldsLone hook) := by
  obtain ⟨names, typed⟩ := s
  cases typed <;>
    exact forall_mem_helpersFor p flat (fun _ => everywhere_holdsLone rfl) (fun _ => everywhere_holdsLone rfl)
      (fun _ => ⟨everywhere_holdsLone rfl, everywhere_holdsLone rfl⟩) (everywhere_holdsLone rfl)
      (everywhere_holdsLone rfl) (fun _ => everywhere_holdsLone rfl) fun _ => everywhere_holdsLone rfl

/-- The functions in a converted scope hold lone hooks if those of the scope did. -/
theorem everywhere_convertScope (hflat : s.names.useFormikContext ∉ flattened)
    (h : body.Everywhere (HoldsLone s.names.useFormikContext)) :
    (convertScope s body).Everywhere (HoldsLone s.names.useFormikContext) := by
  rcases convertScope_cases s body with hself | ⟨o, ss, ss', i, p, rfl, hfirst, hconverted⟩
  · rw [hself]
    exact h
  · obtain ⟨pre, t, t', post, rfl, ht, rfl, -⟩ := mapFirst?_eq_some hfirst
    have hss := (everywhere_node (t := .stmt o .block (pre ++ t :: post)) rfl).mp h
    have hss' := forall_mem_replace hss (everywhere_convertHookIn? ht (hss t (by simp)))
    rw [hconverted]
    refine (everywhere_node (t := .stmt o .block (converted s o (pre ++ t' :: post) i p)) rfl).mpr ?_
    exact forall_mem_converted (everywhere_helpersFor s p _ _) fun u hu => everywhere_convertReads hflat p (hss' u hu)

/-! ## Hooks of a converted module -/

/-- A lone hook is converted, or there was none. -/
theorem hooks_convertScope_of_lone (hname : s.names.useFormikContext ∉ "useFormMetadata" :: flattened)
    (h : Lone s.names.useFormikContext body.statements) :
    hooks s.names.useFormikContext (convertScope s body).statements = [] := by
  cases hss : body.statements? with
  | none =>
      rw [convertScope, hss]
      rw [hooks, Tree.allDeclarators_of_none hss]
      rfl
  | some ss =>
      obtain ⟨o, rfl⟩ := Tree.eq_block_of_statements? hss
      cases hfirst : mapFirst? (Tree.convertHookIn? s.names.useFormikContext) ss with
      | none =>
          rw [convertScope_of_none hfirst]
          rw [List.eq_nil_iff_forall_not_mem]
          intro d hd
          obtain ⟨⟨t, ht, hdecl⟩, hcall⟩ := Tree.mem_hooks.mp hd
          obtain ⟨hvars, hplain⟩ := h.plain t ht d hdecl hcall
          have hno := mapFirst?_eq_none.mp hfirst t ht
          -- a plain hook among variables would have been found
          unfold Tree.isVars at hvars
          split at hvars
          next o kw dcl ds =>
            rw [Tree.convertHookIn?, Option.map_eq_none_iff, mapFirst?_eq_none] at hno
            rw [hno d hdecl] at hplain
            cases hplain
          next => cases hvars
      | some r =>
          have hlt : (hooks s.names.useFormikContext (converted s o r.1 r.2.1 r.2.2)).length + 1 ≤
              (hooks s.names.useFormikContext ss).length := length_hooks_convertScope_lt hname hfirst
          have hle : (hooks s.names.useFormikContext ss).length ≤ 1 := h.length_le
          rw [convertScope_of_hook hfirst]
          show hooks _ (converted s o r.1 r.2.1 r.2.2) = []
          apply List.length_eq_zero_iff.mp
          omega

/-- A function whose hook is lone has none left when the context pass has come to it. -/
theorem treats_hooks (hname : s.names.useFormikContext ∉ "useFormMetadata" :: flattened) :
    Tree.TreatsFunctions (m := Id) (fun _ body => pure (convertScope s body)) Tree.levels
      (Tree.Everywhere (HoldsLone s.names.useFormikContext))
      fun t => ∀ k body, t.scopeBody? = some (k, body) → hooks s.names.useFormikContext body.statements = [] where
  child := Tree.Everywhere.child
  depth_le := Tree.levels_le_of_mem
  depth_lt := Tree.levels_lt_of_mem
  body {t k body body' σ σ'} hfit hscope hgives := by
    obtain ⟨rfl, -⟩ := Observed.pure_inv hgives
    -- what is put in has to be fit for the walk that goes into it next
    have hbody := hfit.child (List.mem_of_getElem? (Tree.children_of_scopeBody? hscope))
    have hflat : s.names.useFormikContext ∉ flattened := fun h => hname (List.mem_cons_of_mem _ h)
    refine ⟨everywhere_convertScope hflat hbody, levels_convertScope_lt hscope, fun k' body₁ hscope₁ => ?_⟩
    obtain rfl := Tree.scopeBody?_set hscope hscope₁
    exact hooks_convertScope_of_lone hname (hfit.here k body hscope)
  walked {t ts'} _ hgood hwalked k' body' hscope' := by
    obtain ⟨k, body, hscope, hwalk⟩ := Tree.scopeBody?_walked hwalked hscope'
    have hlength := Tree.length_hooks_of_walked hwalk s.names.useFormikContext
    rw [hgood k body hscope] at hlength
    exact List.length_eq_zero_iff.mp hlength

/-- In a scope, the first plain hook is converted and all others are left. So hooks are left in the scopes of a converted
module only if they are called like what they are converted to or like a capability, or if in the module a function
held two of them in its statements, or one that is not plain. -/
theorem convert_leaves_hooks (s : Setting) :
    ((∀ body, (∀ ss, body.statements? = some ss →
        mapFirst? (Tree.convertHookIn? s.names.useFormikContext) ss = none) → convertScope s body = body) ∧
      ∀ o ss ss' i p, mapFirst? (Tree.convertHookIn? s.names.useFormikContext) ss = some (ss', i, p) →
        s.names.useFormikContext ∉ "useFormMetadata" :: flattened → s.names.useFormikContext ∉ p.boundNames →
        (hooks s.names.useFormikContext (convertScope s (.stmt o .block ss)).statements).length + 1 =
          (hooks s.names.useFormikContext ss).length) ∧
    ∀ m : Module, ∀ h ∈ (convert s m).handouts, hooks s.names.useFormikContext h.body.statements ≠ [] →
      s.names.useFormikContext ∈ "useFormMetadata" :: flattened ∨
      ∃ p u k body, m.at? p = some u ∧ u.scopeBody? = some (k, body) ∧ ¬ Lone s.names.useFormikContext body.statements := by
  refine ⟨⟨fun body hno => ?_, fun o ss ss' i p hfirst hname hp => ?_⟩, fun m h hh hleft => ?_⟩
  · rcases convertScope_cases s body with hself | ⟨o, ss, ss', i, p, rfl, hfirst, -⟩
    · exact hself
    · rw [hno ss rfl] at hfirst
      cases hfirst
  · rw [List.mem_cons, not_or] at hname
    rw [convertScope_of_hook hfirst, ← Tree.length_hooks_first hname.1 hfirst,
      ← Tree.length_hooks_convertReads hname.2 hp ss', ← length_hooks_converted s o ss' i p]
    rfl
  · by_contra hcontra
    rw [not_or] at hcontra
    obtain ⟨hname, hno⟩ := hcontra
    -- otherwise all functions of the module hold lone hooks, and the walk converts each of them
    have hlone : ∀ t ∈ m.items, t.Everywhere (HoldsLone s.names.useFormikContext) := by
      intro t ht q u hu k body hscope
      by_contra hmany
      obtain ⟨i, hi⟩ := List.mem_iff_getElem?.mp ht
      exact hno ⟨i :: q, u, k, body, Tree.at?_cons_eq_some.mpr ⟨t, hi, hu⟩, hscope, hmany⟩
    have hgives : Gives (m := Id) (m.forEachScope fun _ body => pure (convertScope s body)) {} (convert s m) {} :=
      ⟨rfl, rfl⟩
    obtain ⟨t', -, hscope, hnone⟩ :=
      Module.functions_forEachScope (treats_hooks hname) Tree.levels_le_size hlone hgives h hh
    exact hleft (hnone _ _ hscope)

/-- `{ const { values } = useFormikContext(); const { isSubmitting } = useFormikContext(); return isSubmitting; }` -/
def twiceBody : Tree :=
  Make.block
    [Make.const (Make.objectPat ["values"]) (Make.callNamed "useFormikContext" []),
      Make.const (Make.objectPat ["isSubmitting"]) (Make.callNamed "useFormikContext" []),
      Make.ret (Make.ident "isSubmitting")]

/-- The second of two hooks is left. -/
theorem twiceBody_leaves :
    ¬ Lone "useFormikContext" twiceBody.statements ∧
      (hooks "useFormikContext" (convertScope ⟨{}, false⟩ twiceBody).statements).length = 1 := by
  have hlength := (convert_leaves_hooks ⟨{}, false⟩).1.2 .made twiceBody.statements _ _ _ rfl (by decide) (by decide)
  refine ⟨fun hlone => ?_, Nat.succ.inj hlength⟩
  exact absurd hlone.length_le (by decide)

end Context

end FormCodemod
