import FormCodemod.Proofs.Convert.Frame
import FormCodemod.Proofs.FieldHook.Outcomes
import FormCodemod.Proofs.Names.Free
import FormCodemod.Proofs.Tree.Outline

/-!
# Awaits of setters

Once the hooks of a scope are bound anew (`FieldHook.rebound`), awaits are dropped from the inside out: an await goes if its
operand, as it is by then, calls a setter (`FieldHook.withoutAwaits`). The operand moves up into its place, and what is below
moves along (`FieldHook.movedTo`).

`FieldHook.convertScope_awaits` says what is left: none of the awaits that the rule is for, and every other one around the
same operand. A setter is known by its name only. In `async (setValue) => { await setValue(1); }` the name is that of the
parameter, and the await goes all the same (`FieldHook.shadowBody_awaits`).
-/

namespace FormCodemod.FieldHook

/-! ## Dropping awaits -/

def awaitsSetter (setters : List String) : Tree → Bool
  | .expr _ .await [e] => callsSetter setters e
  | _ => false

def withoutAwaits (setters : List String) (t : Tree) : Tree := t.mapUp Tree.opensScope (dropAwait setters)

def drops (setters : List String) (t : Tree) : Bool :=
  awaitsSetter setters (t.withChildren (t.children.map (withoutAwaits setters)))

def movedTo (setters : List String) : Tree → Place → Place
  | _, [] => []
  | t, i :: p =>
      match t.children[i]? with
      | some u => if drops setters t then movedTo setters u p else i :: movedTo setters u p
      | none => i :: p

variable {setters : List String} {t u e : Tree} {p : Place} {o : Origin} {k : Kind} {ts : List Tree}

theorem dropAwait_of_not (h : awaitsSetter setters t = false) : dropAwait setters t = t := by
  unfold dropAwait
  split
  next o e => exact if_neg (Bool.eq_false_iff.mp h)
  next => rfl

/-- What a dropped await waits for takes its place. -/
theorem dropAwait_of_awaits (h : callsSetter setters e = true) : dropAwait setters (.expr o .await [e]) = e :=
  if_pos h

/-- An await is dropped exactly if a setter is called once the awaits inside are dropped. -/
theorem drops_await : drops setters (.expr o .await [e]) = callsSetter setters (withoutAwaits setters e) := rfl

/-- What is dropped is an await. -/
theorem exists_of_drops (h : drops setters t = true) :
    ∃ o e, t = .expr o .await [e] ∧ callsSetter setters (withoutAwaits setters e) = true := by
  unfold drops awaitsSetter at h
  split at h
  next o e heq =>
    cases t with
    | node o' k ts =>
        rw [Tree.withChildren, Tree.children_node] at heq
        injection heq with ho hk hts
        subst ho hk
        obtain ⟨e', rfl, rfl⟩ := List.map_eq_singleton_iff.mp hts
        exact ⟨o', e', rfl, h⟩
    | list ts => cases heq
    | absent => cases heq
  next => cases h

/-- The awaits of further components are kept. -/
theorem withoutAwaits_of_opensScope (h : t.opensScope = true) : withoutAwaits setters t = t := by
  cases t with
  | node o k ts => rw [withoutAwaits, Tree.mapUp_node, if_pos h]
  | list ts => cases h
  | absent => rfl

/-- A dropped await leaves what it waited for, with the awaits inside dropped. -/
theorem withoutAwaits_of_drops (h : drops setters (.expr o .await [e]) = true) :
    withoutAwaits setters (.expr o .await [e]) = withoutAwaits setters e := by
  have hstop : Tree.opensScope (.expr o .await [e]) = false := rfl
  rw [withoutAwaits, Tree.mapUp_node, hstop, if_neg Bool.false_ne_true]
  exact dropAwait_of_awaits h

/-- Any other node is left around children without their awaits. -/
theorem withoutAwaits_eq (hs : t.opensScope = false) (h : drops setters t = false) :
    withoutAwaits setters t = t.withChildren (t.children.map (withoutAwaits setters)) := by
  cases t with
  | node o k ts =>
      rw [withoutAwaits, Tree.mapUp_node, hs, if_neg Bool.false_ne_true]
      exact dropAwait_of_not h
  | list ts => exact Tree.mapUp_list
  | absent => rfl

/-- None of the awaits that the rule is for is left. An operand is rewritten before the await around it is looked at, so
the await is dropped also if the rewriting made its operand the call of a setter. -/
theorem any_awaitsSetter (setters : List String) (t : Tree) :
    (withoutAwaits setters t).any Tree.opensScope (awaitsSetter setters) = false := by
  induction t using Tree.ind with
  | node o k ts ih =>
      cases hs : (Tree.node o k ts).opensScope with
      | true =>
          rw [withoutAwaits_of_opensScope hs]
          exact Tree.any_node_eq_false.mpr (.inl hs)
      | false =>
          cases hd : drops setters (.node o k ts) with
          | true =>
              obtain ⟨o', e, heq, -⟩ := exists_of_drops hd
              cases heq
              rw [withoutAwaits_of_drops hd]
              exact ih e (List.mem_singleton.mpr rfl)
          | false =>
              rw [withoutAwaits_eq hs hd, Tree.withChildren, Tree.children_node]
              -- whatever it opens now, it is none of those awaits and has none below
              exact Tree.any_node_eq_false.mpr (.inr ⟨hd, List.forall_mem_map.mpr ih⟩)
  | list ts ih =>
      rw [withoutAwaits_eq rfl rfl, Tree.withChildren, Tree.children_list]
      exact Tree.any_list_eq_false.mpr (List.forall_mem_map.mpr ih)
  | absent => rfl

/-- The node that a traversal comes to at a place stands, rewritten, at the place it has moved to. -/
theorem at?_withoutAwaits (hr : t.reaches Tree.opensScope p = true) (hu : t.at? p = some u) :
    (withoutAwaits setters t).at? (movedTo setters t p) = some (withoutAwaits setters u) := by
  induction p generalizing t with
  | nil =>
      cases hu
      rfl
  | cons i p ih =>
      obtain ⟨hs, c, hc, hreach⟩ := Tree.reaches_cons.mp hr
      have hcu : c.at? p = some u := by rwa [Tree.at?_cons_of_some hc] at hu
      rw [movedTo, hc]
      dsimp only
      cases hd : drops setters t with
      | true =>
          obtain ⟨o, e, rfl, -⟩ := exists_of_drops hd
          obtain rfl : c = e := List.mem_singleton.mp (List.mem_of_getElem? hc)
          rw [if_pos rfl, withoutAwaits_of_drops hd]
          exact ih hreach hcu
      | false =>
          rw [if_neg Bool.false_ne_true, withoutAwaits_eq hs hd]
          refine Tree.at?_cons_eq_some.mpr ⟨withoutAwaits setters c, ?_, ih hreach hcu⟩
          rw [Tree.children_withChildren (List.length_map _), List.getElem?_map, hc]
          rfl

/-! ## Setters -/

/-- What is declared as a setter, or as an object of setters. -/
inductive SetterOf (s : Setting) (c : Site) : Tree → Prop
  | value : SetterOf s c (setValue s c.hook c.form)
  | touched : SetterOf s c (setTouched s)
  | both : SetterOf s c (setterObject s c.hook c.form)

variable {s : Setting} {uses : List Use} {q : Progress} {c : Site} {x : String} {v : Tree}

theorem mem_declarations {es : List (String × Tree)} : Make.constNamed x v ∈ declarations es ↔ (x, v) ∈ es := by
  rw [declarations, List.mem_map]
  constructor
  · rintro ⟨⟨y, w⟩, he, heq⟩
    simp only [Make.constNamed, Make.const, Make.constFrom, Make.binding, Tree.node.injEq, List.cons.injEq, true_and,
      and_true, Kind.pat.injEq, PatKind.binding.injEq] at heq
    obtain ⟨rfl, rfl⟩ := heq
    exact he
  · intro h
    exact ⟨(x, v), h, rfl⟩

/-- What is read off the field is no setter. -/
theorem not_setterOf_of_mem_readEntries {field : String} {values metas : Tree}
    (h : (x, v) ∈ readEntries uses field values metas) : ¬ SetterOf s c v := by
  have hmember : ∀ k : String, ¬ SetterOf s c (metaMember field k) := by
    intro k
    unfold metaMember
    split
    · rintro ⟨⟩
    · rintro ⟨⟩
  have hobject : ¬ SetterOf s c (metaObject field) := by
    intro hv
    generalize hw : metaObject field = w at hv
    cases hv with
    | value => cases hw
    | touched => cases hw
    | both =>
        -- the one has three properties and the other has two
        have hcount := congrArg (fun t : Tree => t.children.map fun u => u.children.length) hw
        cases hcount
  rcases List.mem_append.mp h with h | h
  · obtain ⟨e, -, heq⟩ := List.mem_map.mp h
    cases heq
    rintro ⟨⟩
  · rcases List.mem_append.mp h with h | h
    · obtain ⟨y, -, heq⟩ := List.mem_map.mp h
      cases heq
      exact hobject
    · obtain ⟨e, -, heq⟩ := List.mem_map.mp h
      cases heq
      exact hmember e.1

/-- All that is declared for the third place of a hook are setters. -/
theorem setterOf_of_mem_setterEntries {taken : List String} {slot : Tree}
    (h : (x, v) ∈ setterEntries s uses taken c.hook c.form slot) : SetterOf s c v := by
  rcases List.mem_append.mp h with h | h
  · obtain ⟨y, -, heq⟩ := List.mem_map.mp h
    cases heq
    exact .both
  · rcases List.mem_append.mp h with h | h
    · obtain ⟨y, -, heq⟩ := List.mem_map.mp h
      cases heq
      exact .value
    · obtain ⟨y, -, heq⟩ := List.mem_map.mp h
      cases heq
      exact .touched

/-- The setters of a hook are the names that a setter, or an object of setters, is declared with. -/
theorem mem_setters_iff (hc : (outcome s uses q t).site? = some c) :
    x ∈ c.setters ↔ ∃ v, SetterOf s c v ∧ Make.constNamed x v ∈ c.inserted := by
  rw [Site.setters, List.mem_map]
  constructor
  · rintro ⟨⟨y, v⟩, he, rfl⟩
    refine ⟨v, ?_, mem_declarations.mpr (List.mem_append_right _ he)⟩
    rw [helpers_eq hc] at he
    exact setterOf_of_mem_setterEntries he
  · rintro ⟨v, hv, hmem⟩
    rcases List.mem_append.mp (mem_declarations.mp hmem) with he | he
    · rw [reads_eq hc] at he
      exact absurd hv (not_setterOf_of_mem_readEntries he)
    · exact ⟨(x, v), he, rfl⟩

/-! ## Scopes -/

/-- The body with its hooks bound anew and the declarations put in, before awaits are dropped. -/
def rebound (s : Setting) (body : Tree) : Tree :=
  match body.statements? with
  | some _ => body.withStatements ((bodyOutcomes s body).flatMap Outcome.written)
  | none => body

def madeSetters (s : Setting) (body : Tree) : List String := (bodyOutcomes s body).flatMap Outcome.setters

/-- The conversion of a scope drops awaits from the rewritten statements. -/
theorem convertScope_eq (s : Setting) (body : Tree) :
    convertScope s body = withoutAwaits (madeSetters s body) (rebound s body) := by
  unfold convertScope madeSetters rebound bodyOutcomes
  cases body.statements? with
  | none => exact (Tree.mapUp_eq_self dropAwait_nil body).symm
  | some ss =>
      dsimp only
      rw [foldl_step]
      rfl

/-- The made setters are the declarations behind a hook that declare one. -/
theorem mem_madeSetters {body : Tree} :
    x ∈ madeSetters s body ↔
      ∃ u ∈ bodyOutcomes s body, ∃ c, u.site? = some c ∧ ∃ v, SetterOf s c v ∧ Make.constNamed x v ∈ u.inserted := by
  have hone : ∀ u ∈ bodyOutcomes s body, x ∈ u.setters ↔
      ∃ c, u.site? = some c ∧ ∃ v, SetterOf s c v ∧ Make.constNamed x v ∈ u.inserted := by
    intro u hu
    obtain ⟨q, hq, -⟩ := exists_of_mem_bodyOutcomes hu
    rw [Outcome.setters, Outcome.inserted]
    cases hc : u.site? with
    | none => simp
    | some c =>
        rw [hq] at hc
        simpa using mem_setters_iff hc
  rw [madeSetters, List.mem_flatMap]
  exact exists_congr fun u => and_congr_right (hone u)

/-- Where awaits are dropped. A setter is one of the names that a setter, or an object of setters, was declared with behind
a hook. No await is left, in what belongs to the scope, whose operand calls a setter. Every await of the scope has its
operand, rewritten, in its place if that calls a setter, and else it stands where it did, around its rewritten operand. -/
theorem convertScope_awaits (s : Setting) (body : Tree) :
    (∀ x, x ∈ madeSetters s body ↔
      ∃ u ∈ bodyOutcomes s body, ∃ c, u.site? = some c ∧ ∃ v, SetterOf s c v ∧ Make.constNamed x v ∈ u.inserted) ∧
    (convertScope s body).any Tree.opensScope (awaitsSetter (madeSetters s body)) = false ∧
    ∀ p o e, (rebound s body).reaches Tree.opensScope p = true →
      (rebound s body).at? p = some (.expr o .await [e]) →
        (convertScope s body).at? (movedTo (madeSetters s body) (rebound s body) p) =
          some
            (if callsSetter (madeSetters s body) (withoutAwaits (madeSetters s body) e) then
              withoutAwaits (madeSetters s body) e
            else .expr o .await [withoutAwaits (madeSetters s body) e]) := by
  refine ⟨fun x => mem_madeSetters, ?_, ?_⟩
  · rw [convertScope_eq]
    exact any_awaitsSetter _ _
  · intro p o e hreach hat
    rw [convertScope_eq, at?_withoutAwaits hreach hat]
    cases hd : drops (madeSetters s body) (.expr o .await [e]) with
    | true =>
        rw [withoutAwaits_of_drops hd, if_pos (drops_await.symm.trans hd)]
    | false =>
        rw [withoutAwaits_eq rfl hd, if_neg (Bool.eq_false_iff.mp (drops_await.symm.trans hd))]
        rfl

/-- `{ const [, , { setValue }] = useField("a"); const run = async (setValue) => { await setValue(1); }; return run; }` -/
def shadowBody : Tree :=
  Make.block
    [Make.const (.pat .made (.array false) [.list [.absent, .absent, Make.objectPat ["setValue"]], .absent])
      (Make.callNamed "useField" [Make.str "a"]),
    Make.constNamed "run" <|
      .expr .made (.arrow true)
        [.list [Make.binding "setValue"],
          Make.block [Make.exprStmt (.expr .made .await [Make.callNamed "setValue" [.expr .made (.num "1") []]])],
          .absent, .absent],
    Make.ret (Make.ident "run")]

/-- The await waits for the parameter, and not for the setter of the same name, and is dropped. -/
theorem shadowBody_awaits :
    (rebound ⟨{}, false⟩ shadowBody).at? [2, 0, 1, 1, 0, 0] =
        some (.expr .made .await [Make.callNamed "setValue" [.expr .made (.num "1") []]]) ∧
      "setValue" ∈ (rebound ⟨{}, false⟩ shadowBody).namesAlong [2, 0, 1, 1, 0, 0] ∧
      (convertScope ⟨{}, false⟩ shadowBody).at? [2, 0, 1, 1, 0, 0] =
        some (Make.callNamed "setValue" [.expr .made (.num "1") []]) :=
  ⟨rfl, by decide, (convertScope_awaits ⟨{}, false⟩ shadowBody).2.2 [2, 0, 1, 1, 0, 0] .made _ (by decide) rfl⟩

end FormCodemod.FieldHook
