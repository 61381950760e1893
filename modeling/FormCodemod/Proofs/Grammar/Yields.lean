import FormCodemod.Grammar.Cursor

/-!
# What a parser can yield

`p.Yields P` says that whatever `p` reads, from any place in any source, has the property `P`. It
passes through the ways in which parsers are put together: one after the other (`Yields.bind`, and
`Yields.then` where what the first one yields matters), over and over (`yields_repeatFrom`), and
as lists (`yields_commaList`, `yields_listUntil`).
-/

namespace FormCodemod.Grammar.Parser

variable {α β : Type} {P : α → Prop} {Q : β → Prop} {p : Parser α}

/-- All that the parser reads has the property. -/
def Yields (P : α → Prop) (p : Parser α) : Prop := ∀ c a c', p c = (some a, c') → P a

theorem yields_true : Yields (fun _ => True) p := fun _ _ _ _ => trivial

theorem Yields.imp {P' : α → Prop} (h : Yields P p) (hP : ∀ a, P a → P' a) : Yields P' p :=
  fun c a c' heq => hP a (h c a c' heq)

theorem Yields.pure {a : α} (h : P a) : Yields P (Pure.pure a : Parser α) := by
  intro c a' c' heq
  cases heq
  exact h

theorem yields_fail : Yields P (fail : Parser α) := by
  intro c a c' heq
  cases heq

/-- Something is read, and then something of which `Q` holds if `P` holds of the first. -/
theorem Yields.then {f : α → Parser β} (h : Yields P p) (hf : ∀ a, P a → Yields Q (f a)) :
    Yields Q (p >>= f) := by
  intro c b c' heq
  rcases hp : p c with ⟨_ | a, c₁⟩
  · simp only [Bind.bind, hp] at heq
    cases heq
  · simp only [Bind.bind, hp] at heq
    exact hf a (h c a c₁ hp) c₁ b c' heq

/-- Something is read, and then something of which `Q` holds in any case. -/
theorem Yields.bind {f : α → Parser β} (hf : ∀ a, Yields Q (f a)) : Yields Q (p >>= f) :=
  yields_true.then fun a _ => hf a

/-- A choice has the property if both ways have it. -/
theorem Yields.ite {b : Bool} {p q : Parser α} (hp : Yields P p) (hq : Yields P q) :
    Yields P (if b = true then p else q) := by
  cases b with
  | true => exact hp
  | false => exact hq

/-- Two ways to the same rest. -/
theorem Yields.fork {b : Bool} {p q : Parser α} {f : α → Parser β} (hp : Yields P p) (hq : Yields P q)
    (hf : ∀ a, P a → Yields Q (f a)) : Yields Q (if b = true then p >>= f else q >>= f) :=
  .ite (hp.then hf) (hq.then hf)

theorem Yields.either {b : Bool} {p q : Parser α} {f : α → Parser β} (hf : ∀ a, Yields Q (f a)) :
    Yields Q (if b = true then p >>= f else q >>= f) :=
  yields_true.fork yields_true fun a _ => hf a

/-- Something that is only read at times, and the rest. -/
theorem Yields.when {b : Bool} {p : Parser Unit} {f : Unit → Parser β} (hf : ∀ u, Yields Q (f u)) :
    Yields Q (if b = true then p >>= f else f ()) := .ite (.bind hf) (hf ())

theorem Yields.unless {b : Bool} {p : Parser Unit} {f : Unit → Parser β} (hf : ∀ u, Yields Q (f u)) :
    Yields Q (if b = true then f () else p >>= f) := .ite (hf ()) (.bind hf)

/-- All that the parser reads has the property, if it reads something. -/
abbrev YieldsIf (P : α → Prop) (p : Parser (Option α)) : Prop := Yields (fun r => ∀ a ∈ r, P a) p

theorem Yields.none : YieldsIf P (Pure.pure Option.none) :=
  .pure fun a ha => absurd ha (Option.not_mem_none a)

theorem Yields.some {a : α} (h : P a) : YieldsIf P (Pure.pure (Option.some a)) := by
  refine .pure fun a' ha' => ?_
  rw [Option.mem_some_iff] at ha'
  exact ha' ▸ h

/-- What is read for certain is also read if anything is. -/
theorem Yields.lift (h : Yields P p) : YieldsIf P (do return Option.some (← p)) := h.then fun _ ha => .some ha

/-! ## Loops -/

/-- One step keeps `P`, so all steps do. -/
theorem yields_iterate {step : α → Parser (Option α)}
    (hstep : ∀ a, P a → YieldsIf P (step a)) (n : Nat) (a : α) (ha : P a) :
    Yields P (iterate step n a) := by
  induction n generalizing a with
  | zero => exact yields_fail
  | succ n ih =>
      refine (hstep a ha).then fun r hr => ?_
      cases r with
      | none => exact .pure ha
      | some a' => exact ih a' (hr a' rfl)

/-- A loop has the property if it starts with it and every step keeps it. -/
theorem yields_repeatFrom {step : α → Parser (Option α)} {a : α} (ha : P a)
    (hstep : ∀ a, P a → YieldsIf P (step a)) : Yields P (repeatFrom a step) :=
  fun c b c' heq => yields_iterate hstep (c.here.length + 2) a ha c b c' heq

/-! ## Lists -/

/-- All items of a list have the property if the parser of an item has it. -/
theorem yields_commaList {stop : Parser Bool} {item : Parser α} (h : Yields P item) :
    Yields (fun as => ∀ a ∈ as, P a) (commaList stop item) := by
  refine Yields.then (P := fun out => ∀ a ∈ out.1, P a) (yields_repeatFrom (List.forall_mem_nil P) ?_) ?_
  · rintro ⟨acc, done⟩ hacc
    refine .bind fun stops => ?_
    cases done || stops with
    | true => exact .none
    | false =>
        refine h.then fun a ha => .bind fun comma => .ite ?_ ?_
        · exact .some (List.forall_mem_cons.mpr ⟨ha, hacc⟩)
        · exact .some (List.forall_mem_cons.mpr ⟨ha, hacc⟩)
  · rintro ⟨acc, done⟩ hacc
    exact .pure fun a ha => hacc a (List.mem_reverse.mp ha)

theorem yields_listUntil (stop : Parser Bool) {item : Parser α} (h : Yields P item) :
    Yields (fun as => ∀ a ∈ as, P a) (listUntil stop item) := by
  refine Yields.then (P := fun out => ∀ a ∈ out, P a) (yields_repeatFrom (List.forall_mem_nil P) ?_) ?_
  · intro acc hacc
    refine .bind fun stops => .ite .none (h.then fun a ha => ?_)
    exact .some (List.forall_mem_cons.mpr ⟨ha, hacc⟩)
  · intro acc hacc
    exact .pure fun a ha => hacc a (List.mem_reverse.mp ha)

end FormCodemod.Grammar.Parser
