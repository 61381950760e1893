import Mathlib.Data.List.Infix
import FormCodemod.Layout.Tidy

/-!
# What tidying does to a piece of text

`tidy_keeps_iff` tells of every piece of a text, such as a literal or a comment, whether tidying keeps it as it is.
A space may be put into it only before a tag end that the reader of the text found. But the lines of a text are
looked at without regard to what they belong to, so an empty line goes into a piece of several lines like anywhere else,
and `template_not_kept` shows a template that comes out as another one.

Both stages are described character by character. `spaceAt` and `breakAt` take the decisions as given, `spaceTags` and
`tidyLines` are these two with their own decisions.
-/

namespace FormCodemod.Layout

open Text

/-! ## Ink -/

/-- The characters of a text that are not white space. -/
def ink (cs : List Char) : List Char := cs.filter fun c => !isBlank c

@[simp] theorem ink_append (xs ys : List Char) : ink (xs ++ ys) = ink xs ++ ink ys := List.filter_append ..

theorem ink_cons (c : Char) (cs : List Char) : ink (c :: cs) = if isBlank c then ink cs else c :: ink cs := by
  rw [ink, List.filter_cons]
  cases isBlank c <;> rfl

theorem ink_reverse (cs : List Char) : ink cs.reverse = (ink cs).reverse := List.filter_reverse ..

/-- A piece of text that neither begins nor ends with white space. -/
structure IsTrimmed (piece : List Char) : Prop where
  head : ∃ c, piece.head? = some c ∧ isBlank c = false
  last : ∃ c, piece.getLast? = some c ∧ isBlank c = false

/-- The piece stands in a text between the ink of `before` and the ink of `after`. -/
def StandsIn (text before piece after : List Char) : Prop :=
  ∃ before' after', text = before' ++ piece ++ after' ∧ ink before' = ink before ∧ ink after' = ink after

/-- Two ways to cut a text into the same ink and a rest that begins with ink are the same. -/
theorem eq_of_ink {xs xs' ys ys' : List Char} (h : xs ++ ys = xs' ++ ys') (hink : ink xs = ink xs')
    (hys : ∃ c, ys.head? = some c ∧ isBlank c = false) (hys' : ∃ c, ys'.head? = some c ∧ isBlank c = false) :
    xs = xs' ∧ ys = ys' := by
  have hnil : ∀ {d zs : List Char}, (∃ c, (d ++ zs).head? = some c ∧ isBlank c = false) → ink d = [] → d = [] := by
    rintro (_ | ⟨c, d⟩) zs ⟨c', hc', hblank⟩ hd
    · rfl
    · cases hc'
      simp [ink_cons, hblank] at hd
  rcases List.append_eq_append_iff.mp h with ⟨d, rfl, rfl⟩ | ⟨d, rfl, rfl⟩
  · rw [ink_append, List.self_eq_append_right] at hink
    obtain rfl := hnil hys hink
    exact ⟨(List.append_nil _).symm, rfl⟩
  · rw [ink_append, List.append_right_eq_self] at hink
    obtain rfl := hnil hys' hink
    exact ⟨List.append_nil _, rfl⟩

/-- Only one trimmed piece stands between two given texts, up to blank space at their ends. -/
theorem StandsIn.unique {text before piece piece' after : List Char} (h : StandsIn text before piece after)
    (h' : StandsIn text before piece' after) (hp : IsTrimmed piece) (hp' : IsTrimmed piece') : piece = piece' := by
  obtain ⟨b, a, rfl, hb, ha⟩ := h
  obtain ⟨b', a', heq, hb', ha'⟩ := h'
  have hhead : ∀ {p q : List Char}, (∃ c, p.head? = some c ∧ isBlank c = false) →
      ∃ c, (p ++ q).head? = some c ∧ isBlank c = false := by
    rintro (_ | ⟨x, p⟩) q ⟨c, hc, hblank⟩
    · cases hc
    · exact ⟨c, hc, hblank⟩
  have hfront : piece ++ a = piece' ++ a' := by
    rw [List.append_assoc, List.append_assoc] at heq
    exact (eq_of_ink heq (hb.trans hb'.symm) (hhead hp.head) (hhead hp'.head)).2
  -- the same from the back
  have hback : a.reverse ++ piece.reverse = a'.reverse ++ piece'.reverse := by
    rw [← List.reverse_append, hfront, List.reverse_append]
  have hrev := (eq_of_ink hback (by rw [ink_reverse, ink_reverse, ha, ha']) (by rw [List.head?_reverse]; exact hp.last)
    (by rw [List.head?_reverse]; exact hp'.last)).2
  exact List.reverse_inj.mp hrev

/-! ## Spaces -/

/-- The text with a space in front of each character at an offset that is due. -/
def spaceAt (due : Nat → Bool) : Nat → List Char → List Char
  | _, [] => []
  | i, c :: cs => if due i then ' ' :: c :: spaceAt due (i + 1) cs else c :: spaceAt due (i + 1) cs

section Spaces

variable {due : Nat → Bool}

theorem spaceAt_append (i : Nat) (xs ys : List Char) :
    spaceAt due i (xs ++ ys) = spaceAt due i xs ++ spaceAt due (i + xs.length) ys := by
  induction xs generalizing i with
  | nil => rfl
  | cons c xs ih =>
      have hlength : i + (c :: xs).length = i + 1 + xs.length := by
        rw [List.length_cons]
        omega
      rw [List.cons_append, spaceAt, spaceAt, ih, hlength]
      split <;> rfl

theorem ink_spaceAt (i : Nat) (xs : List Char) : ink (spaceAt due i xs) = ink xs := by
  induction xs generalizing i with
  | nil => rfl
  | cons c xs ih =>
      have hspace : isBlank ' ' = true := by decide
      rw [spaceAt]
      split <;> simp [ink_cons, hspace, ih]

theorem count_spaceAt {x : Char} (hx : x ≠ ' ') (i : Nat) (xs : List Char) :
    (spaceAt due i xs).count x = xs.count x := by
  induction xs generalizing i with
  | nil => rfl
  | cons c xs ih =>
      rw [spaceAt]
      split <;> simp [List.count_cons, ih, hx.symm]

/-- Spaces are put in, and nothing is taken out. -/
theorem sublist_spaceAt (i : Nat) (xs : List Char) : xs.Sublist (spaceAt due i xs) := by
  induction xs generalizing i with
  | nil => exact .slnil
  | cons c xs ih =>
      rw [spaceAt]
      split
      · exact .cons _ (.cons_cons _ (ih _))
      · exact .cons_cons _ (ih _)

theorem getLast?_spaceAt (i : Nat) (xs : List Char) : (spaceAt due i xs).getLast? = xs.getLast? := by
  induction xs generalizing i with
  | nil => rfl
  | cons c xs ih =>
      rw [spaceAt]
      split <;> simp [List.getLast?_cons, ih]

/-- A text stays as it is exactly if no space is due anywhere in it. -/
theorem spaceAt_eq_self_iff (i : Nat) (xs : List Char) :
    spaceAt due i xs = xs ↔ ∀ j < xs.length, due (i + j) = false := by
  induction xs generalizing i with
  | nil => simp [spaceAt]
  | cons c xs ih =>
      rw [spaceAt, List.length_cons, Nat.forall_lt_succ_left', Nat.add_zero]
      split
      next h =>
        -- the text is longer with the space
        refine iff_of_false (fun heq => ?_) (fun hdue => ?_)
        · have hle : xs.length ≤ (spaceAt due (i + 1) xs).length := (sublist_spaceAt _ _).length_le
          have hlength := congrArg List.length heq
          simp only [List.length_cons] at hlength
          omega
        · exact Bool.false_ne_true (hdue.1.symm.trans h)
      next h =>
        rw [List.cons_inj_right, ih]
        simp [h, Nat.add_assoc, Nat.add_comm 1]

/-- A piece of text at an offset with the spaces inside, that is, without one in front of it. -/
def spaceInside (due : Nat → Bool) (i : Nat) : List Char → List Char
  | [] => []
  | c :: cs => c :: spaceAt due (i + 1) cs

theorem spaceAt_eq_spaceInside (i : Nat) {piece : List Char} (hne : piece ≠ []) :
    spaceAt due i piece = (if due i then [' '] else []) ++ spaceInside due i piece := by
  cases piece with
  | nil => exact absurd rfl hne
  | cons c cs =>
      rw [spaceAt]
      split <;> rfl

/-- A piece stays as it is exactly if no space is due inside of it. -/
theorem spaceInside_eq_self_iff (i : Nat) (piece : List Char) :
    spaceInside due i piece = piece ↔ ∀ p q, piece = p ++ q → p ≠ [] → q ≠ [] → due (i + p.length) = false := by
  cases piece with
  | nil =>
      refine iff_of_true rfl fun p q heq hp _ => ?_
      exact absurd (List.append_eq_nil_iff.mp heq.symm).1 hp
  | cons c cs =>
      rw [spaceInside, List.cons_inj_right, spaceAt_eq_self_iff]
      constructor
      · rintro h (_ | ⟨x, p⟩) q heq hp hq
        · exact absurd rfl hp
        · obtain ⟨rfl, rfl⟩ := List.cons.inj heq
          have hlt : p.length < (p ++ q).length := by
            rw [List.length_append]
            have := List.length_pos_iff.mpr hq
            omega
          rw [List.length_cons, Nat.add_comm p.length, ← Nat.add_assoc]
          exact h p.length hlt
      · intro h j hj
        have hsplit := h (c :: cs.take j) (cs.drop j) (by simp) (by simp) (by simpa using hj)
        rw [List.length_cons, List.length_take, Nat.min_eq_left (Nat.le_of_lt hj)] at hsplit
        rwa [Nat.add_assoc, Nat.add_comm 1]

theorem sublist_spaceInside (i : Nat) (piece : List Char) : piece.Sublist (spaceInside due i piece) := by
  cases piece with
  | nil => exact .slnil
  | cons c cs => exact .cons_cons c (sublist_spaceAt ..)

theorem count_spaceInside {x : Char} (hx : x ≠ ' ') (i : Nat) (piece : List Char) :
    (spaceInside due i piece).count x = piece.count x := by
  cases piece with
  | nil => rfl
  | cons c cs => rw [spaceInside, List.count_cons, List.count_cons, count_spaceAt hx]

/-- Spaces inside a trimmed piece leave it trimmed. -/
theorem IsTrimmed.spaceInside {piece : List Char} (h : IsTrimmed piece) (i : Nat) :
    IsTrimmed (spaceInside due i piece) := by
  cases piece with
  | nil => exact h
  | cons c cs =>
      refine ⟨h.head, ?_⟩
      have hlast := h.last
      rw [List.getLast?_cons] at hlast
      rwa [Layout.spaceInside, List.getLast?_cons, getLast?_spaceAt]

end Spaces

/-! ## Line breaks -/

/-- The text with a second line break behind each line with a number that is due, and without the carriage returns
before line breaks. -/
def breakAt (due : Nat → Bool) : Nat → List Char → List Char
  | _, [] => []
  | k, c :: cs =>
      if c = '\n' then
        if due k then '\n' :: '\n' :: breakAt due (k + 1) cs else '\n' :: breakAt due (k + 1) cs
      else if c = '\r' ∧ cs.head? = some '\n' then breakAt due k cs
      else c :: breakAt due k cs

section Breaks

variable {due : Nat → Bool}

/-- Text is treated piece by piece, if it is not cut inside a line end. -/
theorem breakAt_append (k : Nat) {xs ys : List Char} (hseam : xs.getLast? = some '\r' → ys.head? ≠ some '\n') :
    breakAt due k (xs ++ ys) = breakAt due k xs ++ breakAt due (k + xs.count '\n') ys := by
  induction xs generalizing k with
  | nil => rfl
  | cons c xs ih =>
      have hhead : c = '\r' → (xs ++ ys).head? = some '\n' → xs.head? = some '\n' := by
        rintro rfl h
        cases xs with
        | nil => exact absurd h (hseam rfl)
        | cons x xs => exact h
      have hseam' : xs.getLast? = some '\r' → ys.head? ≠ some '\n' := by
        intro h
        exact hseam (by rw [List.getLast?_cons, h]; rfl)
      -- a carriage return goes with the character behind it, which is on this side of the seam
      have hcr : (c = '\r' ∧ (xs ++ ys).head? = some '\n') ↔ (c = '\r' ∧ xs.head? = some '\n') := by
        refine and_congr_right fun hc => ⟨hhead hc, fun h => ?_⟩
        rw [List.head?_append, h]
        rfl
      rw [List.cons_append, breakAt, breakAt, ih k hseam', ih (k + 1) hseam']
      simp only [hcr]
      split
      next h =>
        have hcount : k + 1 + xs.count '\n' = k + (xs.count '\n' + 1) := by omega
        subst h
        rw [List.count_cons_self, hcount]
        split <;> rfl
      next h =>
        rw [List.count_cons_of_ne h]
        split <;> rfl

theorem ink_breakAt (k : Nat) (xs : List Char) : ink (breakAt due k xs) = ink xs := by
  have hnewline : isBlank '\n' = true := by decide
  have hreturn : isBlank '\r' = true := by decide
  fun_induction breakAt due k xs with
  | case1 => rfl
  | case2 k cs h ih => simp [ink_cons, hnewline, ih]
  | case3 k cs h ih => simp [ink_cons, hnewline, ih]
  | case4 k c cs h hcr ih => simp [ink_cons, hcr.1, hreturn, ih]
  | case5 k c cs h hcr ih => simp [ink_cons, ih]

theorem infix_cons_iff_crlf {c : Char} {cs : List Char} :
    ['\r', '\n'] <:+: c :: cs ↔ (c = '\r' ∧ cs.head? = some '\n') ∨ ['\r', '\n'] <:+: cs := by
  rw [List.infix_cons_iff, List.cons_prefix_cons, List.singleton_prefix_iff_head?_eq_some, @eq_comm _ '\r' c]

/-- Line breaks bring in no carriage returns. -/
theorem count_breakAt_le (k : Nat) (xs : List Char) : (breakAt due k xs).count '\r' ≤ xs.count '\r' := by
  fun_induction breakAt due k xs with
  | case1 => exact Nat.le_refl _
  | case2 k cs h ih => simpa using ih
  | case3 k cs h ih => simpa using ih
  | case4 k c cs h hcr ih =>
      rw [List.count_cons]
      omega
  | case5 k c cs h hcr ih =>
      rw [List.count_cons, List.count_cons]
      omega

/-- A carriage return that is dropped is missing from then on. -/
theorem count_breakAt_lt (k : Nat) {xs : List Char} (h : ['\r', '\n'] <:+: xs) :
    (breakAt due k xs).count '\r' < xs.count '\r' := by
  fun_induction breakAt due k xs with
  | case1 => simp at h
  | case2 k cs hdue ih => simpa using ih (by simpa [infix_cons_iff_crlf] using h)
  | case3 k cs hdue ih => simpa using ih (by simpa [infix_cons_iff_crlf] using h)
  | case4 k c cs hc hcr ih =>
      have hle : (breakAt due k cs).count '\r' ≤ cs.count '\r' := count_breakAt_le k cs
      rw [List.count_cons, if_pos (by simp [hcr.1])]
      omega
  | case5 k c cs hc hcr ih =>
      have hlt := ih ((infix_cons_iff_crlf.mp h).resolve_left hcr)
      rw [List.count_cons, List.count_cons]
      omega

/-- Without a carriage return in front of a line end, nothing is taken out. -/
theorem sublist_breakAt (k : Nat) {xs : List Char} (h : ¬ ['\r', '\n'] <:+: xs) : xs.Sublist (breakAt due k xs) := by
  fun_induction breakAt due k xs with
  | case1 => exact .slnil
  | case2 k cs hdue ih => exact .cons _ (.cons_cons _ (ih fun hcs => h (infix_cons_iff_crlf.mpr (.inr hcs))))
  | case3 k cs hdue ih => exact .cons_cons _ (ih fun hcs => h (infix_cons_iff_crlf.mpr (.inr hcs)))
  | case4 k c cs hc hcr ih => exact absurd (infix_cons_iff_crlf.mpr (.inl hcr)) h
  | case5 k c cs hc hcr ih => exact .cons_cons _ (ih fun hcs => h (infix_cons_iff_crlf.mpr (.inr hcs)))

theorem forall_split_cons {c x : Char} {cs : List Char} {P : List Char → Prop} :
    (∀ p q, c :: cs = p ++ x :: q → P p) ↔ (c = x → P []) ∧ ∀ p q, cs = p ++ x :: q → P (c :: p) := by
  constructor
  · intro h
    refine ⟨?_, ?_⟩
    · rintro rfl
      exact h [] cs rfl
    · rintro p q rfl
      exact h (c :: p) q rfl
  · rintro ⟨hnil, hcons⟩ (_ | ⟨y, p⟩) q heq
    · exact hnil (List.cons.inj heq).1
    · obtain ⟨rfl, rfl⟩ := List.cons.inj heq
      exact hcons p q rfl

/-- Such a text stays as it is exactly if no empty line is due behind one of its line ends. -/
theorem breakAt_eq_self_iff (k : Nat) {xs : List Char} (h : ¬ ['\r', '\n'] <:+: xs) :
    breakAt due k xs = xs ↔ ∀ p q, xs = p ++ '\n' :: q → due (k + p.count '\n') = false := by
  fun_induction breakAt due k xs with
  | case1 k => exact iff_of_true rfl fun p q heq => absurd heq (by simp)
  | case2 k cs hdue ih =>
      -- the text is longer with the break
      refine iff_of_false (fun heq => ?_) (fun hall => ?_)
      · have hle : cs.length ≤ (breakAt due (k + 1) cs).length :=
          (sublist_breakAt _ fun hcs => h (infix_cons_iff_crlf.mpr (.inr hcs))).length_le
        have hlength := congrArg List.length heq
        simp only [List.length_cons] at hlength
        omega
      · exact Bool.false_ne_true ((hall [] cs rfl).symm.trans hdue)
  | case3 k cs hdue ih =>
      rw [List.cons_inj_right, ih fun hcs => h (infix_cons_iff_crlf.mpr (.inr hcs)), forall_split_cons]
      simp [hdue, Nat.add_assoc, Nat.add_comm 1]
  | case4 k c cs hc hcr ih => exact absurd (infix_cons_iff_crlf.mpr (.inl hcr)) h
  | case5 k c cs hc hcr ih =>
      rw [List.cons_inj_right, ih fun hcs => h (infix_cons_iff_crlf.mpr (.inr hcs)), forall_split_cons]
      simp [hc]

theorem breakAt_of_not_mem (k : Nat) {l : List Char} (hl : '\n' ∉ l) : breakAt due k l = l := by
  refine (breakAt_eq_self_iff k fun h => hl (h.subset (by simp))).mpr ?_
  rintro p q rfl
  exact absurd (by simp) hl

theorem breakAt_succ (k : Nat) (cs : List Char) : breakAt due (k + 1) cs = breakAt (fun k => due (k + 1)) k cs := by
  induction cs generalizing k with
  | nil => rfl
  | cons c cs ih => rw [breakAt, breakAt, ih, ih]

/-- Line breaks inside a trimmed piece leave it trimmed. -/
theorem IsTrimmed.breakAt {xs : List Char} (h : IsTrimmed xs) (k : Nat) : IsTrimmed (breakAt due k xs) := by
  have hone : ∀ {c : Char} (k : Nat), isBlank c = false → Layout.breakAt due k [c] = [c] := by
    intro c k hc
    have hne : c ≠ '\n' := by
      rintro rfl
      cases hc
    rw [Layout.breakAt, if_neg hne, if_neg (by simp)]
    rfl
  refine ⟨?_, ?_⟩
  · obtain ⟨c, hc, hblank⟩ := h.head
    obtain ⟨ys, rfl⟩ := List.head?_eq_some_iff.mp hc
    refine ⟨c, ?_, hblank⟩
    rw [← List.singleton_append, breakAt_append k, hone k hblank]
    · rfl
    · intro hr
      cases hr
      cases hblank
  · obtain ⟨c, hc, hblank⟩ := h.last
    obtain ⟨ys, rfl⟩ := List.getLast?_eq_some_iff.mp hc
    refine ⟨c, ?_, hblank⟩
    rw [breakAt_append k, hone _ hblank, List.getLast?_concat]
    intro _ hn
    cases hn
    cases hblank

theorem breakAt_line (k : Nat) {l rest : List Char} (hl : '\n' ∉ l) :
    breakAt due k (l ++ '\n' :: rest) =
      chomp l ++ '\n' :: (if due k then ['\n'] else []) ++ breakAt due (k + 1) rest := by
  have hbreak : breakAt due k ('\n' :: rest) = '\n' :: (if due k then ['\n'] else []) ++ breakAt due (k + 1) rest := by
    rw [breakAt, if_pos rfl]
    split <;> rfl
  rw [chomp]
  split
  next hr =>
    obtain ⟨l', rfl⟩ := List.getLast?_eq_some_iff.mp (eq_of_beq hr)
    rw [List.mem_append, not_or] at hl
    have hreturn : breakAt due k ('\r' :: '\n' :: rest) = breakAt due k ('\n' :: rest) := by
      rw [breakAt, if_neg (by decide), if_pos ⟨rfl, rfl⟩]
    rw [List.append_assoc, List.singleton_append, breakAt_append k (fun _ h => by cases h), breakAt_of_not_mem k hl.1,
      List.count_eq_zero_of_not_mem hl.1, Nat.add_zero, hreturn, hbreak, List.dropLast_concat, List.append_assoc]
  next hr =>
    rw [breakAt_append k (fun h => absurd h (by simpa using hr)), breakAt_of_not_mem k hl,
      List.count_eq_zero_of_not_mem hl, Nat.add_zero, hbreak, List.append_assoc]

end Breaks

/-! ## Lines -/

/-- A text is empty, or one line without an end, or a line with its end before a text. -/
theorem line_ind {motive : List Char → Prop} (nil : motive []) (last : ∀ l, l ≠ [] → '\n' ∉ l → motive l)
    (line : ∀ l rest, '\n' ∉ l → motive rest → motive (l ++ '\n' :: rest)) (cs : List Char) : motive cs := by
  have hacc : ∀ l, '\n' ∉ l → motive (l ++ cs) := by
    induction cs with
    | nil =>
        intro l hl
        rw [List.append_nil]
        rcases eq_or_ne l [] with rfl | hne
        · exact nil
        · exact last l hne hl
    | cons c cs ih =>
        intro l hl
        by_cases hc : c = '\n'
        · subst hc
          exact line l cs hl (ih [] List.not_mem_nil)
        · rw [← List.singleton_append, ← List.append_assoc]
          exact ih (l ++ [c]) (by simp [hl, Ne.symm hc])
  exact hacc [] List.not_mem_nil

theorem linesFrom_append {l : List Char} (hl : '\n' ∉ l) (acc rest : List Char) :
    linesFrom acc (l ++ rest) = linesFrom (l.reverse ++ acc) rest := by
  induction l generalizing acc with
  | nil => rfl
  | cons c l ih =>
      rw [List.mem_cons, not_or] at hl
      rw [List.cons_append, linesFrom, if_neg (by simpa using Ne.symm hl.1), ih hl.2, List.reverse_cons, List.append_assoc]
      rfl

/-- The first line of a text, and the lines behind it. -/
theorem linesOf_line {l : List Char} (hl : '\n' ∉ l) (rest : List Char) :
    linesOf (l ++ '\n' :: rest) = chomp l :: linesOf rest := by
  rw [linesOf, linesFrom_append hl, linesFrom, if_pos (by rfl), List.append_nil, List.reverse_reverse]
  rfl

theorem linesOf_last {l : List Char} (hl : '\n' ∉ l) (hne : l ≠ []) : linesOf l = [l] := by
  have h := linesFrom_append hl [] []
  rw [List.append_nil, List.append_nil] at h
  rw [linesOf, h, linesFrom, List.reverse_reverse]
  simpa using hne

/-- Whether an empty line is put behind line number `k`. -/
def gapBehind (ls : List (List Char)) (k : Nat) : Bool :=
  match ls.drop k with
  | l :: next :: ls => wantsGap (isImportLine l && !(next :: ls).any isImportLine) l next
  | _ => false

/-- The empty lines of a text come behind those of its lines that call for one. -/
theorem unlines_spaceLines_cons (l : List Char) (ls : List (List Char)) :
    unlines (spaceLines (l :: ls)) = l ++ '\n' :: (if gapBehind (l :: ls) 0 then ['\n'] else []) ++ unlines (spaceLines ls) := by
  cases ls with
  | nil => simp [spaceLines, unlines, gapBehind]
  | cons next ls =>
      rw [spaceLines]
      show unlines (if gapBehind (l :: next :: ls) 0 = true then _ else _) = _
      split <;> simp [unlines]

/-- To space the lines of a text puts in line breaks, and one at the end if it is missing. -/
theorem unlines_spaceLines_linesOf (cs : List Char) :
    unlines (spaceLines (linesOf cs)) =
      breakAt (gapBehind (linesOf cs)) 0 cs ++ if cs = [] ∨ cs.getLast? = some '\n' then [] else ['\n'] := by
  induction cs using line_ind with
  | nil => rfl
  | last l hne hl =>
      have hlast : ¬ (l = [] ∨ l.getLast? = some '\n') := by
        rintro (h | h)
        · exact hne h
        · exact hl (List.mem_of_getLast? h)
      rw [linesOf_last hl hne, breakAt_of_not_mem 0 hl, if_neg hlast]
      simp [spaceLines, unlines]
  | line l rest hl ih =>
      have hend : (l ++ '\n' :: rest = [] ∨ (l ++ '\n' :: rest).getLast? = some '\n') ↔
          (rest = [] ∨ rest.getLast? = some '\n') := by
        cases rest <;> simp
      have hrest : breakAt (gapBehind (chomp l :: linesOf rest)) (0 + 1) rest = breakAt (gapBehind (linesOf rest)) 0 rest :=
        breakAt_succ 0 rest
      rw [linesOf_line hl, unlines_spaceLines_cons, ih, breakAt_line 0 hl, hrest]
      simp only [hend, List.append_assoc]

/-- Only a text that does not end in a line end, an empty one among them, gets one at its end. -/
theorem tidyLines_eq (cs : List Char) :
    tidyLines cs = breakAt (gapBehind (linesOf cs)) 0 cs ++ if cs.getLast? = some '\n' then [] else ['\n'] := by
  rcases eq_or_ne cs [] with rfl | hne
  · rfl
  · have hlines : ∃ l ls, linesOf cs = l :: ls := by
      induction cs using line_ind with
      | nil => exact absurd rfl hne
      | last l _ hl => exact ⟨l, [], linesOf_last hl hne⟩
      | line l rest hl _ => exact ⟨chomp l, linesOf rest, linesOf_line hl rest⟩
    have hout : (unlines (spaceLines (linesOf cs))).isEmpty = false := by
      obtain ⟨l, ls, h⟩ := hlines
      simp [h, unlines_spaceLines_cons]
    rw [tidyLines, hout, if_neg Bool.false_ne_true, unlines_spaceLines_linesOf]
    simp only [hne, false_or]

/-! ## Tags -/

/-- The offsets behind the elements without children of a text, none if it cannot be read. -/
def tagEnds (text : String) : List Nat :=
  match Source.read? text with
  | none => []
  | some s => selfClosingEnds s.module

/-- Whether a space is put in front of `after`: it begins with the end of a tag, and no white space stands before it. -/
def tagDue (ends : List Nat) (before after : List Char) : Bool :=
  ['/', '>'].isPrefixOf after && ends.contains (before.length + 2) && before.getLast?.any fun c => !isBlank c

/-- To space tags puts in spaces where they are due. -/
theorem spaceTagsFrom_eq (ends : List Nat) (before rest : List Char) :
    spaceTagsFrom ends before.getLast? before.length rest =
      spaceAt (fun i => tagDue ends ((before ++ rest).take i) ((before ++ rest).drop i)) before.length rest := by
  induction rest generalizing before with
  | nil => rfl
  | cons c rest ih =>
      have hdue : (c == '/' && rest.head? == some '>' && ends.contains (before.length + 2) &&
          before.getLast?.any fun b => !isBlank b) = tagDue ends before (c :: rest) := by
        rw [Bool.eq_iff_iff]
        cases rest <;> simp [tagDue, List.isPrefixOf, @eq_comm _ '/', @eq_comm _ '>']
      have hih := ih (before ++ [c])
      rw [List.getLast?_concat, List.length_append, List.length_singleton, List.append_assoc, List.singleton_append] at hih
      rw [spaceTagsFrom, spaceAt, List.take_left, List.drop_left, ← hdue, hih]

/-- The text with its tags spaced, character by character. -/
theorem toList_spaceTags (text : String) :
    (spaceTags text).toList =
      spaceAt (fun i => tagDue (tagEnds text) (text.toList.take i) (text.toList.drop i)) 0 text.toList := by
  rw [spaceTags, tagEnds]
  cases Source.read? text with
  | none =>
      refine ((spaceAt_eq_self_iff 0 _).mpr fun j _ => ?_).symm
      simp [tagDue]
  | some s =>
      rw [String.toList_ofList]
      exact spaceTagsFrom_eq (selfClosingEnds s.module) [] text.toList

/-! ## Pieces -/

theorem IsTrimmed.ne_nil {piece : List Char} (h : IsTrimmed piece) : piece ≠ [] := by
  rintro rfl
  obtain ⟨c, hc, -⟩ := h.head
  cases hc

theorem IsTrimmed.head?_ne {piece : List Char} (h : IsTrimmed piece) : piece.head? ≠ some '\n' := by
  intro hn
  obtain ⟨c, hc, hblank⟩ := h.head
  cases hn.symm.trans hc
  cases hblank

theorem IsTrimmed.getLast?_ne {piece : List Char} (h : IsTrimmed piece) : piece.getLast? ≠ some '\r' := by
  intro hr
  obtain ⟨c, hc, hblank⟩ := h.last
  cases hr.symm.trans hc
  cases hblank

/-- What is put in by one stage is not taken out by the other. -/
theorem breakAt_spaceInside_eq_iff {due gap : Nat → Bool} {i k : Nat} {piece : List Char} :
    breakAt gap k (spaceInside due i piece) = piece ↔
      spaceInside due i piece = piece ∧ ¬ ['\r', '\n'] <:+: piece ∧ breakAt gap k piece = piece := by
  constructor
  · intro h
    have hcrlf : ¬ ['\r', '\n'] <:+: spaceInside due i piece := by
      intro hin
      have hlt : (breakAt gap k (spaceInside due i piece)).count '\r' < _ := count_breakAt_lt k hin
      rw [h, count_spaceInside (by decide)] at hlt
      exact Nat.lt_irrefl _ hlt
    have hle : (spaceInside due i piece).Sublist (breakAt gap k (spaceInside due i piece)) := sublist_breakAt k hcrlf
    rw [h] at hle
    have heq : spaceInside due i piece = piece := hle.antisymm (sublist_spaceInside i piece)
    rw [heq] at h hcrlf
    exact ⟨heq, hcrlf, h⟩
  · rintro ⟨heq, -, h⟩
    rw [heq, h]

/-- A trimmed piece of a text is still there in the tidy text, with the spaces and line
breaks that are due inside of it. -/
theorem tidy_piece (text : String) {before piece after : List Char} (htext : text.toList = before ++ piece ++ after)
    (hpiece : IsTrimmed piece) :
    StandsIn (tidy text).toList before
      (breakAt (gapBehind (linesOf (spaceTags text).toList)) (before.count '\n')
        (spaceInside (fun i => tagDue (tagEnds text) (text.toList.take i) (text.toList.drop i)) before.length piece))
      after := by
  generalize hdue : (fun i => tagDue (tagEnds text) (text.toList.take i) (text.toList.drop i)) = due
  generalize hgap : gapBehind (linesOf (spaceTags text).toList) = gap
  -- a space that is due in front of the piece counts as part of what is before it
  have hspaced : (spaceTags text).toList =
      (spaceAt due 0 before ++ if due before.length then [' '] else []) ++
        (spaceInside due before.length piece ++ spaceAt due (before.length + piece.length) after) := by
    rw [toList_spaceTags, hdue, htext, List.append_assoc, spaceAt_append, spaceAt_append,
      spaceAt_eq_spaceInside _ hpiece.ne_nil, Nat.zero_add]
    simp only [List.append_assoc]
  have hinside : IsTrimmed (spaceInside due before.length piece) := hpiece.spaceInside _
  have hcount : (spaceAt due 0 before ++ if due before.length then [' '] else []).count '\n' = before.count '\n' := by
    rw [List.count_append, count_spaceAt (by decide)]
    split <;> simp
  -- a trimmed piece neither begins with a line feed nor ends in a carriage return, so no line end is cut
  have hseam : ∀ ys, (spaceInside due before.length piece ++ ys).head? ≠ some '\n' := by
    intro ys
    rw [List.head?_append_of_ne_nil _ hinside.ne_nil]
    exact hinside.head?_ne
  rw [tidy, String.toList_ofList, tidyLines_eq, hgap, hspaced, breakAt_append 0 fun _ => hseam _,
    breakAt_append _ fun h => absurd h hinside.getLast?_ne, hcount, Nat.zero_add]
  refine ⟨_, _, by simp only [List.append_assoc]; rfl, ?_, ?_⟩
  · have hspace : ink (if due before.length then [' '] else []) = [] := by split <;> rfl
    rw [ink_breakAt, ink_append, ink_spaceAt, hspace, List.append_nil]
  · have hend : ∀ p [Decidable p], ink (if p then [] else ['\n']) = [] := by
      intro p _
      split <;> rfl
    rw [ink_append, ink_breakAt, ink_spaceAt, hend, List.append_nil]

/-- A piece of a text is kept as it is exactly if no tag ends in it, it has no carriage return before a line break, and
none of its lines is one behind which an empty line is put. -/
theorem tidy_keeps_iff (text : String) (before piece after : List Char) (htext : text.toList = before ++ piece ++ after)
    (hpiece : IsTrimmed piece) :
    StandsIn (tidy text).toList before piece after ↔
      (∀ p q, piece = p ++ q → p ≠ [] → q ≠ [] → tagDue (tagEnds text) (before ++ p) (q ++ after) = false) ∧
      ¬ ['\r', '\n'] <:+: piece ∧
      ∀ p q, piece = p ++ '\n' :: q → gapBehind (linesOf (spaceTags text).toList) ((before ++ p).count '\n') = false := by
  have hstands := tidy_piece text htext hpiece
  -- whether a tag ends at a cut of the piece is asked of the whole text
  have htags : ∀ p q, piece = p ++ q →
      tagDue (tagEnds text) (text.toList.take (before.length + p.length)) (text.toList.drop (before.length + p.length)) =
        tagDue (tagEnds text) (before ++ p) (q ++ after) := by
    rintro p q rfl
    have hcut : text.toList = (before ++ p) ++ (q ++ after) := by rw [htext]; simp only [List.append_assoc]
    rw [hcut, ← List.length_append, List.take_left, List.drop_left]
  have hkept : StandsIn (tidy text).toList before piece after ↔ _ :=
    ⟨fun h => hstands.unique h ((hpiece.spaceInside _).breakAt _) hpiece, fun h => h ▸ hstands⟩
  rw [hkept, breakAt_spaceInside_eq_iff, spaceInside_eq_self_iff]
  refine and_congr ?_ (and_congr_right fun hcrlf => ?_)
  · refine forall₂_congr fun p q => forall_congr' fun heq => ?_
    rw [htags p q heq]
  · rw [breakAt_eq_self_iff _ hcrlf]
    simp only [List.count_append]

def templateTexts (m : Module) : List String :=
  Tree.collectAll Tree.nowhere (fun t => match t with | .part _ (.quasi raw) _ => [raw] | _ => []) m.items

/-- A closing brace at the left margin, inside a template. -/
def braceTemplate : String := "const t = `\n\x7d\nx`;\n"

/-- The template is not kept, and the tidied text is another program. -/
theorem template_not_kept :
    ¬ StandsIn (tidy braceTemplate).toList "const t = ".toList "`\n\x7d\nx`".toList ";\n".toList ∧
      (Source.read? braceTemplate).map (templateTexts ·.module) = some ["\n\x7d\nx"] ∧
      (Source.read? (tidy braceTemplate)).map (templateTexts ·.module) = some ["\n\x7d\n\nx"] := by
  refine ⟨fun h => ?_, by decide +kernel, by decide +kernel⟩
  have hpiece : IsTrimmed "`\n\x7d\nx`".toList := ⟨⟨_, rfl, by decide⟩, ⟨_, rfl, by decide⟩⟩
  have hgap := ((tidy_keeps_iff braceTemplate _ _ _ (by decide +kernel) hpiece).mp h).2.2 "`\n\x7d".toList "x`".toList rfl
  revert hgap
  decide +kernel

end FormCodemod.Layout
