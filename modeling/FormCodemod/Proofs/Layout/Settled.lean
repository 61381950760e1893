import Mathlib.Data.List.Dedup
import FormCodemod.Proofs.Layout.Tidy

/-!
# What tidying does to a text as a whole

Tidying touches white space only, and it comes to an end (`tidy_settles`).

The ends of tags are reported by reading the text again. What is said here does not depend on that: `spaceEnds` puts a
space in front of a tag end for any offsets at all, as often as they are given, and tidying is the case of the offsets
that reading reports, each given once (`toList_spaceTags_eq_spaceEnds`).

`SpacedOut` is what may become of the lines of a text. It does not mention when an empty line is due. That the lines of
a tidied text are not spaced out further (`spaceLines_spaceLines`) rests on two facts: an empty line is no import, so the
last import stays the last one, and no empty line is due beside an empty one.
-/

namespace FormCodemod.Layout

open Text

/-! ## Spaces that are put in -/

/-- The second text is the first one with spaces put in. -/
def WithSpaces (cs cs' : List Char) : Prop := cs.Sublist cs' ∧ cs'.filter (· != ' ') = cs.filter (· != ' ')

namespace WithSpaces

variable {xs xs' ys ys' : List Char}

theorem refl (cs : List Char) : WithSpaces cs cs := ⟨.refl cs, rfl⟩

theorem replicate (n : Nat) : WithSpaces [] (List.replicate n ' ') := by
  refine ⟨List.nil_sublist _, ?_⟩
  rw [List.filter_replicate]
  rfl

theorem append (hxs : WithSpaces xs xs') (hys : WithSpaces ys ys') : WithSpaces (xs ++ ys) (xs' ++ ys') := by
  refine ⟨hxs.1.append hys.1, ?_⟩
  rw [List.filter_append, List.filter_append, hxs.2, hys.2]

/-- Spaces are no ink. -/
theorem ink_eq (h : WithSpaces xs xs') : ink xs' = ink xs := by
  have hspaces : ∀ cs : List Char, ink (cs.filter (· != ' ')) = ink cs := by
    intro cs
    rw [ink, ink, List.filter_filter]
    apply List.filter_congr
    intro c _
    by_cases hc : c = ' '
    · subst hc
      rfl
    · simp [hc]
  rw [← hspaces xs', h.2, hspaces xs]

end WithSpaces

/-- The text with as many spaces in front of each character as `n` says for its offset. -/
def spaceBy (n : Nat → Nat) : Nat → List Char → List Char
  | _, [] => []
  | i, c :: cs => List.replicate (n i) ' ' ++ c :: spaceBy n (i + 1) cs

section Spaces

variable {n : Nat → Nat}

theorem spaceBy_append (i : Nat) (xs ys : List Char) :
    spaceBy n i (xs ++ ys) = spaceBy n i xs ++ spaceBy n (i + xs.length) ys := by
  induction xs generalizing i with
  | nil => rfl
  | cons c xs ih =>
      have hlength : i + (c :: xs).length = i + 1 + xs.length := by
        rw [List.length_cons]
        omega
      rw [List.cons_append, spaceBy, spaceBy, ih, hlength]
      simp only [List.append_assoc, List.cons_append]

/-- Spaces are put in, and nothing else. -/
theorem withSpaces_spaceBy (i : Nat) (cs : List Char) : WithSpaces cs (spaceBy n i cs) := by
  induction cs generalizing i with
  | nil => exact .refl []
  | cons c cs ih => exact (WithSpaces.replicate (n i)).append ((WithSpaces.refl [c]).append (ih (i + 1)))

theorem not_mem_spaceBy {x : Char} (hx : x ≠ ' ') (i : Nat) {cs : List Char} (h : x ∉ cs) : x ∉ spaceBy n i cs := by
  intro hmem
  apply h
  have hfilter : x ∈ (spaceBy n i cs).filter (· != ' ') := List.mem_filter.mpr ⟨hmem, by simpa using hx⟩
  rw [(withSpaces_spaceBy i cs).2] at hfilter
  exact (List.mem_filter.mp hfilter).1

/-- No space is put in at the end. -/
theorem getLast?_spaceBy (i : Nat) (cs : List Char) : (spaceBy n i cs).getLast? = cs.getLast? := by
  rcases List.eq_nil_or_concat cs with rfl | ⟨cs, c, rfl⟩
  · rfl
  · rw [List.concat_eq_append, spaceBy_append, List.getLast?_concat, spaceBy, spaceBy, ← List.append_assoc,
      List.getLast?_concat]

theorem spaceBy_toNat (due : Nat → Bool) (i : Nat) (cs : List Char) :
    spaceBy (fun i => (due i).toNat) i cs = spaceAt due i cs := by
  induction cs generalizing i with
  | nil => rfl
  | cons c cs ih =>
      rw [spaceBy, spaceAt, ih]
      cases due i with
      | true => rfl
      | false => rfl

end Spaces

/-- The text with a space in front of each tag end that ends at one of the offsets, as often as the offset is given. -/
def spaceEnds (ends : List Nat) (cs : List Char) : List Char :=
  spaceBy (fun i => if tagDue ends (cs.take i) (cs.drop i) then ends.count (i + 2) else 0) 0 cs

/-- A space is put in only in front of a slash that ends a reported tag. -/
theorem tagDue_inv {ends : List Nat} {cs : List Char} {i : Nat} (h : tagDue ends (cs.take i) (cs.drop i) = true) :
    cs[i]? = some '/' ∧ i + 2 ∈ ends := by
  simp only [tagDue, Bool.and_eq_true, List.isPrefixOf_iff_prefix, List.contains_iff_mem] at h
  obtain ⟨⟨⟨after, hafter⟩, hend⟩, -⟩ := h
  have hhead : cs[i]? = some '/' := by
    rw [← List.head?_drop, ← hafter]
    rfl
  have hlength : (cs.take i).length = i := List.length_take_of_le (Nat.le_of_lt (List.getElem?_eq_some_iff.mp hhead).1)
  rw [hlength] at hend
  exact ⟨hhead, hend⟩

/-- The ends of tags that are found by reading are treated as if each had been reported once. -/
theorem toList_spaceTags_eq_spaceEnds (text : String) :
    (spaceTags text).toList = spaceEnds (tagEnds text).dedup text.toList := by
  have hdue : ∀ before after, tagDue (tagEnds text).dedup before after = tagDue (tagEnds text) before after := by
    intro before after
    simp only [tagDue, List.contains_eq_mem, List.mem_dedup]
  rw [toList_spaceTags, ← spaceBy_toNat, spaceEnds]
  congr 1
  funext i
  rw [hdue]
  split
  next h =>
    rw [h, List.count_dedup, if_pos (tagDue_inv h).2]
    rfl
  next h =>
    rw [Bool.not_eq_true] at h
    rw [h]
    rfl

/-! ## Lines of a text with spaces -/

theorem withSpaces_chomp {n : Nat → Nat} (i : Nat) (l : List Char) : WithSpaces (chomp l) (chomp (spaceBy n i l)) := by
  rw [chomp, chomp, getLast?_spaceBy]
  split
  next h =>
    obtain ⟨l, rfl⟩ := List.getLast?_eq_some_iff.mp (eq_of_beq h)
    have hspaced : spaceBy n i (l ++ ['\r']) =
        (spaceBy n i l ++ List.replicate (n (i + l.length)) ' ') ++ ['\r'] := by
      rw [spaceBy_append, List.append_assoc]
      rfl
    have hline : WithSpaces (l ++ []) (spaceBy n i l ++ List.replicate (n (i + l.length)) ' ') :=
      (withSpaces_spaceBy i l).append (.replicate _)
    rw [List.append_nil] at hline
    rw [hspaced, List.dropLast_concat, List.dropLast_concat]
    exact hline
  next => exact withSpaces_spaceBy i l

/-- Where no spaces go in front of line feeds, the lines stay the same lines. -/
theorem linesOf_spaceBy {n : Nat → Nat} (i : Nat) {cs : List Char} (h : ∀ j, cs[j]? = some '\n' → n (i + j) = 0) :
    List.Forall₂ WithSpaces (linesOf cs) (linesOf (spaceBy n i cs)) := by
  induction cs using line_ind generalizing i with
  | nil => exact .nil
  | last l hne hl =>
      have hne' : spaceBy n i l ≠ [] := by
        intro heq
        have hsub : l.Sublist (spaceBy n i l) := (withSpaces_spaceBy i l).1
        rw [heq, List.sublist_nil] at hsub
        exact hne hsub
      rw [linesOf_last hl hne, linesOf_last (not_mem_spaceBy (by decide) i hl) hne']
      exact .cons (withSpaces_spaceBy i l) .nil
  | line l rest hl ih =>
      -- no space goes in front of the line feed that ends the line
      have hzero : n (i + l.length) = 0 := h l.length (by rw [List.getElem?_append_right (Nat.le_refl _), Nat.sub_self]; rfl)
      have hspaced : spaceBy n i (l ++ '\n' :: rest) = spaceBy n i l ++ '\n' :: spaceBy n (i + l.length + 1) rest := by
        rw [spaceBy_append, spaceBy, hzero]
        rfl
      have hrest : ∀ j, rest[j]? = some '\n' → n (i + l.length + 1 + j) = 0 := by
        intro j hj
        have hat := h (l.length + 1 + j)
        rw [List.getElem?_append_right (by omega)] at hat
        have hidx : l.length + 1 + j - l.length = j + 1 := by omega
        rw [hidx, List.getElem?_cons_succ] at hat
        have hsum : i + (l.length + 1 + j) = i + l.length + 1 + j := by omega
        rw [← hsum]
        exact hat hj
      rw [hspaced, linesOf_line hl, linesOf_line (not_mem_spaceBy (by decide) i hl)]
      exact .cons (withSpaces_chomp i l) (ih _ hrest)

/-- The lines of a spaced text are the lines of the text with spaces. -/
theorem linesOf_spaceEnds (ends : List Nat) (cs : List Char) :
    List.Forall₂ WithSpaces (linesOf cs) (linesOf (spaceEnds ends cs)) := by
  apply linesOf_spaceBy
  intro j hj
  rw [Nat.zero_add]
  apply if_neg
  intro hdue
  have hslash := (tagDue_inv hdue).1
  rw [hj] at hslash
  cases hslash

/-! ## Empty lines that are put in -/

/-- The lines `ls'` are the lines `ls` with spaces put into them and with at most one empty line put in between two of
them, none of which is blank. -/
inductive SpacedOut : List (List Char) → List (List Char) → Prop
  | nil : SpacedOut [] []
  | last {l l' : List Char} (h : WithSpaces l l') : SpacedOut [l] [l']
  | next {l l' m : List Char} {ls ls' : List (List Char)} (h : WithSpaces l l') (hrest : SpacedOut (m :: ls) ls') :
      SpacedOut (l :: m :: ls) (l' :: ls')
  | gap {l l' m : List Char} {ls ls' : List (List Char)} (h : WithSpaces l l') (hl : isBlankLine l = false)
      (hm : isBlankLine m = false) (hrest : SpacedOut (m :: ls) ls') : SpacedOut (l :: m :: ls) (l' :: [] :: ls')

theorem isBlankLine_eq (l : List Char) : isBlankLine l = (ink l).isEmpty := by
  rw [isBlankLine, ink, Bool.eq_iff_iff]
  simp

theorem WithSpaces.isBlankLine_eq {l l' : List Char} (h : WithSpaces l l') : isBlankLine l' = isBlankLine l := by
  rw [Layout.isBlankLine_eq, Layout.isBlankLine_eq, h.ink_eq]

/-- An empty line is only due between two lines that are not blank. -/
theorem wantsGap_inv {isLast : Bool} {l m : List Char} (h : wantsGap isLast l m = true)
    (himport : isLast = true → isImportLine l = true) : isBlankLine l = false ∧ isBlankLine m = false := by
  have hblank : ∀ c, l.head? = some c → isBlank c = false → isBlankLine l = false := by
    intro c hc hink
    obtain ⟨rest, rfl⟩ := List.head?_eq_some_iff.mp hc
    rw [isBlankLine, List.all_cons, hink, Bool.false_and]
  simp only [wantsGap, Bool.and_eq_true, Bool.or_eq_true, Bool.not_eq_true'] at h
  obtain ⟨hm, hlast | ⟨hends, -⟩⟩ := h
  · have hline := himport hlast
    rw [isImportLine, Bool.and_eq_true, List.isPrefixOf_iff_prefix] at hline
    obtain ⟨⟨rest, rfl⟩, -⟩ := hline
    exact ⟨hblank 'i' rfl (by decide), hm⟩
  · rw [endsBlock, Bool.and_eq_true, closesBlock, beq_iff_eq] at hends
    exact ⟨hblank _ hends.1 (by decide), hm⟩

/-- Lines with spaces and the empty lines between them are spaced out. -/
theorem spacedOut_spaceLines {ls ls' : List (List Char)} (h : List.Forall₂ WithSpaces ls ls') :
    SpacedOut ls (spaceLines ls') := by
  induction h with
  | nil => exact .nil
  | @cons l l' ls ls' hl hls ih =>
      cases hls with
      | nil => exact .last hl
      | @cons m m' ls ls' hm hls =>
          rw [spaceLines]
          split
          next hgap =>
            obtain ⟨hl', hm'⟩ := wantsGap_inv hgap fun hlast => (Bool.and_eq_true_iff.mp hlast).1
            rw [hl.isBlankLine_eq] at hl'
            rw [hm.isBlankLine_eq] at hm'
            exact .gap hl hl' hm' ih
          next => exact .next hl ih

/-! ## Lines that are spaced out already -/

theorem any_isImportLine_spaceLines (ls : List (List Char)) :
    (spaceLines ls).any isImportLine = ls.any isImportLine := by
  have hempty : isImportLine [] = false := rfl
  fun_induction spaceLines ls with
  | case1 => rfl
  | case2 l => rfl
  | case3 l next ls isLast hgap ih => rw [List.any_cons, List.any_cons, hempty, Bool.false_or, ih, ← List.any_cons]
  | case4 l next ls isLast hgap ih => rw [List.any_cons, ih, ← List.any_cons]

/-- The first line stays the first one. -/
theorem exists_spaceLines_cons (l : List Char) (ls : List (List Char)) : ∃ ls', spaceLines (l :: ls) = l :: ls' := by
  cases ls with
  | nil => exact ⟨[], rfl⟩
  | cons next ls =>
      rw [spaceLines]
      split
      next => exact ⟨_, rfl⟩
      next => exact ⟨_, rfl⟩

/-- No further empty line is put between lines that are spaced. -/
theorem spaceLines_spaceLines (ls : List (List Char)) : spaceLines (spaceLines ls) = spaceLines ls := by
  fun_induction spaceLines ls with
  | case1 => rfl
  | case2 l => rfl
  | case3 l next ls isLast hgap ih =>
      obtain ⟨ls', hls'⟩ := exists_spaceLines_cons next ls
      rw [hls'] at ih ⊢
      -- the line that was put in wants no gap on either side
      have hbefore : ∀ b, wantsGap b l [] = false := fun _ => rfl
      have hbehind : wantsGap (isImportLine [] && !(next :: ls').any isImportLine) [] next = false := by
        show (!isBlankLine next && (false || (false && _))) = false
        rw [Bool.false_and, Bool.false_or, Bool.and_false]
      rw [spaceLines, hbefore, if_neg Bool.false_ne_true, spaceLines, hbehind, if_neg Bool.false_ne_true, ih]
  | case4 l next ls isLast hgap ih =>
      obtain ⟨ls', hls'⟩ := exists_spaceLines_cons next ls
      have hany : (next :: ls').any isImportLine = (next :: ls).any isImportLine := by
        rw [← hls', any_isImportLine_spaceLines]
      rw [hls'] at ih ⊢
      rw [spaceLines, hany, if_neg hgap, ih]

/-! ## Texts -/

theorem linesOf_eq_nil_iff {cs : List Char} : linesOf cs = [] ↔ cs = [] := by
  induction cs using line_ind with
  | nil => exact iff_of_true rfl rfl
  | last l hne hl =>
      rw [linesOf_last hl hne]
      exact iff_of_false (List.cons_ne_nil _ _) hne
  | line l rest hl ih =>
      rw [linesOf_line hl]
      exact iff_of_false (List.cons_ne_nil _ _) (by simp)

theorem exists_unlines_cons (l : List Char) (ls : List (List Char)) : ∃ cs, unlines (l :: ls) = cs ++ ['\n'] := by
  induction ls generalizing l with
  | nil => exact ⟨l, by simp [unlines]⟩
  | cons m ls ih =>
      obtain ⟨cs, hcs⟩ := ih m
      refine ⟨l ++ '\n' :: cs, ?_⟩
      have hcons : unlines (l :: m :: ls) = l ++ ['\n'] ++ unlines (m :: ls) := rfl
      rw [hcons, hcs]
      simp

/-- The empty text becomes an empty line. Any other one becomes its lines, spaced out. -/
theorem tidyLines_eq_unlines (cs : List Char) :
    tidyLines cs = if cs = [] then ['\n'] else unlines (spaceLines (linesOf cs)) := by
  rcases eq_or_ne cs [] with rfl | hne
  · rfl
  · obtain ⟨l, ls, hls⟩ := List.exists_cons_of_ne_nil (mt linesOf_eq_nil_iff.mp hne)
    obtain ⟨ls', hls'⟩ := exists_spaceLines_cons l ls
    obtain ⟨out, hout⟩ := exists_unlines_cons l ls'
    rw [if_neg hne, tidyLines, hls, hls', hout]
    simp

/-- A tidy text ends in a line end. -/
theorem getLast?_tidyLines (cs : List Char) : (tidyLines cs).getLast? = some '\n' := by
  rw [tidyLines_eq_unlines]
  split
  next => rfl
  next hne =>
    obtain ⟨l, ls, hls⟩ := List.exists_cons_of_ne_nil (mt linesOf_eq_nil_iff.mp hne)
    obtain ⟨ls', hls'⟩ := exists_spaceLines_cons l ls
    obtain ⟨out, hout⟩ := exists_unlines_cons l ls'
    rw [hls, hls', hout, List.getLast?_concat]

/-- To tidy lines changes white space only. -/
theorem ink_tidyLines (cs : List Char) : ink (tidyLines cs) = ink cs := by
  have hend : ink (if cs.getLast? = some '\n' then [] else ['\n']) = [] := by
    split
    next => rfl
    next => rfl
  rw [tidyLines_eq, ink_append, ink_breakAt, hend, List.append_nil]

/-- A line consists of characters of its text, and holds no line feed. -/
theorem mem_linesOf {cs l : List Char} (h : l ∈ linesOf cs) : '\n' ∉ l ∧ ∀ c ∈ l, c ∈ cs := by
  have hchomp : ∀ {l : List Char} {c : Char}, c ∈ chomp l → c ∈ l := by
    intro l c hc
    rw [chomp] at hc
    split at hc
    · exact List.dropLast_subset l hc
    · exact hc
  induction cs using line_ind with
  | nil => cases h
  | last l' hne hl =>
      rw [linesOf_last hl hne, List.mem_singleton] at h
      subst h
      exact ⟨hl, fun c hc => hc⟩
  | line l' rest hl ih =>
      rw [linesOf_line hl] at h
      rcases List.mem_cons.mp h with rfl | h
      · exact ⟨fun hn => hl (hchomp hn), fun c hc => List.mem_append_left _ (hchomp hc)⟩
      · obtain ⟨hn, hmem⟩ := ih h
        exact ⟨hn, fun c hc => List.mem_append_right _ (List.mem_cons_of_mem _ (hmem c hc))⟩

/-- Only empty lines are put in. -/
theorem mem_spaceLines {l : List Char} {ls : List (List Char)} (h : l ∈ spaceLines ls) : l ∈ ls ∨ l = [] := by
  fun_induction spaceLines ls with
  | case1 => cases h
  | case2 l' => exact .inl h
  | case3 l' next ls isLast hgap ih =>
      rcases List.mem_cons.mp h with rfl | h
      · exact .inl (List.mem_cons_self ..)
      · rcases List.mem_cons.mp h with rfl | h
        · exact .inr rfl
        · exact (ih h).imp_left (List.mem_cons_of_mem _)
  | case4 l' next ls isLast hgap ih =>
      rcases List.mem_cons.mp h with rfl | h
      · exact .inl (List.mem_cons_self ..)
      · exact (ih h).imp_left (List.mem_cons_of_mem _)

/-- Lines are read back from a text, if they hold no line ends. -/
theorem linesOf_unlines {ls : List (List Char)} (h : ∀ l ∈ ls, '\n' ∉ l ∧ '\r' ∉ l) : linesOf (unlines ls) = ls := by
  induction ls with
  | nil => rfl
  | cons l ls ih =>
      obtain ⟨⟨hn, hr⟩, hls⟩ := List.forall_mem_cons.mp h
      have hcons : unlines (l :: ls) = l ++ '\n' :: unlines ls := List.append_assoc ..
      have hchomp : chomp l = l := by
        rw [chomp, if_neg]
        intro hlast
        exact hr (List.mem_of_getLast? (eq_of_beq hlast))
      rw [hcons, linesOf_line hn, hchomp, ih hls]

/-- Without carriage returns a second cleanup of the lines changes nothing. -/
theorem tidyLines_tidyLines {cs : List Char} (h : '\r' ∉ cs) : tidyLines (tidyLines cs) = tidyLines cs := by
  have hclean : ∀ l ∈ spaceLines (linesOf cs), '\n' ∉ l ∧ '\r' ∉ l := by
    intro l hl
    rcases mem_spaceLines hl with hl | rfl
    · obtain ⟨hn, hmem⟩ := mem_linesOf hl
      exact ⟨hn, fun hr => h (hmem _ hr)⟩
    · exact ⟨List.not_mem_nil, List.not_mem_nil⟩
  rw [tidyLines_eq_unlines cs]
  split
  next => rfl
  next hne =>
    have hlines : linesOf (unlines (spaceLines (linesOf cs))) = spaceLines (linesOf cs) := linesOf_unlines hclean
    have hne' : unlines (spaceLines (linesOf cs)) ≠ [] := by
      intro hnil
      have hlast : (tidyLines cs).getLast? = some '\n' := getLast?_tidyLines cs
      rw [tidyLines_eq_unlines, if_neg hne, hnil] at hlast
      cases hlast
    rw [tidyLines_eq_unlines, if_neg hne', hlines, spaceLines_spaceLines]

/-- Whatever ends of tags are reported, tidying touches white space only: the result ends in a line end and has the ink
of the text, and its lines are those of the text with spaces in them, spaced out by single empty lines away from blank
ones. Tidying is the case of the ends that are found by reading. A text without carriage returns is done after one
cleanup of its lines. -/
theorem tidy_settles (text : String) :
    (∀ ends : List Nat,
      (tidyLines (spaceEnds ends text.toList)).getLast? = some '\n' ∧
      ink (tidyLines (spaceEnds ends text.toList)) = ink text.toList ∧
      ∃ ls, SpacedOut (linesOf text.toList) ls ∧
        tidyLines (spaceEnds ends text.toList) = if text.toList = [] then ['\n'] else unlines ls) ∧
    (tidy text).toList = tidyLines (spaceEnds (tagEnds text).dedup text.toList) ∧
    ('\r' ∉ text.toList → tidyLines (tidyLines text.toList) = tidyLines text.toList) := by
  refine ⟨?_, ?_, ?_⟩
  · intro ends
    have hspaces : WithSpaces text.toList (spaceEnds ends text.toList) := withSpaces_spaceBy 0 _
    have hnil : spaceEnds ends text.toList = [] ↔ text.toList = [] := by
      have hlines := (linesOf_spaceEnds ends text.toList).length_eq
      rw [← linesOf_eq_nil_iff, ← List.length_eq_zero_iff, ← hlines, List.length_eq_zero_iff, linesOf_eq_nil_iff]
    refine ⟨getLast?_tidyLines _, ?_, spaceLines (linesOf (spaceEnds ends text.toList)), ?_, ?_⟩
    · rw [ink_tidyLines, hspaces.ink_eq]
    · exact spacedOut_spaceLines (linesOf_spaceEnds ends text.toList)
    · rw [tidyLines_eq_unlines]
      simp only [hnil]
  · rw [tidy, String.toList_ofList, toList_spaceTags_eq_spaceEnds]
  · exact tidyLines_tidyLines

/-- A tag without a space, a block that ends, and no line end behind the last line. -/
def tightText : String := "x = <a/>;\n\x7d\ny"

/-- The end of the tag is reported twice, and no ink is lost. -/
theorem tightText_settles :
    spaceEnds [8, 8] tightText.toList = "x = <a  />;\n\x7d\ny".toList ∧
      tidyLines (spaceEnds [8, 8] tightText.toList) = "x = <a  />;\n\x7d\n\ny\n".toList ∧
      ink (tidyLines (spaceEnds [8, 8] tightText.toList)) = ink tightText.toList ∧
      '\r' ∉ tightText.toList ∧ tidyLines (tidyLines tightText.toList) = tidyLines tightText.toList := by
  obtain ⟨hends, -, hsettled⟩ := tidy_settles tightText
  have hreturn : '\r' ∉ tightText.toList := by decide +kernel
  exact ⟨by decide +kernel, by decide +kernel, (hends [8, 8]).2.1, hreturn, hsettled hreturn⟩

end FormCodemod.Layout
