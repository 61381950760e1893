import Mathlib.Data.List.Nodup
import Mathlib.Data.List.Perm.Subperm
import Mathlib.Data.Finset.Card
import Mathlib.Order.Bounds.Defs
import Mathlib.Data.Nat.Find
import FormCodemod.Text.Fresh

/-!
# Fresh names

A fresh name is the base, or the base with the least number that makes a name of it which is not taken
(`freshName_least`). The candidates are numbered, and different numbers give different names, so of one candidate
more than there are taken names one is free. The search goes no further than that, and it finds the first one.
-/

namespace FormCodemod

variable {base : String} {taken : List String}

/-! ## Candidates -/

/-- Different numbers behind a name make different names. -/
theorem numbered_injective (base : String) : Function.Injective fun n : Nat => base ++ toString n := by
  intro m n h
  have hchars : base.toList ++ (toString m).toList = base.toList ++ (toString n).toList := by
    simpa using congrArg String.toList h
  have hdigits : Nat.toDigits 10 m = Nat.toDigits 10 n := by
    simpa only [Nat.toString_eq_repr, Nat.toList_repr] using List.append_cancel_left hchars
  -- the digits can be read back
  simpa using congrArg (fun digits => Nat.ofDigitChars 10 digits 0) hdigits

/-- A number has a digit, so that no candidate is the base again. -/
theorem numbered_ne (base : String) (n : Nat) : base ++ toString n ≠ base := by
  intro h
  have hempty : (toString n).toList = [] := by simpa using congrArg String.toList h
  rw [Nat.toString_eq_repr, Nat.toList_repr] at hempty
  exact Nat.toDigits_ne_nil hempty

/-- Of one candidate more than there are taken names, one is free. -/
theorem exists_numbered_not_mem (base : String) (taken : List String) :
    ∃ i < taken.length + 1, base ++ toString (1 + i) ∉ taken := by
  by_contra hall
  push Not at hall
  have hsubset : (List.range (taken.length + 1)).map (fun i => base ++ toString (1 + i)) ⊆ taken := by
    intro x hx
    obtain ⟨i, hi, rfl⟩ := List.mem_map.mp hx
    exact hall i (List.mem_range.mp hi)
  have hnodup : ((List.range (taken.length + 1)).map fun i => base ++ toString (1 + i)).Nodup := by
    refine List.Nodup.map ?_ List.nodup_range
    intro i j h
    have hnumber : 1 + i = 1 + j := numbered_injective base h
    omega
  have hlength := (List.subperm_of_subset hnodup hsubset).length_le
  rw [List.length_map, List.length_range] at hlength
  omega

/-- If the base is taken, the least free number is at most the number of taken names. -/
theorem exists_isLeast_free (hbase : base ∈ taken) :
    ∃ n ≤ taken.toFinset.card, IsLeast {n : Nat | 1 ≤ n ∧ base ++ toString n ∉ taken} n := by
  -- the base is no candidate, so it does not count among the names that stand in the way
  obtain ⟨i, hi, hother⟩ := exists_numbered_not_mem base (taken.toFinset.erase base).toList
  rw [Finset.length_toList, Finset.card_erase_add_one (List.mem_toFinset.mpr hbase)] at hi
  have hfree : 1 ≤ 1 + i ∧ base ++ toString (1 + i) ∉ taken := by
    refine ⟨by omega, fun hmem => hother ?_⟩
    rw [Finset.mem_toList, Finset.mem_erase]
    exact ⟨numbered_ne base _, List.mem_toFinset.mpr hmem⟩
  have hexists : ∃ n, 1 ≤ n ∧ base ++ toString n ∉ taken := ⟨_, hfree⟩
  have hle : Nat.find hexists ≤ 1 + i := Nat.find_min' hexists hfree
  exact ⟨Nat.find hexists, by omega, Nat.find_spec hexists, fun n hn => Nat.find_min' hexists hn⟩

/-! ## The search -/

/-- The search ends at the first free candidate, if that is in its reach. -/
theorem freshFrom_eq {tries n i : Nat} (hi : i < tries) (hfree : base ++ toString (n + i) ∉ taken)
    (hbefore : ∀ j < i, base ++ toString (n + j) ∈ taken) :
    freshFrom base taken tries n = base ++ toString (n + i) := by
  induction tries generalizing n i with
  | zero => omega
  | succ tries ih =>
      rw [freshFrom]
      cases i with
      | zero => exact if_neg fun hmem => hfree (List.contains_iff_mem.mp hmem)
      | succ i =>
          have hfirst : base ++ toString n ∈ taken := hbefore 0 (by omega)
          rw [if_pos (List.contains_iff_mem.mpr hfirst)]
          have hshift : ∀ j, n + 1 + j = n + (j + 1) := by omega
          rw [← hshift i]
          apply ih
          · omega
          · rwa [hshift]
          · intro j hj
            rw [hshift]
            exact hbefore (j + 1) (by omega)

/-- A name that is not taken is fresh as it is. -/
theorem freshName_of_not_mem (h : base ∉ taken) : freshName base taken = base :=
  if_neg fun hmem => h (List.contains_iff_mem.mp hmem)

/-- A name that is taken gets the least number with which it is not. -/
theorem freshName_of_isLeast (hbase : base ∈ taken) {n : Nat} (hn : n ≤ taken.toFinset.card)
    (hleast : IsLeast {n : Nat | 1 ≤ n ∧ base ++ toString n ∉ taken} n) : freshName base taken = base ++ toString n := by
  obtain ⟨⟨hpos, hfree⟩, hmin⟩ := hleast
  obtain ⟨i, rfl⟩ := Nat.exists_eq_add_of_le hpos
  have hcard := List.toFinset_card_le taken
  rw [freshName, if_pos (List.contains_iff_mem.mpr hbase)]
  refine freshFrom_eq (by omega) hfree fun j hj => ?_
  by_contra hj'
  have := hmin ⟨by omega, hj'⟩
  omega

/-- A fresh name is not taken. -/
theorem freshName_not_mem (base : String) (taken : List String) : freshName base taken ∉ taken := by
  by_cases hbase : base ∈ taken
  · obtain ⟨n, hn, hleast⟩ := exists_isLeast_free hbase
    rw [freshName_of_isLeast hbase hn hleast]
    exact hleast.1.2
  · rwa [freshName_of_not_mem hbase]

/-- A fresh name is never taken. It is the base if that is free, and otherwise the base with the least number that makes a
free name of it. The numbers that are tried are at most as many as there are taken names. -/
theorem freshName_least (base : String) (taken : List String) :
    freshName base taken ∉ taken ∧
      ((base ∉ taken ∧ freshName base taken = base) ∨
        (base ∈ taken ∧ ∃ n ≤ taken.toFinset.card,
          IsLeast {n : Nat | 1 ≤ n ∧ base ++ toString n ∉ taken} n ∧ freshName base taken = base ++ toString n)) := by
  refine ⟨freshName_not_mem base taken, ?_⟩
  by_cases hbase : base ∈ taken
  · obtain ⟨n, hn, hleast⟩ := exists_isLeast_free hbase
    exact .inr ⟨hbase, n, hn, hleast, freshName_of_isLeast hbase hn hleast⟩
  · exact .inl ⟨hbase, freshName_of_not_mem hbase⟩

example : freshName "form" ["form", "form2", "form1"] = "form3" := by decide

end FormCodemod
