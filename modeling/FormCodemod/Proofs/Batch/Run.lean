import Mathlib.Data.List.Nodup
import Mathlib.Data.String.Basic
import FormCodemod.Batch.Basic
import FormCodemod.Proofs.Imports.Ensured

/-!
# Converting a directory, file by file

A run over a directory is a map over its component files (`Disk.convertDir?_accounts`): what becomes of a file
depends on its own bytes at the start of the run, a file that fails is noted and stops nothing, and no
path is written but those of the converted files.

* `fst_convertFile` and `get?_convertFile` say what one step does: it tells the outcome of its own file, and it leaves
  all other files as they are.
* `foldl_convertNext` says what a run over any list of distinct files does. The files still to come are not
  written by the steps before, so each has the outcome that it had at the start.
-/

namespace FormCodemod

/-! ## The order of paths -/

namespace Path

/-- The first path comes before the second one, and is another one. -/
def Before (p q : Path) : Prop := le p q = true ∧ p ≠ q

theorem le_trans (p q r : Path) (hpq : le p q = true) (hqr : le q r = true) : le p r = true := by
  induction p generalizing q r with
  | nil => rfl
  | cons x xs ih =>
      cases q with
      | nil => cases hpq
      | cons y ys =>
          cases r with
          | nil => cases hqr
          | cons z zs =>
              simp only [le, beq_iff_eq] at hpq hqr ⊢
              split at hpq
              next hxy =>
                subst hxy
                split at hqr
                next hxz => rw [if_pos hxz]; exact ih ys zs hpq hqr
                next hxz => rw [if_neg hxz]; exact hqr
              next hxy =>
                have hlt : x < y := of_decide_eq_true hpq
                split at hqr
                next hyz =>
                  subst hyz
                  rw [if_neg hxy]
                  exact hpq
                next hyz =>
                  have hxz : x < z := lt_trans hlt (of_decide_eq_true hqr)
                  rw [if_neg hxz.ne]
                  exact decide_eq_true hxz

theorem le_total (p q : Path) : (le p q || le q p) = true := by
  induction p generalizing q with
  | nil => rfl
  | cons x xs ih =>
      cases q with
      | nil => rfl
      | cons y ys =>
          simp only [le, beq_iff_eq]
          rcases lt_trichotomy x y with hlt | rfl | hgt
          · simp [hlt, hlt.ne, hlt.ne']
          · simpa using ih ys
          · simp [hgt, hgt.ne, hgt.ne']

/-- Distinct paths that are sorted are in order, each once. -/
theorem mergeSort_inOrder {ps : List Path} (h : ps.Nodup) : (ps.mergeSort le).Pairwise Before :=
  (List.pairwise_mergeSort le_trans le_total ps).and ((List.mergeSort_perm ..).nodup_iff.mpr h)

end Path

/-! ## Files -/

namespace Disk

variable {d : Disk} {p q : Path} {root : Path} {o : Options} {dryRun : Bool}

/-- To exchange the bytes under one path exchanges what is looked up under it, and nothing
else. -/
theorem lookup_map_put (es : List (Path × ByteArray)) (bytes : ByteArray) :
    (es.map fun e => if e.1 == p then (p, bytes) else e).lookup q =
      if q = p ∧ es.any (·.1 == p) = true then some bytes else es.lookup q := by
  induction es with
  | nil => simp
  | cons e es ih =>
      obtain ⟨r, b⟩ := e
      rw [List.map_cons, List.any_cons]
      by_cases hr : r = p
      · subst hr
        rw [if_pos (beq_self_eq_true r), List.lookup_cons, List.lookup_cons, ih]
        by_cases hq : q = r
        · simp [hq]
        · simp [hq, beq_eq_false_iff_ne.mpr hq]
      · have hrp : ((r, b).1 == p) = false := beq_eq_false_iff_ne.mpr hr
        rw [hrp, Bool.false_or, if_neg Bool.false_ne_true, List.lookup_cons, List.lookup_cons, ih]
        by_cases hq : q = r
        · simp [hq, hr]
        · simp [beq_eq_false_iff_ne.mpr hq]

/-- A file that is written has its new bytes, and every other path has what it had. -/
theorem get?_put (d : Disk) (p q : Path) (bytes : ByteArray) :
    (d.put p bytes).get? q = if q = p then some bytes else d.get? q := by
  unfold put get?
  split
  next hany =>
    rw [lookup_map_put]
    exact if_congr (and_iff_left hany) rfl rfl
  next hany =>
    rw [List.lookup_append]
    by_cases hq : q = p
    · have hnone : d.files.lookup q = none := by
        rw [List.lookup_eq_none_iff]
        intro e he
        rw [List.any_eq_true, not_exists] at hany
        have hne : e.1 ≠ p := fun h => hany e ⟨he, beq_iff_eq.mpr h⟩
        exact bne_iff_ne.mpr (hq ▸ hne.symm)
      rw [hnone, if_pos hq, hq]
      exact List.lookup_cons_self
    · rw [if_neg hq, List.lookup_cons, beq_eq_false_iff_ne.mpr hq]
      exact Option.or_none

theorem dirs_put (d : Disk) (p : Path) (bytes : ByteArray) : (d.put p bytes).dirs = d.dirs := by
  unfold put
  split <;> rfl

/-- A path among those of the files leads to bytes. -/
theorem exists_get?_of_mem_paths (h : p ∈ d.paths) : ∃ bytes, d.get? p = some bytes := by
  rw [paths, List.mem_eraseDups, List.mem_map] at h
  obtain ⟨e, he, rfl⟩ := h
  rw [← Option.isSome_iff_exists, get?, List.lookup_isSome_iff]
  exact ⟨e, he, beq_self_eq_true _⟩

/-- The way from the root to a component file, behind the root, is its path. -/
theorem eq_append_of_componentBelow? {below : Path} (h : componentBelow? root p = some below) : p = root ++ below := by
  unfold componentBelow? at h
  split at h
  next hroot =>
    dsimp only at h
    obtain ⟨r, rfl⟩ := List.isPrefixOf_iff_prefix.mp hroot
    rw [List.drop_left] at h
    split at h
    · split at h
      · cases h
        rfl
      · cases h
    · cases h
  next => cases h

/-- The component files of a directory are listed in order, each once. -/
theorem componentFiles_pairwise (d : Disk) (root : Path) : (d.componentFiles root).Pairwise Path.Before := by
  have hnodup : (d.paths.filterMap (componentBelow? root)).Nodup := by
    refine List.Nodup.filterMap ?_ (Imports.nodup_eraseDups _)
    intro q q' below hq hq'
    rw [eq_append_of_componentBelow? hq, eq_append_of_componentBelow? hq']
  exact Path.mergeSort_inOrder hnodup

/-- Each component file that is listed can be read. -/
theorem exists_get?_of_mem_componentFiles (h : p ∈ d.componentFiles root) : ∃ bytes, d.get? (root ++ p) = some bytes := by
  rw [componentFiles, List.mem_mergeSort, List.mem_filterMap] at h
  obtain ⟨q, hq, hbelow⟩ := h
  exact eq_append_of_componentBelow? hbelow ▸ exists_get?_of_mem_paths hq

end Disk

/-! ## Outcomes -/

namespace Outcome

variable {o : Options} {bytes : ByteArray}

def bytes? : Outcome → Option ByteArray
  | converted text => some text.toUTF8
  | _ => none

def error? : Outcome → Option FileError
  | failed e => some e
  | _ => none

theorem isSome_bytes?_iff {out : Outcome} : out.bytes?.isSome = true ↔ ∃ text, out = .converted text := by
  cases out <;> simp [bytes?]

theorem error?_eq_some_iff {out : Outcome} {e : FileError} : out.error? = some e ↔ out = .failed e := by
  cases out <;> simp [error?]

/-- A file fails exactly if its bytes are no text or the conversion has an error. -/
theorem ofBytes_eq_failed_iff {e : FileError} :
    ofBytes o bytes = .failed e ↔
      (String.fromUTF8? bytes = none ∧ e = .notText) ∨
        ∃ text e', String.fromUTF8? bytes = some text ∧ convert o text = .error e' ∧ e = .convert e' := by
  unfold ofBytes
  split
  next h => simp [h, eq_comm]
  next text h =>
    split
    next e' he => simp [h, he, eq_comm]
    next text' he =>
      split <;> simp [h, he]

/-- A file is unchanged exactly if it is a text that is converted to itself. -/
theorem ofBytes_eq_unchanged_iff :
    ofBytes o bytes = .unchanged ↔ ∃ text, String.fromUTF8? bytes = some text ∧ convert o text = .ok text := by
  unfold ofBytes
  split
  next h => simp [h]
  next text h =>
    split
    next e' he => simp [h, he]
    next text' he =>
      by_cases heq : text' = text
      · simp [h, he, heq]
      · simp [h, he, heq]

/-- A file is converted exactly if it is a text that is converted to another one. -/
theorem ofBytes_eq_converted_iff {text' : String} :
    ofBytes o bytes = .converted text' ↔
      ∃ text, String.fromUTF8? bytes = some text ∧ convert o text = .ok text' ∧ text' ≠ text := by
  unfold ofBytes
  split
  next h => simp [h]
  next text h =>
    split
    next e' he => simp [h, he]
    next text'' he =>
      by_cases heq : text'' = text
      · simp [h, he, heq, eq_comm]
      · simp only [beq_iff_eq, heq, if_false, h]
        grind

end Outcome

/-! ## Summaries -/

namespace Summary

variable {f : Path → Outcome} {ps : List Path} {p : Path} {R : Path → Path → Prop}

def ofOutcomes (f : Path → Outcome) (ps : List Path) : Summary where
  converted := ps.filter fun p => (f p).bytes?.isSome
  unchanged := ps.filter fun p => f p == .unchanged
  failed := ps.filterMap fun p => (f p).error?.map (p, ·)

/-- To note outcomes one after the other is to list the paths by outcome. -/
theorem foldl_note (f : Path → Outcome) (ps : List Path) (s : Summary) :
    ps.foldl (fun s p => s.note p (f p)) s =
      { converted := s.converted ++ (ofOutcomes f ps).converted
        unchanged := s.unchanged ++ (ofOutcomes f ps).unchanged
        failed := s.failed ++ (ofOutcomes f ps).failed } := by
  induction ps generalizing s with
  | nil => simp [ofOutcomes]
  | cons p ps ih =>
      rw [List.foldl_cons, ih]
      cases hf : f p <;> simp [note, ofOutcomes, hf, Outcome.bytes?, Outcome.error?]

theorem mem_converted_iff : p ∈ (ofOutcomes f ps).converted ↔ p ∈ ps ∧ ∃ text, f p = .converted text := by
  rw [ofOutcomes, List.mem_filter, Outcome.isSome_bytes?_iff]

theorem mem_unchanged_iff : p ∈ (ofOutcomes f ps).unchanged ↔ p ∈ ps ∧ f p = .unchanged := by
  rw [ofOutcomes, List.mem_filter, beq_iff_eq]

theorem mem_failed_iff {e : FileError} : (p, e) ∈ (ofOutcomes f ps).failed ↔ p ∈ ps ∧ f p = .failed e := by
  simp [ofOutcomes, Outcome.error?_eq_some_iff]

theorem mem_map_failed_iff : p ∈ (ofOutcomes f ps).failed.map (·.1) ↔ p ∈ ps ∧ ∃ e, f p = .failed e := by
  simp [mem_failed_iff]

/-- The failures are in the order of the files. -/
theorem pairwise_failed (h : ps.Pairwise R) : ((ofOutcomes f ps).failed.map (·.1)).Pairwise R := by
  have hfilter : (ofOutcomes f ps).failed.map (·.1) = ps.filter fun p => (f p).error?.isSome := by
    clear h
    induction ps with
    | nil => rfl
    | cons p ps ih => cases hf : (f p).error? <;> simpa [ofOutcomes, hf] using ih
  rw [hfilter]
  exact h.filter _

theorem disjoint_converted_unchanged : (ofOutcomes f ps).converted.Disjoint (ofOutcomes f ps).unchanged := by
  intro p hc hu
  obtain ⟨-, text, hc⟩ := mem_converted_iff.mp hc
  obtain ⟨-, hu⟩ := mem_unchanged_iff.mp hu
  exact absurd (hc.symm.trans hu) nofun

theorem disjoint_converted_failed : (ofOutcomes f ps).converted.Disjoint ((ofOutcomes f ps).failed.map (·.1)) := by
  intro p hc hf
  obtain ⟨-, text, hc⟩ := mem_converted_iff.mp hc
  obtain ⟨-, e, hf⟩ := mem_map_failed_iff.mp hf
  exact absurd (hc.symm.trans hf) nofun

theorem disjoint_unchanged_failed : (ofOutcomes f ps).unchanged.Disjoint ((ofOutcomes f ps).failed.map (·.1)) := by
  intro p hu hf
  obtain ⟨-, hu⟩ := mem_unchanged_iff.mp hu
  obtain ⟨-, e, hf⟩ := mem_map_failed_iff.mp hf
  exact absurd (hu.symm.trans hf) nofun

/-- A summary names all files and no others. -/
theorem mem_ofOutcomes_iff :
    p ∈ (ofOutcomes f ps).converted ∨ p ∈ (ofOutcomes f ps).unchanged ∨ p ∈ (ofOutcomes f ps).failed.map (·.1) ↔
      p ∈ ps := by
  rw [mem_converted_iff, mem_unchanged_iff, mem_map_failed_iff, ← and_or_left, ← and_or_left, and_iff_left_iff_imp]
  intro _
  cases hout : f p with
  | converted text => exact .inl ⟨text, rfl⟩
  | unchanged => exact .inr (.inl rfl)
  | failed e => exact .inr (.inr ⟨e, rfl⟩)

end Summary

/-! ## One file on disk -/

namespace Disk

variable {d : Disk} {p q : Path} {root : Path} {o : Options} {dryRun : Bool}

/-- What becomes of a file depends on its bytes only. -/
theorem outcome_of_get? {bytes : ByteArray} (h : d.get? p = some bytes) : d.outcome o p = .ofBytes o bytes := by
  rw [outcome, h]

/-- To convert a file reports its outcome, whether anything is written or not. -/
theorem fst_convertFile (d : Disk) (o : Options) (dryRun : Bool) (p : Path) :
    (d.convertFile o dryRun p).1 = d.outcome o p := by
  unfold convertFile
  split
  next text h => exact h.symm
  next => rfl

/-- Converting one file writes that file or nothing. -/
theorem get?_convertFile (d : Disk) (o : Options) (dryRun : Bool) (p q : Path) :
    (d.convertFile o dryRun p).2.get? q =
      if q = p ∧ dryRun = false then ((d.outcome o p).bytes?).or (d.get? q) else d.get? q := by
  unfold convertFile
  split
  next text h =>
    rw [h]
    cases dryRun with
    | true => simp
    | false =>
        rw [if_neg Bool.false_ne_true, get?_put]
        exact if_congr (and_iff_left rfl).symm rfl rfl
  next hno =>
    have hnone : (d.outcome o p).bytes? = none := by
      unfold Outcome.bytes?
      split
      next text h => exact absurd h (hno text)
      next => rfl
    rw [hnone, Option.none_or, ite_self]

theorem dirs_convertFile (d : Disk) (o : Options) (dryRun : Bool) (p : Path) :
    (d.convertFile o dryRun p).2.dirs = d.dirs := by
  unfold convertFile
  split
  · cases dryRun with
    | true => rfl
    | false => exact dirs_put ..
  · rfl

/-! ## One step, and all steps -/

/-- A run over distinct files. What one step writes is read by none of the later ones, so that every file has
the outcome that it had at the start. -/
theorem foldl_convertNext (o : Options) (dryRun : Bool) (root : Path) {ps : List Path} (hps : ps.Nodup) (s : Summary)
    (d : Disk) :
    (ps.foldl (convertNext o dryRun root) (s, d)).1 =
        ps.foldl (fun s p => s.note p (d.outcome o (root ++ p))) s ∧
      (∀ p ∈ ps, dryRun = false → (ps.foldl (convertNext o dryRun root) (s, d)).2.get? (root ++ p) =
        ((d.outcome o (root ++ p)).bytes?).or (d.get? (root ++ p))) ∧
      (∀ q, (dryRun = true ∨ ∀ p ∈ ps, q ≠ root ++ p) →
        (ps.foldl (convertNext o dryRun root) (s, d)).2.get? q = d.get? q) ∧
      (ps.foldl (convertNext o dryRun root) (s, d)).2.dirs = d.dirs := by
  induction ps generalizing s d with
  | nil => exact ⟨rfl, fun _ hp => absurd hp List.not_mem_nil, fun _ _ => rfl, rfl⟩
  | cons p ps ih =>
      obtain ⟨hp, hps⟩ := List.nodup_cons.mp hps
      have hstep : convertNext o dryRun root (s, d) p =
          (s.note p (d.outcome o (root ++ p)), (d.convertFile o dryRun (root ++ p)).2) := by
        rw [← fst_convertFile]
        rfl
      have hget : ∀ q, q ≠ root ++ p → (d.convertFile o dryRun (root ++ p)).2.get? q = d.get? q := by
        intro q hq
        rw [get?_convertFile, if_neg fun h => hq h.1]
      have hlater : ∀ p' ∈ ps, root ++ p' ≠ root ++ p := by
        intro p' hp' heq
        exact hp (List.append_cancel_left heq ▸ hp')
      -- a later file is another one, so it is read as if nothing had been written
      have houtcome : ∀ p' ∈ ps, (d.convertFile o dryRun (root ++ p)).2.outcome o (root ++ p') =
          d.outcome o (root ++ p') := by
        intro p' hp'
        rw [outcome, hget _ (hlater p' hp'), outcome]
      rw [List.foldl_cons, hstep, List.foldl_cons]
      obtain ⟨hsummary, hwritten, hkept, hdirs⟩ :=
        ih hps (s.note p (d.outcome o (root ++ p))) (d.convertFile o dryRun (root ++ p)).2
      refine ⟨?_, ?_, ?_, ?_⟩
      · rw [hsummary]
        exact List.foldl_ext _ _ _ fun s p' hp' => by rw [houtcome p' hp']
      · intro p' hp' hdry
        rcases List.mem_cons.mp hp' with rfl | hp'
        · -- none of the later steps writes the first file again
          rw [hkept _ (.inr fun p' hp' => (hlater p' hp').symm), get?_convertFile, if_pos ⟨rfl, hdry⟩]
        · rw [hwritten p' hp' hdry, houtcome p' hp', hget _ (hlater p' hp')]
      · intro q hq
        have hq' : dryRun = true ∨ ∀ p' ∈ ps, q ≠ root ++ p' := hq.imp_right fun h p' hp' => h p' (List.mem_cons_of_mem _ hp')
        rw [hkept q hq', get?_convertFile, if_neg]
        rintro ⟨hqp, hdry⟩
        rcases hq with hq | hq
        · simp [hq] at hdry
        · exact hq p (List.mem_cons_self ..) hqp
      · rw [hdirs, dirs_convertFile]

/-! ## Whole runs -/

def text? (d : Disk) (p : Path) : Option String := (d.get? p).bind String.fromUTF8?

/-- What a run over the directory `root` says and leaves behind, in terms of the tree `d` that it began with. -/
structure Accounts (d : Disk) (o : Options) (dryRun : Bool) (root : Path) (s : Summary) (d' : Disk) : Prop where
  converted_inOrder : s.converted.Pairwise Path.Before
  unchanged_inOrder : s.unchanged.Pairwise Path.Before
  failed_inOrder : (s.failed.map (·.1)).Pairwise Path.Before
  -- no file is in two of the lists, and they hold the component files between them
  converted_unchanged : s.converted.Disjoint s.unchanged
  converted_failed : s.converted.Disjoint (s.failed.map (·.1))
  unchanged_failed : s.unchanged.Disjoint (s.failed.map (·.1))
  mem_files (p : Path) :
    p ∈ s.converted ∨ p ∈ s.unchanged ∨ p ∈ s.failed.map (·.1) ↔ p ∈ d.componentFiles root
  -- the list that a file is in depends on its own bytes at the start
  failed_iff (p : Path) (e : FileError) :
    (p, e) ∈ s.failed ↔ p ∈ d.componentFiles root ∧ ∃ bytes, d.get? (root ++ p) = some bytes ∧
      ((String.fromUTF8? bytes = none ∧ e = .notText) ∨
        ∃ text e', String.fromUTF8? bytes = some text ∧ convert o text = .error e' ∧ e = .convert e')
  unchanged_iff (p : Path) :
    p ∈ s.unchanged ↔ p ∈ d.componentFiles root ∧ ∃ text, d.text? (root ++ p) = some text ∧ convert o text = .ok text
  converted_iff (p : Path) :
    p ∈ s.converted ↔ p ∈ d.componentFiles root ∧
      ∃ text text', d.text? (root ++ p) = some text ∧ convert o text = .ok text' ∧ text' ≠ text
  -- the converted files are written, and nothing else is
  written (p : Path) (hp : p ∈ s.converted) (hdry : dryRun = false) :
    ∃ text text', d.text? (root ++ p) = some text ∧ convert o text = .ok text' ∧
      d'.get? (root ++ p) = some text'.toUTF8
  kept (q : Path) (hq : dryRun = true ∨ ∀ p ∈ s.converted, q ≠ root ++ p) : d'.get? q = d.get? q
  dirs : d'.dirs = d.dirs

/-- A component file fails exactly if it is no text or its conversion has an error. -/
theorem outcome_eq_failed_iff (hp : p ∈ d.componentFiles root) {e : FileError} :
    d.outcome o (root ++ p) = .failed e ↔ ∃ bytes, d.get? (root ++ p) = some bytes ∧
      ((String.fromUTF8? bytes = none ∧ e = .notText) ∨
        ∃ text e', String.fromUTF8? bytes = some text ∧ convert o text = .error e' ∧ e = .convert e') := by
  obtain ⟨bytes, hbytes⟩ := exists_get?_of_mem_componentFiles hp
  rw [outcome_of_get? hbytes, Outcome.ofBytes_eq_failed_iff, hbytes]
  simp

/-- A component file is unchanged exactly if it is a text that is converted to itself. -/
theorem outcome_eq_unchanged_iff (hp : p ∈ d.componentFiles root) :
    d.outcome o (root ++ p) = .unchanged ↔ ∃ text, d.text? (root ++ p) = some text ∧ convert o text = .ok text := by
  obtain ⟨bytes, hbytes⟩ := exists_get?_of_mem_componentFiles hp
  rw [outcome_of_get? hbytes, Outcome.ofBytes_eq_unchanged_iff, text?, hbytes]
  rfl

/-- A component file is converted exactly if it is a text that is converted to another one. -/
theorem outcome_eq_converted_iff (hp : p ∈ d.componentFiles root) {text' : String} :
    d.outcome o (root ++ p) = .converted text' ↔
      ∃ text, d.text? (root ++ p) = some text ∧ convert o text = .ok text' ∧ text' ≠ text := by
  obtain ⟨bytes, hbytes⟩ := exists_get?_of_mem_componentFiles hp
  rw [outcome_of_get? hbytes, Outcome.ofBytes_eq_converted_iff, text?, hbytes]
  rfl

/-- A run over a directory succeeds, and it is a map over the component files, in which failures stay
where they are. -/
theorem convertDir?_accounts (d : Disk) (o : Options) (dryRun : Bool) (dir : String) (root : Path)
    (h : d.dirAt? dir = some root) :
    ∃ s d', d.convertDir? o dryRun dir = some (s, d') ∧ d.Accounts o dryRun root s d' := by
  obtain ⟨hsummary, hwritten, hkept, hdirs⟩ :=
    foldl_convertNext o dryRun root ((d.componentFiles_pairwise root).imp fun h => h.2) {} d
  have hrun : d.convertDir? o dryRun dir = some ((d.componentFiles root).foldl (convertNext o dryRun root) ({}, d)) := by
    rw [convertDir?, h, Option.map_some]
  generalize (d.componentFiles root).foldl (convertNext o dryRun root) ({}, d) = run at hrun hsummary hwritten hkept hdirs
  obtain ⟨s, d'⟩ := run
  dsimp only at hsummary hwritten hkept hdirs
  obtain rfl : s = .ofOutcomes (fun p => d.outcome o (root ++ p)) (d.componentFiles root) := by
    rw [hsummary, Summary.foldl_note]
    rfl
  have hpairwise := d.componentFiles_pairwise root
  refine ⟨_, d', hrun, ?_⟩
  exact
    { converted_inOrder := hpairwise.filter _
      unchanged_inOrder := hpairwise.filter _
      failed_inOrder := Summary.pairwise_failed hpairwise
      converted_unchanged := Summary.disjoint_converted_unchanged
      converted_failed := Summary.disjoint_converted_failed
      unchanged_failed := Summary.disjoint_unchanged_failed
      mem_files := fun p => Summary.mem_ofOutcomes_iff
      failed_iff := fun p e => Summary.mem_failed_iff.trans (and_congr_right fun hp => outcome_eq_failed_iff hp)
      unchanged_iff := fun p => Summary.mem_unchanged_iff.trans (and_congr_right outcome_eq_unchanged_iff)
      converted_iff := by
        intro p
        refine Summary.mem_converted_iff.trans (and_congr_right fun hp => ?_)
        simp only [outcome_eq_converted_iff hp]
        exact exists_comm
      written := by
        intro p hp hdry
        obtain ⟨hp, text', hout⟩ := Summary.mem_converted_iff.mp hp
        obtain ⟨text, htext, hok, -⟩ := (outcome_eq_converted_iff hp).mp hout
        refine ⟨text, text', htext, hok, ?_⟩
        rw [hwritten p hp hdry, hout]
        rfl
      kept := by
        intro q hq
        -- a component file that is not converted is read by the run, but not written
        by_cases hfile : dryRun = false ∧ ∃ p ∈ d.componentFiles root, q = root ++ p
        · obtain ⟨hdry, p, hp, rfl⟩ := hfile
          have hnone : (d.outcome o (root ++ p)).bytes? = none := by
            rw [← Option.not_isSome_iff_eq_none, Outcome.isSome_bytes?_iff]
            intro hc
            exact hq.resolve_left (by simp [hdry]) p (Summary.mem_converted_iff.mpr ⟨hp, hc⟩) rfl
          rw [hwritten p hp hdry, hnone, Option.none_or]
        · apply hkept
          cases hdry : dryRun with
          | true => exact .inl rfl
          | false => exact .inr fun p hp heq => hfile ⟨hdry, p, hp, heq⟩
      dirs := hdirs }

/-- Two files in a directory, of which the first is no text, and another one beside it. -/
def mixed : Disk where
  dirs := []
  files := [(["src", "b.jsx"], "b();".toUTF8), (["src", "a.jsx"], ⟨#[0xFF]⟩), (["c.jsx"], ⟨#[0xFF]⟩)]

/-- The file that is no text fails and stays as it is, and the one behind it is still converted. -/
theorem mixed_accounts :
    mixed.dirAt? "src" = some ["src"] ∧
      ∃ s d', mixed.convertDir? {} false "src" = some (s, d') ∧ (["a.jsx"], .notText) ∈ s.failed ∧
        ["b.jsx"] ∈ s.unchanged ∧ ["c.jsx"] ∉ s.failed.map (·.1) ∧ d'.get? ["src", "a.jsx"] = some ⟨#[0xFF]⟩ := by
  have hdir : mixed.dirAt? "src" = some ["src"] := by
    have hnames : "src".splitOn "/" = ["src"] := by
      -- none of the three characters is a slash, and then the text ends
      rw [String.splitOn, if_neg (by decide)]
      iterate 3 rw [String.splitOnAux, if_neg (by decide), if_neg (by decide)]
      rw [String.splitOnAux, if_pos (by decide)]
      decide
    rw [dirAt?, Path.steps, Path.ofText, hnames]
    rfl
  have hfiles : mixed.componentFiles ["src"] = [["a.jsx"], ["b.jsx"]] := by
    have hbelow : mixed.paths.filterMap (componentBelow? ["src"]) = [["b.jsx"], ["a.jsx"]] := by decide
    have hle : Path.le ["b.jsx"] ["a.jsx"] = false := by decide
    rw [componentFiles, hbelow]
    simp [List.mergeSort, hle]
  have hbroken : String.fromUTF8? ⟨#[0xFF]⟩ = none := by decide
  obtain ⟨s, d', hrun, hacc⟩ := convertDir?_accounts mixed {} false "src" ["src"] hdir
  have hfailed : (["a.jsx"], .notText) ∈ s.failed :=
    (hacc.failed_iff _ _).mpr ⟨by simp [hfiles], _, rfl, .inl ⟨hbroken, rfl⟩⟩
  refine ⟨hdir, s, d', hrun, hfailed, ?_, ?_, ?_⟩
  · exact (hacc.unchanged_iff _).mpr ⟨by simp [hfiles], "b();", by decide, rfl⟩
  · intro hmem
    have hfile := (hacc.mem_files _).mp (.inr (.inr hmem))
    simp [hfiles] at hfile
  · have hnot : ∀ p ∈ s.converted, ["src", "a.jsx"] ≠ ["src"] ++ p := by
      rintro p hp heq
      obtain rfl : ["a.jsx"] = p := List.append_cancel_left (show ["src"] ++ ["a.jsx"] = ["src"] ++ p from heq)
      exact hacc.converted_failed hp (List.mem_map_of_mem hfailed)
    exact hacc.kept _ (.inr hnot)

end Disk

end FormCodemod
