import Mathlib.Data.List.Induction
import Mathlib.Data.List.TakeWhile
import FormCodemod.Proofs.Batch.Run

/-!
# The files that a run selects

A run takes the component files from the paths of the tree. A walk through the directories comes to the same files
(`Disk.componentFiles_selected`): it leaves out every directory of installed packages with all that is below it, but not
the directory that it begins at, and not a file of that name. The walk may go through a directory in any order.

* `Disk.Pruned` says which entries are left of a tree when some are cut off, and `Disk.Walks` what a walk through it lists.
* `pruned_dir_iff` and `pruned_file_iff` tell, by induction on the way to an entry, what is left without the
  directories of installed packages.
-/

namespace FormCodemod

namespace Path

/-! ## Order -/

theorem le_antisymm (p q : Path) (hpq : le p q = true) (hqp : le q p = true) : p = q := by
  induction p generalizing q with
  | nil =>
      cases q with
      | nil => rfl
      | cons y ys => cases hqp
  | cons x xs ih =>
      cases q with
      | nil => cases hpq
      | cons y ys =>
          simp only [le, beq_iff_eq] at hpq hqp
          split at hpq
          next hxy =>
            subst hxy
            rw [if_pos rfl] at hqp
            rw [ih ys hpq hqp]
          next hxy =>
            rw [if_neg (Ne.symm hxy)] at hqp
            exact absurd (of_decide_eq_true hqp) (lt_asymm (of_decide_eq_true hpq))

/-- Two lists of paths in order, without repetition, are the same list if they hold the same paths. -/
theorem eq_of_inOrder {ps qs : List Path} (hps : ps.Pairwise Before) (hqs : qs.Pairwise Before)
    (h : ∀ p, p ∈ ps ↔ p ∈ qs) : ps = qs := by
  have hperm : ps.Perm qs :=
    (List.perm_ext_iff_of_nodup (hps.imp fun h => h.2) (hqs.imp fun h => h.2)).mpr h
  exact hperm.eq_of_pairwise (fun p q _ _ hpq hqp => le_antisymm p q hpq.1 hqp.1) hps hqs

/-! ## Extensions -/

/-- The extension of a name is what follows its last point, if something stands before that. -/
theorem extension?_eq_some_iff {name ext : String} :
    extension? name = some ext ↔ '.' ∉ ext.toList ∧ ∃ stem, stem ≠ "" ∧ name = stem ++ "." ++ ext := by
  -- the name is read from its end, up to the first point
  have hcut := List.takeWhile_append_dropWhile (p := (· != '.')) (l := name.toList.reverse)
  have hdrop : name.toList.reverse.drop (name.toList.reverse.takeWhile (· != '.')).length =
      name.toList.reverse.dropWhile (· != '.') := by
    have h := congrArg (List.drop (name.toList.reverse.takeWhile (· != '.')).length) hcut
    rw [List.drop_left] at h
    exact h.symm
  simp only [extension?, hdrop]
  constructor
  · intro h
    cases hrest : name.toList.reverse.dropWhile (· != '.') with
    | nil => simp [hrest] at h
    | cons point cs =>
        cases cs with
        | nil => simp [hrest] at h
        | cons c cs =>
            have hpoint : point = '.' := by
              have hhead := List.head?_dropWhile_not (· != '.') name.toList.reverse
              rw [hrest] at hhead
              simpa using hhead
            simp only [hrest, Option.some.injEq] at h
            subst h hpoint
            have hno : '.' ∉ name.toList.reverse.takeWhile (· != '.') :=
              fun hmem => absurd (List.mem_takeWhile_imp hmem) (by decide)
            rw [hrest] at hcut
            generalize name.toList.reverse.takeWhile (· != '.') = tail at hcut hno
            refine ⟨by simpa using hno, String.ofList (c :: cs).reverse, by simp, ?_⟩
            rw [← String.toList_inj, ← List.reverse_inj, ← hcut]
            simp
  · rintro ⟨hext, stem, hstem, rfl⟩
    have hall : ∀ c ∈ ext.toList.reverse, (c != '.') = true := by
      intro c hc
      rw [bne_iff_ne]
      rintro rfl
      exact hext (List.mem_reverse.mp hc)
    have hname : (stem ++ "." ++ ext).toList.reverse = ext.toList.reverse ++ '.' :: stem.toList.reverse := by simp
    have hbefore : stem.toList.reverse ≠ [] := by simpa using hstem
    obtain ⟨c, cs, hcs⟩ := List.exists_cons_of_ne_nil hbefore
    rw [hname, List.dropWhile_append_of_pos hall, List.takeWhile_append_of_pos hall, hcs]
    simp

end Path

namespace Disk

variable {d : Disk} {root p : Path} {x : String}

/-- A component file has a name in front of its extension, which is one of two. -/
theorem isComponentFile_iff {name : String} :
    isComponentFile name = true ↔ ∃ stem ext, name = stem ++ "." ++ ext ∧ stem ≠ "" ∧ (ext = "jsx" ∨ ext = "tsx") := by
  simp only [isComponentFile, Option.any_eq_true, Path.extension?_eq_some_iff, componentExtensions, List.contains_iff_mem,
    List.mem_cons, List.not_mem_nil, or_false]
  constructor
  · rintro ⟨ext, ⟨-, stem, hstem, rfl⟩, hext⟩
    exact ⟨stem, ext, rfl, hstem, hext⟩
  · rintro ⟨stem, ext, rfl, hstem, hext⟩
    refine ⟨ext, ⟨?_, stem, hstem, rfl⟩, hext⟩
    rcases hext with rfl | rfl <;> decide

/-! ## Directories on the way -/

/-- A directory is where everything stands, or lies on the way to a directory or a file. -/
theorem isDir_iff :
    d.isDir p = true ↔ p = [] ∨ (∃ q ∈ d.dirs, p <+: q) ∨ ∃ e ∈ d.files, p <+: e.1 ∧ e.1 ≠ p := by
  simp only [isDir, Bool.or_eq_true, List.isEmpty_iff, List.any_eq_true, Bool.and_eq_true, bne_iff_ne,
    List.isPrefixOf_iff_prefix, or_assoc]

theorem mem_paths_iff : p ∈ d.paths ↔ ∃ bytes, d.get? p = some bytes := by
  refine ⟨exists_get?_of_mem_paths, ?_⟩
  rintro ⟨bytes, h⟩
  obtain ⟨before, behind, hfiles, -⟩ := List.lookup_eq_some_iff.mp h
  rw [paths, List.mem_eraseDups, hfiles]
  simp

/-- What lies on the way to a directory is a directory. -/
theorem isDir_of_isDir_append {q : Path} (h : d.isDir (p ++ q) = true) : d.isDir p = true := by
  rw [isDir_iff] at h ⊢
  rcases h with hnil | ⟨r, hr, hbelow⟩ | ⟨e, he, hbelow, hne⟩
  · exact .inl (List.append_eq_nil_iff.mp hnil).1
  · exact .inr (.inl ⟨r, hr, (List.prefix_append p q).trans hbelow⟩)
  · refine .inr (.inr ⟨e, he, (List.prefix_append p q).trans hbelow, ?_⟩)
    rintro rfl
    exact hne (hbelow.eq_of_length_le (by simp)).symm

theorem isDir_of_file (h : p ++ [x] ∈ d.paths) : d.isDir p = true := by
  rw [paths, List.mem_eraseDups, List.mem_map] at h
  obtain ⟨e, he, heq⟩ := h
  refine isDir_iff.mpr (.inr (.inr ⟨e, he, ?_, ?_⟩))
  · rw [heq]
    exact List.prefix_append p [x]
  · rw [heq]
    simp

/-! ## Walks -/

/-- Something that a walk comes to: the way to it from where the walk begins, and whether it is a directory. -/
structure Entry where
  way : Path
  isDir : Bool
  deriving DecidableEq, Repr

def HasEntry (d : Disk) (root : Path) : Entry → Prop
  | ⟨p, true⟩ => d.isDir (root ++ p) = true
  | ⟨p, false⟩ => root ++ p ∈ d.paths

/-- What is left of the tree below `root` when each entry that `keep` turns down is cut off, with all that is below it. -/
inductive Pruned (d : Disk) (keep : Entry → Bool) (root : Path) : Entry → Prop
  | root (h : d.HasEntry root ⟨[], true⟩) (hkeep : keep ⟨[], true⟩ = true) : Pruned d keep root ⟨[], true⟩
  | inside {p : Path} {x : String} {isDir : Bool} (hp : Pruned d keep root ⟨p, true⟩)
      (h : d.HasEntry root ⟨p ++ [x], isDir⟩) (hkeep : keep ⟨p ++ [x], isDir⟩ = true) :
      Pruned d keep root ⟨p ++ [x], isDir⟩

/-- The entries that a walk lists: those of the pruned tree, each once, in any order. -/
structure Walks (d : Disk) (keep : Entry → Bool) (root : Path) (entries : List Entry) : Prop where
  nodup : entries.Nodup
  mem_iff (e : Entry) : e ∈ entries ↔ d.Pruned keep root e

/-- Whether a walk goes to an entry: not if it is a directory of installed packages, unless the walk begins there. -/
def isWalked (e : Entry) : Bool := e.way.isEmpty || !(e.isDir && e.way.getLast? == some "node_modules")

def select (entries : List Entry) : List Path :=
  ((entries.filter fun e => !e.isDir && e.way.getLast?.any isComponentFile).map (·.way)).mergeSort Path.le

/-! ## What is left of a tree -/

/-- Where a walk begins is left exactly if it is a directory that is kept. -/
theorem pruned_nil_iff {keep : Entry → Bool} {isDir : Bool} :
    d.Pruned keep root ⟨[], isDir⟩ ↔ isDir = true ∧ d.isDir root = true ∧ keep ⟨[], true⟩ = true := by
  constructor
  · intro h
    generalize he : (⟨[], isDir⟩ : Entry) = e at h
    cases h with
    | root h hkeep => exact ⟨(Entry.mk.inj he).2, by simpa [HasEntry] using h, hkeep⟩
    | inside => simp at he
  · rintro ⟨rfl, h, hkeep⟩
    exact .root (by simpa [HasEntry] using h) hkeep

/-- Further down an entry is left exactly if its directory is and it is kept itself. -/
theorem pruned_append_iff {keep : Entry → Bool} {isDir : Bool} :
    d.Pruned keep root ⟨p ++ [x], isDir⟩ ↔
      d.Pruned keep root ⟨p, true⟩ ∧ d.HasEntry root ⟨p ++ [x], isDir⟩ ∧ keep ⟨p ++ [x], isDir⟩ = true := by
  constructor
  · intro h
    generalize he : (⟨p ++ [x], isDir⟩ : Entry) = e at h
    cases h with
    | root => simp at he
    | inside hp h hkeep =>
        obtain ⟨hway, rfl⟩ := Entry.mk.inj he
        obtain ⟨rfl, rfl⟩ := List.append_singleton_inj.mp hway
        exact ⟨hp, h, hkeep⟩
  · rintro ⟨hp, h, hkeep⟩
    exact .inside hp h hkeep

theorem isWalked_append {isDir : Bool} :
    isWalked ⟨p ++ [x], isDir⟩ = true ↔ (isDir = true → x ≠ "node_modules") := by
  cases isDir <;> simp [isWalked]

/-- A walk comes to a directory if neither it nor one on the way to it is one of installed packages. -/
theorem pruned_dir_iff : d.Pruned isWalked root ⟨p, true⟩ ↔ d.isDir (root ++ p) = true ∧ "node_modules" ∉ p := by
  induction p using List.reverseRecOn with
  | nil => simp [pruned_nil_iff, isWalked]
  | append_singleton p x ih =>
      rw [pruned_append_iff, ih, isWalked_append, HasEntry]
      constructor
      · rintro ⟨⟨-, hno⟩, hdir, hx⟩
        exact ⟨hdir, by simpa [hno] using (hx rfl).symm⟩
      · rintro ⟨hdir, hno⟩
        rw [List.mem_append, not_or, List.mem_singleton] at hno
        refine ⟨⟨?_, hno.1⟩, hdir, fun _ => Ne.symm hno.2⟩
        rw [← List.append_assoc] at hdir
        exact isDir_of_isDir_append hdir

/-- A walk comes to a file if no directory on the way to it is one of installed packages, whatever its own name is. -/
theorem pruned_file_iff :
    d.Pruned isWalked root ⟨p, false⟩ ↔ root ++ p ∈ d.paths ∧ ∃ way name, p = way ++ [name] ∧ "node_modules" ∉ way := by
  constructor
  · intro h
    rcases List.eq_nil_or_concat' p with rfl | ⟨way, name, rfl⟩
    · exact absurd (pruned_nil_iff.mp h).1 Bool.false_ne_true
    · obtain ⟨hway, hfile, -⟩ := pruned_append_iff.mp h
      exact ⟨hfile, way, name, rfl, (pruned_dir_iff.mp hway).2⟩
  · rintro ⟨hfile, way, name, rfl, hno⟩
    have hdir : d.isDir (root ++ way) = true := by
      rw [← List.append_assoc] at hfile
      exact isDir_of_file hfile
    exact pruned_append_iff.mpr ⟨pruned_dir_iff.mpr ⟨hdir, hno⟩, hfile, isWalked_append.mpr nofun⟩

/-! ## What is selected -/

/-- The way to a component file goes through no directory of installed packages. -/
theorem componentBelow?_eq_some_iff {q : Path} :
    componentBelow? root q = some p ↔
      q = root ++ p ∧ ∃ way name, p = way ++ [name] ∧ "node_modules" ∉ way ∧ isComponentFile name = true := by
  constructor
  · intro h
    obtain rfl := eq_append_of_componentBelow? h
    refine ⟨rfl, ?_⟩
    simp only [componentBelow?, List.isPrefixOf_iff_prefix, List.prefix_append, if_true, List.drop_left] at h
    split at h
    next name hlast =>
      obtain ⟨way, rfl⟩ := List.getLast?_eq_some_iff.mp hlast
      split at h
      next hfile => exact ⟨way, name, rfl, by simpa [and_comm] using hfile⟩
      next => cases h
    next => cases h
  · rintro ⟨rfl, way, name, rfl, hno, hname⟩
    simp [componentBelow?, hno, hname]

/-- The component files below a root, by their paths. -/
theorem mem_componentFiles_iff :
    p ∈ d.componentFiles root ↔
      root ++ p ∈ d.paths ∧ ∃ way name, p = way ++ [name] ∧ "node_modules" ∉ way ∧ isComponentFile name = true := by
  rw [componentFiles, List.mem_mergeSort, List.mem_filterMap]
  simp only [componentBelow?_eq_some_iff]
  constructor
  · rintro ⟨q, hq, rfl, h⟩
    exact ⟨hq, h⟩
  · rintro ⟨hp, h⟩
    exact ⟨_, hp, rfl, h⟩

/-- What is selected from a walk are the files with the extension of a component. -/
theorem mem_select_iff {entries : List Entry} :
    p ∈ select entries ↔ ⟨p, false⟩ ∈ entries ∧ ∃ way name, p = way ++ [name] ∧ isComponentFile name = true := by
  rw [select, List.mem_mergeSort, List.mem_map]
  constructor
  · rintro ⟨⟨q, isDir⟩, he, rfl⟩
    obtain ⟨he, hfile⟩ := List.mem_filter.mp he
    rw [Bool.and_eq_true, Bool.not_eq_true', Option.any_eq_true] at hfile
    obtain ⟨rfl, name, hlast, hname⟩ := hfile
    obtain ⟨way, rfl⟩ := List.getLast?_eq_some_iff.mp hlast
    exact ⟨he, way, name, rfl, hname⟩
  · rintro ⟨he, way, name, rfl, hname⟩
    exact ⟨_, List.mem_filter.mpr ⟨he, by simpa using hname⟩, rfl⟩

/-- The selected files are in order, none of them twice, if no entry was listed twice. -/
theorem select_pairwise {entries : List Entry} (h : entries.Nodup) : (select entries).Pairwise Path.Before := by
  have hnodup : ((entries.filter fun e => !e.isDir && e.way.getLast?.any isComponentFile).map (·.way)).Nodup := by
    refine (h.filter _).map_on ?_
    -- only files are kept, and a file is told by the way to it
    rintro ⟨way, isDir⟩ he ⟨way', isDir'⟩ he' rfl
    have hdir := (List.mem_filter.mp he).2
    have hdir' := (List.mem_filter.mp he').2
    simp only [Bool.and_eq_true, Bool.not_eq_true'] at hdir hdir'
    rw [hdir.1, hdir'.1]
  exact Path.mergeSort_inOrder hnodup

/-- A run selects the component files that a walk comes to, each once and in order. They are the files below the directory that
have one of the two extensions, and no directory of installed packages on the way from there. -/
theorem componentFiles_selected (d : Disk) (root : Path) :
    (∀ entries, d.Walks isWalked root entries → d.componentFiles root = select entries) ∧
      (d.componentFiles root).Pairwise Path.Before ∧
      ∀ p, p ∈ d.componentFiles root ↔ ∃ way stem ext, p = way ++ [stem ++ "." ++ ext] ∧
        stem ≠ "" ∧ (ext = "jsx" ∨ ext = "tsx") ∧ "node_modules" ∉ way ∧ ∃ bytes, d.get? (root ++ p) = some bytes := by
  have hpairwise := d.componentFiles_pairwise root
  refine ⟨fun entries h => ?_, hpairwise, fun p => ?_⟩
  · refine Path.eq_of_inOrder hpairwise (select_pairwise h.nodup) fun p => ?_
    rw [mem_componentFiles_iff, mem_select_iff, h.mem_iff]
    constructor
    · rintro ⟨hfile, way, name, rfl, hno, hname⟩
      exact ⟨pruned_file_iff.mpr ⟨hfile, way, name, rfl, hno⟩, way, name, rfl, hname⟩
    · rintro ⟨hpruned, way, name, rfl, hname⟩
      obtain ⟨hfile, way', name', heq, hno⟩ := pruned_file_iff.mp hpruned
      obtain ⟨rfl, rfl⟩ := List.append_singleton_inj.mp heq
      exact ⟨hfile, way, name, rfl, hno, hname⟩
  · rw [mem_componentFiles_iff, mem_paths_iff]
    constructor
    · rintro ⟨hfile, way, name, rfl, hno, hname⟩
      obtain ⟨stem, ext, rfl, hstem, hext⟩ := isComponentFile_iff.mp hname
      exact ⟨way, stem, ext, rfl, hstem, hext, hno, hfile⟩
    · rintro ⟨way, stem, ext, rfl, hstem, hext, hno, hfile⟩
      exact ⟨hfile, way, _, rfl, hno, isComponentFile_iff.mpr ⟨stem, ext, rfl, hstem, hext⟩⟩

/-- A program that stands among installed packages, with packages of its own and a file that is called like their directory. -/
def installed : Disk where
  dirs := []
  files := [(["node_modules", "app", "node_modules", "ui", "input.jsx"], "a();".toUTF8),
    (["node_modules", "app", "form.jsx"], "b();".toUTF8), (["node_modules", "node_modules"], "c".toUTF8)]

/-- The packages of the program are left out, though the program itself is in a directory of packages. -/
theorem installed_selected :
    installed.Walks isWalked ["node_modules"]
        [⟨[], true⟩, ⟨["node_modules"], false⟩, ⟨["app"], true⟩, ⟨["app", "form.jsx"], false⟩] ∧
      installed.componentFiles ["node_modules"] = [["app", "form.jsx"]] := by
  have hpaths : installed.paths = [["node_modules", "app", "node_modules", "ui", "input.jsx"],
      ["node_modules", "app", "form.jsx"], ["node_modules", "node_modules"]] := by decide
  have hwalks : installed.Walks isWalked ["node_modules"]
      [⟨[], true⟩, ⟨["node_modules"], false⟩, ⟨["app"], true⟩, ⟨["app", "form.jsx"], false⟩] := by
    refine ⟨by decide, ?_⟩
    rintro ⟨p, _ | _⟩
    · rw [pruned_file_iff, hpaths]
      constructor
      · intro h
        obtain rfl | rfl : p = ["node_modules"] ∨ p = ["app", "form.jsx"] := by simpa using h
        · exact ⟨by decide, [], _, rfl, by decide⟩
        · exact ⟨by decide, ["app"], _, rfl, by decide⟩
      · rintro ⟨hfile, way, name, hway, hno⟩
        obtain rfl | rfl | rfl : p = ["app", "node_modules", "ui", "input.jsx"] ∨ p = ["app", "form.jsx"] ∨
            p = ["node_modules"] := by simpa using hfile
        · obtain ⟨rfl, -⟩ := List.append_singleton_inj.mp (show ["app", "node_modules", "ui"] ++ ["input.jsx"] = _ from hway)
          exact absurd hno (by decide)
        all_goals decide
    · rw [pruned_dir_iff]
      constructor
      · intro h
        obtain rfl | rfl : p = [] ∨ p = ["app"] := by simpa using h
        · exact ⟨by decide, by decide⟩
        · exact ⟨by decide, by decide⟩
      · rintro ⟨hdir, hno⟩
        rw [isDir_iff] at hdir
        rcases p with _ | ⟨x, _ | ⟨y, p⟩⟩
        · decide
        · have hx : x ≠ "node_modules" := by simpa [eq_comm] using hno
          obtain rfl : x = "app" := by simpa [installed, hx] using hdir
          decide
        · have hy : y ≠ "node_modules" := by
            rintro rfl
            exact hno (by simp)
          refine absurd hdir ?_
          simp +contextual [installed, hy]
  refine ⟨hwalks, ?_⟩
  rw [(componentFiles_selected installed ["node_modules"]).1 _ hwalks]
  cbv

end Disk

end FormCodemod
