import JsxCalls.Batch.Basic
import JsxCalls.Proofs.Following

/-!
# Files of a batch do not disturb each other

The conversion of a file reads one file and writes at most that file. So if no two paths of a batch
lead to one file, each is converted as it would be alone on the initial disk, in whatever order, and
the batch changes nothing but the files whose sources change and that are not locked.
-/

namespace JsxCalls

namespace Disk

/-! ## One file -/

/-- Both paths lead to one file. -/
def SameFile (disk : Disk) (path other : Path) : Prop :=
  ∃ place, disk.fileAt? path = some place ∧ disk.fileAt? other = some place

theorem sameFile_iff {disk : Disk} {path other : Path} : disk.SameFile path other ↔
    disk.fileAt? path ≠ none ∧ disk.fileAt? path = disk.fileAt? other := by
  constructor
  · rintro ⟨place, here, there⟩
    rw [here, there]
    exact ⟨Option.some_ne_none place, rfl⟩
  · rintro ⟨found, same⟩
    obtain ⟨place, here⟩ := Option.ne_none_iff_exists'.mp found
    exact ⟨place, here, same ▸ here⟩

instance (disk : Disk) (path other : Path) : Decidable (disk.SameFile path other) :=
  decidable_of_iff _ sameFile_iff.symm

/-- What becomes of a file that is converted alone. -/
def outcome (disk : Disk) (lowering : Text → Lowered) (write : Bool) (path : Path) :
    Except FileError Report :=
  match disk.readText path with
  | .error fault => .error (.unreadable path fault)
  | .ok source =>
    if write && (lowering source).changed && disk.isLocked path then
      .error (.unwritable path .denied)
    else
      .ok ⟨path, (lowering source).statements, (lowering source).changed,
        write && (lowering source).changed⟩

/-- The place where the conversion of a file writes, and the bytes that it writes. -/
def rewriting? (disk : Disk) (lowering : Text → Lowered) (path : Path) : Option (Place × Bytes) :=
  match disk.readText path with
  | .error _ => none
  | .ok source =>
    if (lowering source).changed && !disk.isLocked path then
      (disk.fileAt? path).map fun place => (place, Utf8.encode (lowering source).output)
    else none

/-- The disk with new bytes at a place, if there are any. -/
def rewritten (disk : Disk) : Option (Place × Bytes) → Disk
  | none => disk
  | some (place, content) => disk.put place (.file content)

theorem SameFile.symm {disk : Disk} {path other : Path} (same : disk.SameFile path other) :
    disk.SameFile other path := by
  obtain ⟨place, here, there⟩ := same
  exact ⟨place, there, here⟩

theorem exists_fileAt?_of_readText {disk : Disk} {path : Path} {source : Text}
    (read : disk.readText path = .ok source) : ∃ place, disk.fileAt? path = some place := by
  rw [readText] at read
  split at read
  · simp at read
  · rename_i content bytes
    obtain ⟨place, led, file⟩ := read_eq_ok_iff.mp bytes
    exact ⟨place, fileAt?_eq_some_iff.mpr ⟨led, content, file⟩⟩

section Conversion

variable {disk : Disk} {lowering : Text → Lowered} {path other : Path} {place : Place}
  {content : Bytes}

theorem rewriting?_eq_some_iff : disk.rewriting? lowering path = some (place, content) ↔
    ∃ source, disk.readText path = .ok source ∧ (lowering source).changed = true ∧
      disk.isLocked path = false ∧ disk.fileAt? path = some place ∧
      content = Utf8.encode (lowering source).output := by
  rw [rewriting?]
  cases read : disk.readText path with
  | error fault => simp
  | ok source =>
    by_cases written : ((lowering source).changed && !disk.isLocked path) = true
    · obtain ⟨changed, free⟩ : (lowering source).changed = true ∧ disk.isLocked path = false := by
        simpa using written
      constructor
      · intro rewrites
        obtain ⟨there, found, rfl, rfl⟩ : ∃ there, disk.fileAt? path = some there ∧ there = place ∧
            Utf8.encode (lowering source).output = content := by simpa [written] using rewrites
        exact ⟨source, rfl, changed, free, found, rfl⟩
      · rintro ⟨text, equal, -, -, found, rfl⟩
        obtain rfl : source = text := Except.ok.inj equal
        simp [written, found]
    · refine iff_of_false (by simp [written]) ?_
      rintro ⟨text, equal, changed, free, -⟩
      obtain rfl : source = text := Except.ok.inj equal
      exact written (by simp [changed, free])

theorem fileAt?_of_rewriting? (rewrites : disk.rewriting? lowering path = some (place, content)) :
    disk.fileAt? path = some place := by
  obtain ⟨-, -, -, -, there, -⟩ := rewriting?_eq_some_iff.mp rewrites
  exact there

/-- A file is converted to its outcome, and nothing but its own bytes is written. -/
theorem convertFile_eq (disk : Disk) (lowering : Text → Lowered) (path : Path) :
    (disk.convertFile lowering true path).result = disk.outcome lowering true path ∧
      (disk.convertFile lowering true path).disk =
        disk.rewritten (disk.rewriting? lowering path) := by
  rw [convertFile, outcome, rewriting?]
  cases read : disk.readText path with
  | error fault => exact ⟨rfl, rfl⟩
  | ok source =>
    obtain ⟨place, there⟩ := exists_fileAt?_of_readText read
    cases changed : (lowering source).changed with
    | false => simp [finish, changed, rewritten]
    | true =>
      cases locked : disk.isLocked path with
      | false => simp [finish, changed, rewritten, writeText, write_of_fileAt? there, locked, there]
      | true => simp [finish, changed, rewritten, writeText, write_of_fileAt? there, locked]

theorem convertFile_false (disk : Disk) (lowering : Text → Lowered) (path : Path) :
    (disk.convertFile lowering false path).result = disk.outcome lowering false path ∧
      (disk.convertFile lowering false path).disk = disk := by
  rw [convertFile, outcome]
  cases read : disk.readText path with
  | error fault => exact ⟨rfl, rfl⟩
  | ok source => simp [finish]

/-! ## The other files -/

/-- Every path leads to the file to which it led. -/
theorem fileAt?_put {old : Bytes} (found : disk.find? place = some (.file old)) (other : Path) :
    (disk.put place (.file content)).fileAt? other = disk.fileAt? other := by
  have same := sameShape_put found content
  apply Option.ext
  intro there
  rw [fileAt?_eq_some_iff, fileAt?_eq_some_iff, same.resolve_eq]
  refine and_congr_right fun _ => ⟨?_, fun ⟨_, file⟩ => same.exists_file file⟩
  rintro ⟨bytes, file⟩
  rw [find?_put (ne_nil_of_file found)] at file
  split at file
  · rename_i here
    exact ⟨old, here ▸ found⟩
  · exact ⟨bytes, file⟩

theorem fileAt?_convertFile (other : Path) :
    (disk.convertFile lowering true path).disk.fileAt? other = disk.fileAt? other := by
  rw [(disk.convertFile_eq lowering path).2]
  cases rewrites : disk.rewriting? lowering path with
  | none => rfl
  | some written =>
    obtain ⟨place, content⟩ := written
    obtain ⟨-, old, found⟩ := fileAt?_eq_some_iff.mp (fileAt?_of_rewriting? rewrites)
    exact fileAt?_put found other

theorem isLocked_convertFile (other : Path) :
    (disk.convertFile lowering true path).disk.isLocked other = disk.isLocked other := by
  have kept : (disk.convertFile lowering true path).disk.locked = disk.locked := by
    rw [(disk.convertFile_eq lowering path).2]
    cases disk.rewriting? lowering path <;> rfl
  rw [isLocked, isLocked, fileAt?_convertFile, kept]

theorem sameFile_convertFile_iff {next : Path} :
    (disk.convertFile lowering true path).disk.SameFile other next ↔ disk.SameFile other next := by
  simp only [SameFile, fileAt?_convertFile]

/-- A file that is not the converted one reads as before. -/
theorem readText_convertFile (apart : ¬ disk.SameFile path other) :
    (disk.convertFile lowering true path).disk.readText other = disk.readText other := by
  rw [(disk.convertFile_eq lowering path).2]
  cases rewrites : disk.rewriting? lowering path with
  | none => rfl
  | some written =>
    obtain ⟨place, content⟩ := written
    have here := fileAt?_of_rewriting? rewrites
    obtain ⟨-, old, found⟩ := fileAt?_eq_some_iff.mp here
    have bytes : (disk.put place (.file content)).read other = disk.read other := by
      rw [read, read, ← (sameShape_put found content).resolve_eq]
      cases led : disk.resolve other with
      | error fault => rfl
      | ok there =>
        have elsewhere : there ≠ place := by
          rintro rfl
          exact apart ⟨there, here, fileAt?_eq_some_iff.mpr ⟨led, old, found⟩⟩
        simp only [find?_put (ne_nil_of_file found), if_neg elsewhere]
    rw [rewritten, readText, readText, bytes]

theorem outcome_convertFile (apart : ¬ disk.SameFile path other) (write : Bool) :
    (disk.convertFile lowering true path).disk.outcome lowering write other =
      disk.outcome lowering write other := by
  rw [outcome, outcome, readText_convertFile apart, isLocked_convertFile]

theorem rewriting?_convertFile (apart : ¬ disk.SameFile path other) :
    (disk.convertFile lowering true path).disk.rewriting? lowering other =
      disk.rewriting? lowering other := by
  rw [rewriting?, rewriting?, readText_convertFile apart, fileAt?_convertFile,
    isLocked_convertFile]

end Conversion

/-! ## Orders -/

/-- Entries at different places are put in either order, if one of them is there already. -/
theorem putEntry_comm {place other : Place} (differ : place ≠ other) (entry next : Entry)
    {entries : List (Place × Entry)} (present : entries.lookup place ≠ none) :
    putEntry place entry (putEntry other next entries) =
      putEntry other next (putEntry place entry entries) := by
  induction entries with
  | nil => simp at present
  | cons head entries induction =>
    obtain ⟨there, found⟩ := head
    by_cases here : there = place
    · simp [putEntry, here, differ]
    · have later : entries.lookup place ≠ none := by
        have unequal : (place == there) = false := beq_false_of_ne (Ne.symm here)
        simpa [List.lookup_cons, unequal] using present
      by_cases elsewhere : there = other
      · simp [putEntry, elsewhere, Ne.symm differ]
      · simp [putEntry, here, elsewhere, induction later]

theorem convertFile_comm {disk : Disk} {lowering : Text → Lowered} {path other : Path}
    (apart : ¬ disk.SameFile path other) :
    ((disk.convertFile lowering true path).disk.convertFile lowering true other).disk =
      ((disk.convertFile lowering true other).disk.convertFile lowering true path).disk := by
  have apart' : ¬ disk.SameFile other path := fun same => apart same.symm
  rw [(convertFile_eq _ lowering other).2, rewriting?_convertFile apart,
    (convertFile_eq _ lowering path).2,
    (convertFile_eq (convertFile _ _ _ other).disk lowering path).2, rewriting?_convertFile apart',
    (convertFile_eq disk lowering other).2]
  cases first : disk.rewriting? lowering path with
  | none => rfl
  | some written =>
    cases second : disk.rewriting? lowering other with
    | none => rfl
    | some others =>
      obtain ⟨place, content⟩ := written
      obtain ⟨there, bytes⟩ := others
      have here := fileAt?_of_rewriting? first
      have elsewhere := fileAt?_of_rewriting? second
      have differ : place ≠ there := by
        rintro rfl
        exact apart ⟨place, here, elsewhere⟩
      obtain ⟨-, old, found⟩ := fileAt?_eq_some_iff.mp elsewhere
      have present : disk.entries.lookup there ≠ none := by
        rw [find?, if_neg (ne_nil_of_file found)] at found
        simp [found]
      exact congrArg (fun entries => { disk with entries })
        (putEntry_comm (Ne.symm differ) _ _ present)

/-! ## Batches -/

/-- No two of the paths lead to one file. -/
def Apart (disk : Disk) (paths : List Path) : Prop :=
  paths.Pairwise fun path other => ¬ disk.SameFile path other

instance (disk : Disk) (paths : List Path) : Decidable (disk.Apart paths) :=
  inferInstanceAs (Decidable (List.Pairwise _ paths))

variable {disk : Disk} {lowering : Text → Lowered} {paths : List Path}

/-- Paths are apart if the places of their files are different. -/
theorem apart_iff_nodup : disk.Apart paths ↔ (paths.filterMap disk.fileAt?).Nodup := by
  rw [Apart, List.Nodup, List.pairwise_filterMap]
  refine List.Pairwise.iff fun path other => ?_
  constructor
  · rintro differ place here _ there rfl
    exact differ ⟨place, here, there⟩
  · rintro differ ⟨place, here, there⟩
    exact differ place here place there rfl

theorem apart_cons_iff {path : Path} : disk.Apart (path :: paths) ↔
    (∀ other ∈ paths, ¬ disk.SameFile path other) ∧ disk.Apart paths :=
  List.pairwise_cons

theorem Apart.convertFile (apart : disk.Apart paths) (path : Path) :
    (disk.convertFile lowering true path).disk.Apart paths :=
  List.Pairwise.imp (fun differ same => differ (sameFile_convertFile_iff.mp same)) apart

theorem convertFiles_append (lowering : Text → Lowered) (disk : Disk) (front back : List Path) :
    (disk.convertFiles lowering true (front ++ back)).disk =
      ((disk.convertFiles lowering true front).disk.convertFiles lowering true back).disk := by
  induction front generalizing disk with
  | nil => rfl
  | cons path front induction => exact induction _

/-- A file that no path of the batch leads to reads as before. -/
theorem readText_convertFiles {path : Path} (apart : ∀ other ∈ paths, ¬ disk.SameFile other path) :
    (disk.convertFiles lowering true paths).disk.readText path = disk.readText path := by
  induction paths generalizing disk with
  | nil => rfl
  | cons first paths induction =>
    have later := @induction (disk.convertFile lowering true first).disk fun other member same =>
      apart other (List.mem_cons_of_mem _ member) (sameFile_convertFile_iff.mp same)
    exact later.trans (readText_convertFile (apart first List.mem_cons_self))

/-- No file is locked or unlocked. -/
theorem isLocked_convertFiles (path : Path) :
    (disk.convertFiles lowering true paths).disk.isLocked path = disk.isLocked path := by
  induction paths generalizing disk with
  | nil => rfl
  | cons first paths induction =>
    exact (@induction (disk.convertFile lowering true first).disk).trans (isLocked_convertFile path)

theorem results_convertFiles (apart : disk.Apart paths) :
    (disk.convertFiles lowering true paths).results = paths.map (disk.outcome lowering true) := by
  induction paths generalizing disk with
  | nil => rfl
  | cons path paths induction =>
    obtain ⟨differ, others⟩ := apart_cons_iff.mp apart
    have same : paths.map ((disk.convertFile lowering true path).disk.outcome lowering true) =
        paths.map (disk.outcome lowering true) :=
      List.map_congr_left fun other member => outcome_convertFile (differ other member) true
    rw [List.map_cons, ← same, ← induction (others.convertFile path),
      ← (disk.convertFile_eq lowering path).1]
    rfl

/-- Nothing but the rewritten files is touched. -/
theorem find?_convertFiles_of_kept {place : Place} (apart : disk.Apart paths)
    (kept : ∀ path ∈ paths, ∀ content, disk.rewriting? lowering path ≠ some (place, content)) :
    (disk.convertFiles lowering true paths).disk.find? place = disk.find? place := by
  induction paths generalizing disk with
  | nil => rfl
  | cons path paths induction =>
    obtain ⟨differ, others⟩ := apart_cons_iff.mp apart
    have later := @induction (disk.convertFile lowering true path).disk (others.convertFile path)
      fun other member content rewrites => by
        rw [rewriting?_convertFile (differ other member)] at rewrites
        exact kept other (List.mem_cons_of_mem _ member) content rewrites
    refine later.trans ?_
    rw [(disk.convertFile_eq lowering path).2]
    cases rewrites : disk.rewriting? lowering path with
    | none => rfl
    | some written =>
      obtain ⟨there, content⟩ := written
      obtain ⟨-, old, found⟩ := fileAt?_eq_some_iff.mp (fileAt?_of_rewriting? rewrites)
      have elsewhere : place ≠ there := by
        rintro rfl
        exact kept path List.mem_cons_self content rewrites
      rw [rewritten, find?_put (ne_nil_of_file found), if_neg elsewhere]

/-- Every rewritten file holds its new bytes. -/
theorem find?_convertFiles_of_rewriting? {path : Path} {place : Place} {content : Bytes}
    (apart : disk.Apart paths) (member : path ∈ paths)
    (rewrites : disk.rewriting? lowering path = some (place, content)) :
    (disk.convertFiles lowering true paths).disk.find? place = some (.file content) := by
  induction paths generalizing disk with
  | nil => simp at member
  | cons first paths induction =>
    obtain ⟨differ, others⟩ := apart_cons_iff.mp apart
    have here := fileAt?_of_rewriting? rewrites
    rcases List.mem_cons.mp member with rfl | later
    · obtain ⟨-, old, found⟩ := fileAt?_eq_some_iff.mp here
      -- The later paths lead to other files.
      have kept : ∀ other ∈ paths, ∀ bytes, (disk.convertFile lowering true path).disk.rewriting?
          lowering other ≠ some (place, bytes) := by
        intro other member bytes again
        rw [rewriting?_convertFile (differ other member)] at again
        exact differ other member ⟨place, here, fileAt?_of_rewriting? again⟩
      refine (find?_convertFiles_of_kept (others.convertFile path) kept).trans ?_
      rw [(disk.convertFile_eq lowering path).2, rewrites, rewritten,
        find?_put (ne_nil_of_file found), if_pos rfl]
    · refine @induction (disk.convertFile lowering true first).disk (others.convertFile first)
        later ?_
      rw [rewriting?_convertFile (differ path later), rewrites]

/-- The order of the paths does not matter to the disk. -/
theorem disk_convertFiles_perm {others : List Path} (reordered : paths.Perm others)
    (apart : disk.Apart paths) :
    (disk.convertFiles lowering true paths).disk =
      (disk.convertFiles lowering true others).disk := by
  induction reordered generalizing disk with
  | nil => rfl
  | cons path reordered induction => exact induction ((apart_cons_iff.mp apart).2.convertFile path)
  | swap path other paths =>
    have differ := (apart_cons_iff.mp apart).1 path List.mem_cons_self
    exact congrArg (fun disk => (Disk.convertFiles disk lowering true paths).disk)
      (convertFile_comm differ)
  | trans first second induction later =>
    exact (induction apart).trans (later (first.pairwise apart fun differ same => differ same.symm))

end Disk

end JsxCalls
