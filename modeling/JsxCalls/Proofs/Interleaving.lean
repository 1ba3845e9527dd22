import JsxCalls.Proofs.BatchIndependence

/-!
# Files that are converted at the same time

The conversion of a file reads it first and may write it later, and other files may be read and
written in between. Whatever the schedule, when all files are done they have become what they become
one after another.
-/

namespace JsxCalls

open Utf8 (bytes)

/-! ## Schedules -/

/-- How far the conversion of a file has come. -/
inductive Progress where
  /-- The file was not read yet. -/
  | waiting
  /-- The file was read, and its source was lowered. -/
  | lowered (lowered : Lowered)
  /-- The file was converted, or cannot be. -/
  | done (result : Except FileError Report)

/-- The next step in the conversion of a file. -/
def Disk.advance (disk : Disk) (lowering : Text → Lowered) (path : Path) :
    Progress → Disk × Progress
  | .waiting =>
    match disk.readText path with
    | .error fault => (disk, .done (.error (.unreadable path fault)))
    | .ok source => (disk, .lowered (lowering source))
  | .lowered lowered =>
    let finished := disk.finish true path lowered
    (finished.disk, .done finished.result)
  | .done result => (disk, .done result)

/-- A batch whose files are converted at the same time. -/
structure Underway where
  /-- The disk as it is now. -/
  disk : Disk
  /-- Every file, and how far its conversion has come. -/
  files : List (Path × Progress)

/-- The path of a file that is done. -/
def donePath : Path × Progress → Option Path
  | (path, .done _) => some path
  | _ => none

namespace Underway

/-- A batch before any file is read. -/
def start (disk : Disk) (paths : List Path) : Underway :=
  ⟨disk, paths.map fun path => (path, .waiting)⟩

/-- Takes the next step for the file with the given number. -/
def advance (lowering : Text → Lowered) (underway : Underway) (index : Nat) : Underway :=
  match underway.files[index]? with
  | none => underway
  | some (path, progress) =>
    let next := underway.disk.advance lowering path progress
    ⟨next.1, underway.files.set index (path, next.2)⟩

/-- Takes one step for each number of a schedule. -/
def run (lowering : Text → Lowered) (underway : Underway) (schedule : List Nat) : Underway :=
  schedule.foldl (advance lowering) underway

/-- All files are done. -/
def isDone (underway : Underway) : Bool :=
  underway.files.all fun file => (donePath file).isSome

end Underway

/-! ## What a step preserves -/

/-- What is known of a file agrees with the initial disk. -/
def Progress.Agrees (disk : Disk) (lowering : Text → Lowered) (path : Path) : Progress → Prop
  | .waiting => True
  | .lowered found => ∃ source, disk.readText path = .ok source ∧ found = lowering source
  | .done result => result = disk.outcome lowering true path

/-- The files agree with the initial disk, and the disk is as if the files that are done were
converted one after another. -/
structure Underway.Faithful (disk : Disk) (lowering : Text → Lowered) (paths : List Path)
    (underway : Underway) : Prop where
  paths_eq : underway.files.map Prod.fst = paths
  agrees : ∀ file ∈ underway.files, file.2.Agrees disk lowering file.1
  ordered : ∃ order, order.Perm (underway.files.filterMap donePath) ∧
    underway.disk = (disk.convertFiles lowering true order).disk

theorem mem_paths_of_mem_filterMap {files : List (Path × Progress)} {path : Path}
    (member : path ∈ files.filterMap donePath) : path ∈ files.map Prod.fst := by
  obtain ⟨⟨other, progress⟩, inside, equal⟩ := List.mem_filterMap.mp member
  cases progress with
  | waiting => simp [donePath] at equal
  | lowered lowered => simp [donePath] at equal
  | done result =>
    obtain rfl : other = path := by simpa [donePath] using equal
    exact List.mem_map_of_mem inside

section Step

variable {disk : Disk} {lowering : Text → Lowered} {paths : List Path}

/-- A file that was read is written like a file that is converted at once. -/
theorem Disk.advance_lowered {path : Path} {source : Text}
    (read : disk.readText path = .ok source) :
    disk.advance lowering path (.lowered (lowering source)) =
      ((disk.convertFile lowering true path).disk,
        .done (disk.convertFile lowering true path).result) := by
  simp only [Disk.advance, Disk.convertFile, read]

theorem Disk.convertFile_disk_of_unreadable {path : Path} {fault : ReadFault}
    (unreadable : disk.readText path = .error fault) :
    (disk.convertFile lowering true path).disk = disk := by
  simp only [Disk.convertFile, unreadable]

theorem agrees_of_replaced {left right : List (Path × Progress)} {path : Path}
    {progress next : Progress}
    (agrees : ∀ file ∈ left ++ (path, progress) :: right, file.2.Agrees disk lowering file.1)
    (known : next.Agrees disk lowering path) :
    ∀ file ∈ left ++ (path, next) :: right, file.2.Agrees disk lowering file.1 := by
  intro file member
  rcases List.mem_append.mp member with before | behind
  · exact agrees file (List.mem_append_left _ before)
  · rcases List.mem_cons.mp behind with rfl | after
    · exact known
    · exact agrees file (List.mem_append_right _ (List.mem_cons_of_mem _ after))

namespace Underway.Faithful

variable {left right : List (Path × Progress)} {path : Path} {progress : Progress} {now : Disk}

/-- A file is read. -/
theorem lower (faithful : Faithful disk lowering paths ⟨now, left ++ (path, .waiting) :: right⟩)
    {source : Text} (readable : disk.readText path = .ok source) :
    Faithful disk lowering paths ⟨now, left ++ (path, .lowered (lowering source)) :: right⟩ := by
  obtain ⟨paths_eq, agrees, order, reordered, now_eq⟩ := faithful
  refine ⟨by simpa using paths_eq, agrees_of_replaced agrees ⟨source, readable, rfl⟩, order, ?_,
    now_eq⟩
  rw [List.filterMap_append] at reordered ⊢
  exact reordered

/-- A file that is done comes last in the order. -/
theorem finish (pending : donePath (path, progress) = none)
    (faithful : Faithful disk lowering paths ⟨now, left ++ (path, progress) :: right⟩) :
    Faithful disk lowering paths ⟨(now.convertFile lowering true path).disk,
      left ++ (path, .done (disk.outcome lowering true path)) :: right⟩ := by
  obtain ⟨paths_eq, agrees, order, reordered, rfl⟩ := faithful
  refine ⟨by simpa using paths_eq, agrees_of_replaced agrees rfl, order ++ [path], ?_, ?_⟩
  · have others : order.Perm (left.filterMap donePath ++ right.filterMap donePath) := by
      simpa [List.filterMap_append, List.filterMap_cons, pending] using reordered
    have last : (order ++ [path]).Perm (path :: order) := List.perm_append_comm
    have whole :
        (left ++ (path, .done (disk.outcome lowering true path)) :: right).filterMap donePath =
          left.filterMap donePath ++ path :: right.filterMap donePath := by
      simp [List.filterMap_append, donePath]
    rw [whole]
    exact last.trans ((others.cons path).trans List.perm_middle.symm)
  · rw [Disk.convertFiles_append]
    rfl

/-- As long as a file is not done, it reads as on the initial disk. -/
theorem readText_eq (pending : donePath (path, progress) = none) (apart : disk.Apart paths)
    (faithful : Faithful disk lowering paths ⟨now, left ++ (path, progress) :: right⟩) :
    now.readText path = disk.readText path := by
  obtain ⟨paths_eq, -, order, reordered, rfl⟩ := faithful
  refine Disk.readText_convertFiles fun other member => ?_
  have inside := reordered.subset member
  rw [List.filterMap_append, List.filterMap_cons, pending] at inside
  rw [← paths_eq, List.map_append, List.map_cons] at apart
  obtain ⟨-, behind, before⟩ := List.pairwise_append.mp apart
  rcases List.mem_append.mp inside with early | late
  · exact before other (mem_paths_of_mem_filterMap early) path List.mem_cons_self
  · intro same
    exact (List.pairwise_cons.mp behind).1 other (mem_paths_of_mem_filterMap late) same.symm

theorem outcome_eq (pending : donePath (path, progress) = none) (apart : disk.Apart paths)
    (faithful : Faithful disk lowering paths ⟨now, left ++ (path, progress) :: right⟩) :
    now.outcome lowering true path = disk.outcome lowering true path := by
  have same := readText_eq pending apart faithful
  obtain ⟨-, -, order, -, rfl⟩ := faithful
  rw [Disk.outcome, Disk.outcome, same, Disk.isLocked_convertFiles]

theorem advance {underway : Underway} (faithful : Faithful disk lowering paths underway)
    (apart : disk.Apart paths) (index : Nat) :
    Faithful disk lowering paths (underway.advance lowering index) := by
  rw [Underway.advance]
  split
  · exact faithful
  · rename_i path progress found
    obtain ⟨now, files⟩ := underway
    obtain ⟨bound, there⟩ := List.getElem?_eq_some_iff.mp found
    obtain ⟨left, right, cut, -, set⟩ :=
      @List.exists_of_set _ index (path, (now.advance lowering path progress).2) files bound
    dsimp only at there ⊢
    rw [there] at cut
    rw [set]
    subst cut
    have known := faithful.agrees (path, progress) (by simp)
    cases progress with
    | waiting =>
      have same := readText_eq rfl apart faithful
      cases read : disk.readText path with
      | error fault =>
        have finished := finish rfl faithful
        rw [read] at same
        rw [Disk.convertFile_disk_of_unreadable same, Disk.outcome, read] at finished
        simp only [Disk.advance, same]
        exact finished
      | ok source =>
        rw [read] at same
        simp only [Disk.advance, same]
        exact lower faithful read
    | lowered lowered =>
      have same := readText_eq rfl apart faithful
      obtain ⟨source, readable, rfl⟩ := known
      have finished := finish rfl faithful
      rw [Disk.advance_lowered (same.trans readable), (now.convertFile_eq lowering path).1,
        outcome_eq rfl apart faithful]
      exact finished
    | done result => exact faithful

/-- Every schedule keeps the batch faithful. -/
theorem run {underway : Underway} (faithful : Faithful disk lowering paths underway)
    (apart : disk.Apart paths) (schedule : List Nat) :
    Faithful disk lowering paths (underway.run lowering schedule) := by
  induction schedule generalizing underway with
  | nil => exact faithful
  | cons index schedule induction => exact induction (faithful.advance apart index)

/-- When all files are done, they have become what they become one after another. -/
theorem eq_of_isDone {underway : Underway} (faithful : Faithful disk lowering paths underway)
    (apart : disk.Apart paths) (finished : underway.isDone = true) :
    underway.files = paths.map (fun path => (path, .done (disk.outcome lowering true path))) ∧
      underway.disk = (disk.convertFiles lowering true paths).disk := by
  obtain ⟨now, files⟩ := underway
  obtain ⟨paths_eq, agrees, order, reordered, rfl⟩ := faithful
  dsimp only at paths_eq agrees reordered
  have each : ∀ file ∈ files, file = (file.1, .done (disk.outcome lowering true file.1)) := by
    intro file member
    have settled := List.all_eq_true.mp finished file member
    have known := agrees file member
    obtain ⟨path, progress⟩ := file
    cases progress with
    | waiting => simp [donePath] at settled
    | lowered lowered => simp [donePath] at settled
    | done result => exact congrArg (fun result => (path, Progress.done result)) known
  have files_eq :
      files = paths.map fun path => (path, .done (disk.outcome lowering true path)) := by
    rw [← paths_eq, List.map_map]
    exact (List.map_id files).symm.trans (List.map_congr_left each)
  have all : files.filterMap donePath = paths := by
    rw [files_eq, List.filterMap_map]
    exact List.filterMap_some
  rw [all] at reordered
  exact ⟨files_eq, (Disk.disk_convertFiles_perm reordered.symm apart).symm⟩

end Underway.Faithful

theorem Underway.faithful_start (disk : Disk) (lowering : Text → Lowered) (paths : List Path) :
    Faithful disk lowering paths (start disk paths) := by
  refine ⟨by rw [start, List.map_map]; exact List.map_id paths, ?_, [], ?_, rfl⟩
  · intro file member
    obtain ⟨path, -, rfl⟩ := List.mem_map.mp member
    trivial
  · have nothing : (start disk paths).files.filterMap donePath = [] := by
      simp [start, List.filterMap_map, donePath]
    rw [nothing]

end Step

/-! ## Independence -/

theorem Disk.convertFiles_false (disk : Disk) (lowering : Text → Lowered) (paths : List Path) :
    (disk.convertFiles lowering false paths).disk = disk ∧
      (disk.convertFiles lowering false paths).results =
        paths.map (disk.outcome lowering false) := by
  induction paths with
  | nil => exact ⟨rfl, rfl⟩
  | cons path paths induction =>
    obtain ⟨result, kept⟩ := disk.convertFile_false lowering path
    rw [convertFiles, kept, result]
    exact ⟨induction.1, congrArg _ induction.2⟩

/-- The report of a file that was not written. -/
def Report.unwritten (report : Report) : Report :=
  { report with written := false }

theorem Disk.outcome_false {disk : Disk} {path : Path} (free : disk.isLocked path = false)
    (lowering : Text → Lowered) :
    disk.outcome lowering false path = (disk.outcome lowering true path).map Report.unwritten := by
  rw [outcome, outcome, free]
  cases disk.readText path with
  | error fault => rfl
  | ok source => simp [Report.unwritten, Except.map]

/-- If no two paths lead to one file, every file of a batch is converted on its own, as it was on
the initial disk; only files whose sources change are written, unless they are locked; and neither
the order of the paths nor the schedule of the conversions matters. Without writing, nothing
changes, and the same is reported if no file is locked. -/
theorem Disk.convertFiles_independent (disk : Disk) (lowering : Text → Lowered) {paths : List Path}
    (apart : disk.Apart paths) :
    (disk.convertFiles lowering true paths).results = paths.map (disk.outcome lowering true) ∧
      (∀ path ∈ paths, ∀ source, disk.readText path = .ok source →
        (lowering source).changed = true → disk.isLocked path = false →
          ∃ place, disk.fileAt? path = some place ∧
            (disk.convertFiles lowering true paths).disk.find? place =
              some (.file (Utf8.encode (lowering source).output))) ∧
      (∀ place, (∀ path ∈ paths, disk.fileAt? path = some place → ∀ source,
          disk.readText path = .ok source →
            (lowering source).changed = false ∨ disk.isLocked path = true) →
        (disk.convertFiles lowering true paths).disk.find? place = disk.find? place) ∧
      (∀ others, others.Perm paths →
        (disk.convertFiles lowering true others).results = others.map (disk.outcome lowering true) ∧
          (disk.convertFiles lowering true others).disk =
            (disk.convertFiles lowering true paths).disk) ∧
      (∀ schedule, ((Underway.start disk paths).run lowering schedule).isDone = true →
        ((Underway.start disk paths).run lowering schedule).files =
            paths.map (fun path => (path, .done (disk.outcome lowering true path))) ∧
          ((Underway.start disk paths).run lowering schedule).disk =
            (disk.convertFiles lowering true paths).disk) ∧
      ((∀ path ∈ paths, disk.isLocked path = false) →
        (disk.convertFiles lowering false paths).results =
          (disk.convertFiles lowering true paths).results.map (Except.map Report.unwritten)) ∧
        (disk.convertFiles lowering false paths).disk = disk := by
  obtain ⟨kept, results⟩ := disk.convertFiles_false lowering paths
  refine ⟨results_convertFiles apart, ?_, ?_, ?_, ?_, ?_, kept⟩
  · intro path member source readable changed free
    obtain ⟨place, there⟩ := exists_fileAt?_of_readText readable
    exact ⟨place, there, find?_convertFiles_of_rewriting? apart member
      (rewriting?_eq_some_iff.mpr ⟨source, readable, changed, free, there, rfl⟩)⟩
  · intro place unchanged
    refine find?_convertFiles_of_kept apart fun path member content rewrites => ?_
    obtain ⟨source, readable, changed, free, there, -⟩ := rewriting?_eq_some_iff.mp rewrites
    rcases unchanged path member there source readable with same | locked
    · simp [same] at changed
    · simp [locked] at free
  · intro others reordered
    have reapart : disk.Apart others :=
      reordered.symm.pairwise apart fun differ same => differ same.symm
    exact ⟨results_convertFiles reapart, disk_convertFiles_perm reordered reapart⟩
  · intro schedule finished
    have faithful := (Underway.faithful_start disk lowering paths).run apart schedule
    exact faithful.eq_of_isDone apart finished
  · intro free
    rw [results, results_convertFiles apart, List.map_map]
    exact List.map_congr_left fun path member => outcome_false (free path member) lowering

/-- A link to a file that is marked for a change, a file that is not, a file that is no text, and a
locked file that is marked. -/
def mixedDisk : Disk where
  entries := [
    ([bytes "a"], .file (Utf8.encode ['!', 'é'])),
    ([bytes "b"], .file (Utf8.encode ['x'])),
    ([bytes "c"], .file [0xFF]),
    ([bytes "k"], .file (Utf8.encode ['!'])),
    ([bytes "l"], .link ⟨bytes "a"⟩)]
  locked := [[bytes "k"]]

/-- The files of the disk, the first one through the link, and a file that is not there. -/
def mixedPaths : List Path :=
  [⟨bytes "l"⟩, ⟨bytes "b"⟩, ⟨bytes "c"⟩, ⟨bytes "k"⟩, ⟨bytes "d"⟩]

/-- Doubles the sources that are marked. -/
def doubleMarked (source : Text) : Lowered :=
  ⟨source ++ source, 1, 0, source.head? = some '!'⟩

theorem resolve_mixedDisk :
    mixedDisk.resolve ⟨bytes "l"⟩ = .ok [bytes "a"] ∧
      mixedDisk.resolve ⟨bytes "b"⟩ = .ok [bytes "b"] ∧
      mixedDisk.resolve ⟨bytes "c"⟩ = .ok [bytes "c"] ∧
      mixedDisk.resolve ⟨bytes "k"⟩ = .ok [bytes "k"] ∧
      mixedDisk.resolve ⟨bytes "d"⟩ = .error .noEntry := by
  refine ⟨?_, Disk.follow_file rfl rfl (by decide) 40, Disk.follow_file rfl rfl (by decide) 40,
    Disk.follow_file rfl rfl (by decide) 40, ?_⟩
  · change mixedDisk.follow .use 40 [] [bytes "l"] = _
    rw [Disk.follow]
    exact Disk.follow_file rfl rfl (by decide) 39
  · change mixedDisk.follow .use 40 [] [bytes "d"] = _
    rw [Disk.follow]
    rfl

theorem fileAt?_mixedDisk :
    mixedDisk.fileAt? ⟨bytes "l"⟩ = some [bytes "a"] ∧
      mixedDisk.fileAt? ⟨bytes "b"⟩ = some [bytes "b"] ∧
      mixedDisk.fileAt? ⟨bytes "c"⟩ = some [bytes "c"] ∧
      mixedDisk.fileAt? ⟨bytes "k"⟩ = some [bytes "k"] ∧
      mixedDisk.fileAt? ⟨bytes "d"⟩ = none := by
  obtain ⟨linked, plain, broken, locked, missing⟩ := resolve_mixedDisk
  refine ⟨Disk.fileAt?_eq_some_iff.mpr ⟨linked, _, rfl⟩,
    Disk.fileAt?_eq_some_iff.mpr ⟨plain, _, rfl⟩, Disk.fileAt?_eq_some_iff.mpr ⟨broken, _, rfl⟩,
    Disk.fileAt?_eq_some_iff.mpr ⟨locked, _, rfl⟩, ?_⟩
  rw [Disk.fileAt?, missing]

theorem readText_mixedDisk :
    mixedDisk.readText ⟨bytes "l"⟩ = .ok ['!', 'é'] ∧ mixedDisk.readText ⟨bytes "b"⟩ = .ok ['x'] ∧
      mixedDisk.readText ⟨bytes "c"⟩ = .error .notText ∧
      mixedDisk.readText ⟨bytes "k"⟩ = .ok ['!'] ∧
      mixedDisk.readText ⟨bytes "d"⟩ = .error (.disk .noEntry) := by
  obtain ⟨linked, plain, broken, locked, missing⟩ := resolve_mixedDisk
  have marked : mixedDisk.find? [bytes "a"] = some (.file (Utf8.encode ['!', 'é'])) := rfl
  have kept : mixedDisk.find? [bytes "b"] = some (.file (Utf8.encode ['x'])) := rfl
  have untext : mixedDisk.find? [bytes "c"] = some (.file [0xFF]) := rfl
  have markedToo : mixedDisk.find? [bytes "k"] = some (.file (Utf8.encode ['!'])) := rfl
  have undecodable : Utf8.decode? [0xFF] = none := by decide +kernel
  simp only [Disk.readText, Disk.read, linked, plain, broken, locked, missing, marked, kept, untext,
    markedToo, Utf8.decode?_encode, undecodable, and_self]

/-- The marked file is doubled, the locked one cannot be written, and the others are reported. -/
theorem Disk.convertFiles_independent_mixedDisk :
    mixedDisk.Apart mixedPaths ∧
      ((Underway.start mixedDisk mixedPaths).run doubleMarked [0, 3, 1, 2, 4, 1, 0, 3]).isDone =
        true ∧
      ((Underway.start mixedDisk mixedPaths).run doubleMarked [0, 3, 1, 2, 4, 1, 0, 3]).disk =
        (mixedDisk.convertFiles doubleMarked true mixedPaths).disk ∧
      (mixedDisk.convertFiles doubleMarked true mixedPaths).results =
        [.ok ⟨⟨bytes "l"⟩, 1, true, true⟩, .ok ⟨⟨bytes "b"⟩, 1, false, false⟩,
          .error (.unreadable ⟨bytes "c"⟩ .notText), .error (.unwritable ⟨bytes "k"⟩ .denied),
          .error (.unreadable ⟨bytes "d"⟩ (.disk .noEntry))] := by
  obtain ⟨marked, kept, broken, markedToo, missing⟩ := readText_mixedDisk
  obtain ⟨first, second, third, fourth, nowhere⟩ := fileAt?_mixedDisk
  have apart : mixedDisk.Apart mixedPaths := by
    have places : mixedPaths.filterMap mixedDisk.fileAt? =
        [[bytes "a"], [bytes "b"], [bytes "c"], [bytes "k"]] := by
      simp [mixedPaths, first, second, third, fourth, nowhere]
    rw [apart_iff_nodup, places]
    decide
  have finished : ((Underway.start mixedDisk mixedPaths).run doubleMarked
      [0, 3, 1, 2, 4, 1, 0, 3]).isDone = true := by
    simp [Underway.start, Underway.run, Underway.advance, mixedPaths, Disk.advance, marked, kept,
      broken, markedToo, missing, Underway.isDone, donePath]
  have unlocked : mixedDisk.isLocked ⟨bytes "l"⟩ = false := by
    rw [isLocked, first]
    decide
  have locked : mixedDisk.isLocked ⟨bytes "k"⟩ = true := by
    rw [isLocked, fourth]
    decide
  obtain ⟨results, -, -, -, scheduled, -⟩ :=
    Disk.convertFiles_independent mixedDisk doubleMarked apart
  refine ⟨apart, finished, (scheduled _ finished).2, results.trans ?_⟩
  simp [mixedPaths, outcome, marked, kept, broken, markedToo, missing, locked, unlocked,
    doubleMarked]

end JsxCalls
