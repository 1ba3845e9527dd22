import JsxCalls.Command.Run
import JsxCalls.Proofs.CommandLine
import JsxCalls.Proofs.EncodedText
import JsxCalls.Proofs.Interleaving

/-!
# Ways to run the program

A file can be converted in place, to the standard output, or by way of the standard input, and it
can be checked without being converted. All of these lower the same text in the same style, so they
agree on what the file becomes. Only a locked file is not converted in place, and only an array does
not list a path that is no text.
-/

namespace JsxCalls

open Utf8 (byte bytes)

/-! ## The path of the standard input -/

theorem Path.exists_parts_eq_cons {b : UInt8} (other : b ≠ byte '/') (written : Bytes) :
    ∃ part parts, Path.parts ⟨b :: written⟩ = (b :: part) :: parts := by
  have split : Path.parts ⟨b :: written⟩ =
      (written.splitOn (byte '/')).modifyHead (List.cons b) := by
    simp [Path.parts, List.splitOn, List.splitOnP_cons_eq_if_modifyHead, other]
  obtain ⟨part, parts, equal⟩ :=
    List.exists_cons_of_ne_nil (List.splitOn_ne_nil (byte '/') written)
  exact ⟨part, parts, by rw [split, equal, List.modifyHead_cons]⟩

/-- Only a path that starts with a hyphen stands for the standard input. -/
theorem Path.same_inputPath_eq_false {path : Path} (plain : path.bytes.head? ≠ some (byte '-')) :
    path.same Disk.inputPath = false := by
  have components : Disk.inputPath.components = [.name [byte '-']] := by decide
  obtain ⟨written⟩ := path
  rw [Path.same, components, decide_eq_false_iff_not]
  cases written with
  | nil => decide
  | cons b written =>
    have differs : b ≠ byte '-' := fun same => plain (congrArg some same)
    intro equal
    by_cases slash : b = byte '/'
    · simp [Path.components, Path.isAbsolute, slash] at equal
    · obtain ⟨part, parts, split⟩ := Path.exists_parts_eq_cons slash written
      have relative : Path.isAbsolute ⟨b :: written⟩ = false := by simp [Path.isAbsolute, slash]
      simp only [Path.components, relative, split, List.head?_cons, Bool.false_eq_true,
        if_false] at equal
      split at equal
      · simp at equal
      · rename_i dotless
        have busy : Path.isIdle (b :: part) = false := by simpa [Path.isIdle] using dotless
        simp only [List.filterMap_cons, Path.component?, busy, Bool.false_eq_true,
          if_false] at equal
        split at equal
        · rename_i none
          split at none <;> simp at none
        · rename_i component some
          obtain ⟨rfl, -⟩ := List.cons.inj equal
          split at some
          · simp at some
          · exact differs (List.cons.inj (Component.name.inj (Option.some.inj some))).1

/-! ## A file and its text -/

/-- What is pending if only one file is checked. -/
def pendingOf (style : CallStyle) (path : Path) (source : Text) : List Report :=
  if (lower style source).output = source then []
  else [⟨path, (lower style source).statements, true, false⟩]

theorem pendingOf_eq_nil_iff {style : CallStyle} {path : Path} {source : Text} :
    pendingOf style path source = [] ↔ (lower style source).output = source := by
  rw [pendingOf]
  split <;> simp [*]

theorem filter_changed (style : CallStyle) (path : Path) (source : Text) :
    List.filter Report.changed
      [⟨path, (lower style source).statements, (lower style source).changed, false⟩] =
        pendingOf style path source := by
  rw [pendingOf]
  split
  · rename_i same
    have unchanged := lower_unchanged_iff.mpr same
    simp [unchanged]
  · rename_i differs
    have changed := lower_changed_iff.mpr differs
    simp [changed]

/-- The path leads to a regular file at the place, and the file holds the text. -/
structure Disk.Holds (disk : Disk) (path : Path) (place : Place) (source : Text) : Prop where
  leads : disk.resolve path = .ok place
  file : disk.find? place = some (.file (Utf8.encode source))

namespace Disk.Holds

variable {disk : Disk} {path : Path} {place : Place} {source : Text}
  (holds : disk.Holds path place source)
include holds

theorem readText : disk.readText path = .ok source := by
  have read : disk.read path = .ok (Utf8.encode source) :=
    read_eq_ok_iff.mpr ⟨place, holds.leads, holds.file⟩
  rw [Disk.readText, read]
  simp only [Utf8.decode?_encode]

theorem fileAt? : disk.fileAt? path = some place :=
  fileAt?_eq_some_iff.mpr ⟨holds.leads, _, holds.file⟩

/-- A file stands for itself. -/
theorem collect (extensions : List Text) : disk.collect extensions [path] = ([], .ok [path]) := by
  have found : disk.discover extensions path = .ok ([path], []) := by
    simp only [discover, holds.leads, holds.file]
  simp [Disk.collect, collectAfter, found, addPaths]

theorem outcome (lowering : Text → Lowered) (write : Bool) :
    disk.outcome lowering write path =
      if write && (lowering source).changed && disk.isLocked path then
        .error (.unwritable path .denied)
      else
        .ok ⟨path, (lowering source).statements, (lowering source).changed,
          write && (lowering source).changed⟩ := by
  rw [Disk.outcome, holds.readText]

theorem rewriting? (lowering : Text → Lowered) :
    disk.rewriting? lowering path =
      if (lowering source).changed && !disk.isLocked path then
        some (place, Utf8.encode (lowering source).output)
      else none := by
  rw [Disk.rewriting?, holds.readText, holds.fileAt?]
  rfl

/-- A converted file holds the lowered text, and nothing else is changed. -/
theorem convertFile (style : CallStyle) (free : disk.isLocked path = false) :
    (disk.convertFile (lower style) true path).disk.Holds path place (lower style source).output ∧
      ∀ other ≠ place,
        (disk.convertFile (lower style) true path).disk.find? other = disk.find? other := by
  have there : (disk.convertFile (lower style) true path).disk.fileAt? path = some place := by
    rw [fileAt?_convertFile, holds.fileAt?]
  have leads := (fileAt?_eq_some_iff.mp there).1
  suffices content : (disk.convertFile (lower style) true path).disk.find? place =
        some (.file (Utf8.encode (lower style source).output)) ∧
      ∀ other ≠ place,
        (disk.convertFile (lower style) true path).disk.find? other = disk.find? other from
    ⟨⟨leads, content.1⟩, content.2⟩
  have below := ne_nil_of_file holds.file
  rw [(convertFile_eq disk (lower style) path).2, holds.rewriting?, free]
  by_cases same : (lower style source).output = source
  · have unchanged := lower_unchanged_iff.mpr same
    rw [unchanged, Bool.false_and, if_neg Bool.false_ne_true, rewritten, same]
    exact ⟨holds.file, fun _ _ => rfl⟩
  · have changed := lower_changed_iff.mpr same
    rw [changed, Bool.true_and, Bool.not_false, if_pos rfl, rewritten]
    exact ⟨by rw [find?_put below, if_pos rfl],
      fun other differs => by rw [find?_put below, if_neg differs]⟩

theorem convertInPlace (style : CallStyle) (extensions : List Text)
    (free : disk.isLocked path = false) :
    ∃ events, disk.convertInPlace style extensions [path] =
      { disk := (disk.convertFile (lower style) true path).disk, events } := by
  have result := (convertFile_eq disk (lower style) path).1.trans (holds.outcome (lower style) true)
  rw [free, Bool.and_false, if_neg Bool.false_ne_true] at result
  refine ⟨(disk.convertInPlace style extensions [path]).events, ?_⟩
  simp [Disk.convertInPlace, holds.collect, convertFiles, result]

/-- A locked file stays as it is. If its text would become another one, this is reported. -/
theorem convertInPlace_locked (style : CallStyle) (extensions : List Text)
    (locked : disk.isLocked path = true) :
    ∃ events, disk.convertInPlace style extensions [path] =
      if (lower style source).output = source then { disk, events }
      else .failed disk events (.unconverted 1) := by
  have kept := (convertFile_eq disk (lower style) path).2
  rw [holds.rewriting?, locked, Bool.not_true, Bool.and_false, if_neg Bool.false_ne_true] at kept
  have result := (convertFile_eq disk (lower style) path).1.trans (holds.outcome (lower style) true)
  refine ⟨(disk.convertInPlace style extensions [path]).events, ?_⟩
  by_cases same : (lower style source).output = source
  · have unchanged := lower_unchanged_iff.mpr same
    rw [unchanged] at result
    simp [Disk.convertInPlace, holds.collect, convertFiles, result, kept, rewritten, same]
  · have changed := lower_changed_iff.mpr same
    rw [changed, locked] at result
    simp [Disk.convertInPlace, holds.collect, convertFiles, result, kept, rewritten, same,
      Outcome.failed]

theorem runCheck (settings : Settings) (format : ReportFormat) (receiver : Option Text) :
    ∃ events, disk.runCheck settings [path] format receiver =
      match pendingList? format (pendingOf (settings.style receiver) path source) with
      | none => .failed disk events .unlistable
      | some output =>
        { disk
          exit := if (lower (settings.style receiver) source).output = source then 0 else 1
          output
          events } := by
  obtain ⟨kept, results⟩ := disk.convertFiles_false (lower (settings.style receiver)) [path]
  rw [List.map_singleton, holds.outcome, Bool.false_and, Bool.false_and,
    if_neg Bool.false_ne_true] at results
  simp only [Disk.runCheck, holds.collect, results, reportsOf, Except.map, kept, filter_changed,
    pendingOf_eq_nil_iff]
  cases pendingList? format (pendingOf (settings.style receiver) path source) with
  | none => exact ⟨_, rfl⟩
  | some output => exact ⟨_, rfl⟩

end Disk.Holds

/-! ## Listed files -/

/-- A path that is a text is shown as it is. -/
theorem Path.shown_eq_of_text? {path : Path} {text : Text} (textual : path.text? = some text) :
    path.shown = text := by
  rw [Path.shown, Utf8.decode?_eq_some_iff.mp textual, Utf8.lossy_encode]

/-- The list of the files that are not converted yet names a file. -/
def Names (format : ReportFormat) (list : Text) (path : Path) : Prop :=
  match format with
  | .text => path.shown ++ ": ".toList <:+: list
  | .json => "\"path\": ".toList ++ jsonString path.shown <:+: list

/-- A list of this format can name the file: an array only names paths that are texts. -/
def Listable (format : ReportFormat) (path : Path) : Prop :=
  format = .json → path.text? ≠ none

theorem pendingList?_nil (format : ReportFormat) :
    ∃ list, Disk.pendingList? format [] = some list ∧ ∀ path, ¬ Names format list path := by
  cases format with
  | text =>
    refine ⟨[], rfl, fun path names => ?_⟩
    have empty : path.shown ++ ": ".toList = [] := List.infix_nil.mp names
    simp at empty
  | json =>
    refine ⟨"[]\n".toList, rfl, fun path names => ?_⟩
    have quote : '"' ∈ "[]\n".toList := names.subset (by simp)
    exact absurd quote (by decide)

theorem exists_intercalate_eq (separator first : Text) (others : List Text) :
    ∃ back, List.intercalate separator (first :: others) = first ++ back := by
  cases others with
  | nil => exact ⟨[], by simp⟩
  | cons next others =>
    exact ⟨separator ++ List.intercalate separator (next :: others), by simp [List.intercalate]⟩

theorem pendingList?_singleton {format : ReportFormat} (report : Report)
    (listable : Listable format report.path) :
    ∃ list, Disk.pendingList? format [report] = some list ∧ Names format list report.path := by
  cases format with
  | text =>
    refine ⟨_, rfl, [],
      Text.ofNat report.statements ++ " convertible return statements\n".toList, ?_⟩
    simp [Disk.pendingLine]
  | json =>
    obtain ⟨text, textual⟩ := Option.ne_none_iff_exists'.mp (listable rfl)
    obtain ⟨others, json⟩ : ∃ others, report.json? = some ("  \x7b\n".toList ++
        List.intercalate ",\n".toList
          (("    \"path\": ".toList ++ jsonString text) :: others) ++ "\n  \x7d".toList) := by
      rw [Report.json?, Report.members?, textual]
      exact ⟨_, rfl⟩
    obtain ⟨back, members⟩ := exists_intercalate_eq ",\n".toList
      ("    \"path\": ".toList ++ jsonString text) others
    rw [members] at json
    have written : Disk.pendingList? .json [report] = some ("[\n  \x7b\n    ".toList ++
        ("\"path\": ".toList ++ jsonString text) ++ (back ++ "\n  \x7d\n]\n".toList)) := by
      simp [Disk.pendingList?, jsonReports?, json]
    refine ⟨_, written, "[\n  \x7b\n    ".toList, back ++ "\n  \x7d\n]\n".toList, ?_⟩
    rw [Path.shown_eq_of_text? textual]

theorem pendingList?_singleton_eq_none {format : ReportFormat} {report : Report}
    (unlistable : ¬ Listable format report.path) : Disk.pendingList? format [report] = none := by
  obtain ⟨rfl, untextual⟩ : format = .json ∧ report.path.text? = none := by
    simpa [Listable] using unlistable
  simp [Disk.pendingList?, jsonReports?, Report.json?, Report.members?, untextual]

/-! ## Whole runs -/

section Run

variable {disk : Disk} {given : Given} {settingsPath : Path} {settings : Settings}
  {loaded : List Event} {arguments : List Bytes}

/-- A run on a command line does the task, and shows some of what happened. -/
theorem CommandLine.run?_eq {scope : Scope} {task : Task} {input : Bytes} {outcome : Outcome}
    (line : CommandLine scope given settingsPath arguments) (asked : given.task? scope = some task)
    (ran : ∀ verbose, disk.runTask input ⟨task, settingsPath, verbose⟩ = outcome.after loaded) :
    ∃ events, disk.run? input arguments = some { outcome with events } := by
  obtain ⟨verbose, parsed⟩ := line.parse? asked
  refine ⟨(outcome.after loaded).events.filter (Event.isShown verbose), ?_⟩
  simp only [Disk.run?, parsed, Option.map_some, Disk.runInvocation, ran, Outcome.after]

theorem CommandLine.run?_convert (line : CommandLine .convert given settingsPath arguments)
    (named : given.paths ≠ []) (valid : disk.loadSettings settingsPath = .ok (settings, loaded))
    (input : Bytes) :
    ∃ events, disk.run? input arguments = some
      { disk.runConvert input settings given.paths given.toOutput given.receiver with events } := by
  have ran : ∀ verbose, disk.runTask input
      ⟨.convert given.paths given.toOutput given.receiver, settingsPath, verbose⟩ =
        (disk.runConvert input settings given.paths given.toOutput given.receiver).after loaded :=
    fun _ => by simp only [Disk.runTask, valid]
  exact line.run?_eq (if_neg named) ran

theorem CommandLine.run?_check (line : CommandLine .check given settingsPath arguments)
    (named : given.paths ≠ []) (valid : disk.loadSettings settingsPath = .ok (settings, loaded))
    (input : Bytes) :
    ∃ events, disk.run? input arguments = some
      { disk.runCheck settings given.paths (given.format.getD .text) given.receiver with
        events } := by
  have ran : ∀ verbose, disk.runTask input
      ⟨.check given.paths (given.format.getD .text) given.receiver, settingsPath, verbose⟩ =
        (disk.runCheck settings given.paths (given.format.getD .text)
          given.receiver).after loaded :=
    fun _ => by simp only [Disk.runTask, valid]
  exact line.run?_eq (if_neg named) ran

end Run

/-- A command line for a task on one path. -/
structure RunsOn (scope : Scope) (settings : Path) (receiver : Option Text) (path : Path)
    (given : Given) (arguments : List Bytes) : Prop where
  line : CommandLine scope given settings arguments
  alone : given.paths = [path]
  receiver : given.receiver = receiver

section Agreement

variable {disk : Disk} {path : Path} {place : Place} {source : Text} {settingsPath : Path}
  {settings : Settings} {loaded : List Event}
  (valid : disk.loadSettings settingsPath = .ok (settings, loaded)) {receiver : Option Text}
  {given : Given} {arguments : List Bytes}
include valid

/-- In place, the file is converted unless it is locked. A locked file stays as it is, which fails
if its text would become another one. -/
theorem Disk.Holds.run?_inPlace (holds : disk.Holds path place source)
    (plain : path.bytes.head? ≠ some (byte '-'))
    (runs : RunsOn .convert settingsPath receiver path given arguments)
    (inPlace : given.toOutput = false) (input : Bytes) :
    ∃ outcome, disk.run? input arguments = some outcome ∧
      (disk.isLocked path = false → outcome.exit = 0 ∧ outcome.error = none ∧
        outcome.disk.Holds path place (lower (settings.style receiver) source).output ∧
        ∀ other ≠ place, outcome.disk.find? other = disk.find? other) ∧
      (disk.isLocked path = true → outcome.disk = disk ∧
        ((lower (settings.style receiver) source).output = source →
          outcome.exit = 0 ∧ outcome.error = none) ∧
        ((lower (settings.style receiver) source).output ≠ source →
          outcome.exit = 1 ∧ outcome.error = some (.unconverted 1))) := by
  obtain ⟨line, alone, rfl⟩ := runs
  have aside := Path.same_inputPath_eq_false plain
  obtain ⟨events, ran⟩ := line.run?_convert (by simp [alone]) valid input
  refine ⟨_, ran, fun free => ?_, fun locked => ?_⟩
  · obtain ⟨shown, converted⟩ :=
      holds.convertInPlace (settings.style given.receiver) settings.extensions free
    obtain ⟨held, kept⟩ := holds.convertFile (settings.style given.receiver) free
    simp only [alone, inPlace, runConvert, aside, Bool.false_eq_true, if_false, converted]
    exact ⟨trivial, trivial, held, kept⟩
  · obtain ⟨shown, converted⟩ :=
      holds.convertInPlace_locked (settings.style given.receiver) settings.extensions locked
    simp only [alone, inPlace, runConvert, aside, Bool.false_eq_true, if_false, converted]
    split
    · rename_i same
      exact ⟨rfl, fun _ => ⟨rfl, rfl⟩, fun differs => absurd same differs⟩
    · rename_i differs
      exact ⟨rfl, fun same => absurd same differs, fun _ => ⟨rfl, rfl⟩⟩

theorem Disk.Holds.run?_toOutput (holds : disk.Holds path place source)
    (plain : path.bytes.head? ≠ some (byte '-'))
    (runs : RunsOn .convert settingsPath receiver path given arguments)
    (toOutput : given.toOutput = true) (input : Bytes) :
    ∃ outcome, disk.run? input arguments = some outcome ∧ outcome.exit = 0 ∧
      outcome.output = (lower (settings.style receiver) source).output ∧ outcome.disk = disk := by
  obtain ⟨line, alone, rfl⟩ := runs
  have aside := Path.same_inputPath_eq_false plain
  obtain ⟨events, ran⟩ := line.run?_convert (by simp [alone]) valid input
  refine ⟨_, ran, ?_⟩
  simp [alone, toOutput, runConvert, aside, convertToOutput, holds.readText]

theorem Disk.run?_fromInput (source : Text)
    (runs : RunsOn .convert settingsPath receiver inputPath given arguments) :
    ∃ outcome, disk.run? (Utf8.encode source) arguments = some outcome ∧ outcome.exit = 0 ∧
      outcome.output = (lower (settings.style receiver) source).output ∧ outcome.disk = disk := by
  obtain ⟨line, alone, rfl⟩ := runs
  obtain ⟨events, ran⟩ := line.run?_convert (by simp [alone]) valid (Utf8.encode source)
  have itself : inputPath.same inputPath = true := by decide
  refine ⟨_, ran, ?_⟩
  cases toOutput : given.toOutput <;>
    simp [alone, runConvert, itself, convertInput, Utf8.decode?_encode]

/-- A check tells whether the text would become another one, and lists the file then. An array that
has to name a path that is no text cannot be written. -/
theorem Disk.Holds.run?_check (holds : disk.Holds path place source)
    (runs : RunsOn .check settingsPath receiver path given arguments) (input : Bytes) :
    ∃ outcome, disk.run? input arguments = some outcome ∧ outcome.disk = disk ∧
      outcome.exit =
        (if (lower (settings.style receiver) source).output = source then 0 else 1) ∧
      (Listable (given.format.getD .text) path ∨
          (lower (settings.style receiver) source).output = source →
        outcome.error = none ∧
        pendingList? (given.format.getD .text)
          (pendingOf (settings.style receiver) path source) = some outcome.output ∧
        (Names (given.format.getD .text) outcome.output path ↔
          (lower (settings.style receiver) source).output ≠ source)) ∧
      (¬ Listable (given.format.getD .text) path →
        (lower (settings.style receiver) source).output ≠ source →
          outcome.error = some .unlistable ∧ outcome.output = []) := by
  obtain ⟨line, alone, rfl⟩ := runs
  obtain ⟨events, ran⟩ := line.run?_check (by simp [alone]) valid input
  obtain ⟨shown, checked⟩ := holds.runCheck settings (given.format.getD .text) given.receiver
  refine ⟨_, ran, ?_⟩
  rw [alone, checked]
  by_cases same : (lower (settings.style given.receiver) source).output = source
  · obtain ⟨list, written, unnamed⟩ := pendingList?_nil (given.format.getD .text)
    rw [pendingOf_eq_nil_iff.mpr same, written, if_pos same]
    exact ⟨rfl, rfl,
      fun _ => ⟨rfl, rfl, iff_of_false (unnamed path) fun differs => differs same⟩,
      fun _ differs => absurd same differs⟩
  · rw [pendingOf, if_neg same, if_neg same]
    by_cases listable : Listable (given.format.getD .text) path
    · obtain ⟨list, written, named⟩ := pendingList?_singleton
        ⟨path, (lower (settings.style given.receiver) source).statements, true, false⟩ listable
      rw [written]
      exact ⟨rfl, rfl, fun _ => ⟨rfl, rfl, iff_of_true named same⟩,
        fun unlistable => absurd listable unlistable⟩
    · rw [pendingList?_singleton_eq_none listable]
      exact ⟨rfl, rfl, fun able => absurd able (not_or.mpr ⟨listable, same⟩),
        fun _ _ => ⟨rfl, rfl⟩⟩

/-- All ways to run the program on one text agree: in place, to the output and from the input it is
converted to the lowered text, and a check tells whether this text is another one. Only a file that
is locked is not converted in place, and only an array does not list a path that is no text. -/
theorem Disk.run?_agree (holds : disk.Holds path place source)
    (plain : path.bytes.head? ≠ some (byte '-')) (receiver : Option Text) :
    (∀ given arguments input, RunsOn .convert settingsPath receiver path given arguments →
        given.toOutput = false → ∃ outcome, disk.run? input arguments = some outcome ∧
          (disk.isLocked path = false → outcome.exit = 0 ∧ outcome.error = none ∧
            outcome.disk.Holds path place (lower (settings.style receiver) source).output ∧
            ∀ other ≠ place, outcome.disk.find? other = disk.find? other) ∧
          (disk.isLocked path = true → outcome.disk = disk ∧
            ((lower (settings.style receiver) source).output = source →
              outcome.exit = 0 ∧ outcome.error = none) ∧
            ((lower (settings.style receiver) source).output ≠ source →
              outcome.exit = 1 ∧ outcome.error = some (.unconverted 1)))) ∧
      (∀ given arguments input, RunsOn .convert settingsPath receiver path given arguments →
        given.toOutput = true → ∃ outcome, disk.run? input arguments = some outcome ∧
          outcome.exit = 0 ∧ outcome.output = (lower (settings.style receiver) source).output ∧
          outcome.disk = disk) ∧
      (∀ given arguments, RunsOn .convert settingsPath receiver inputPath given arguments →
        ∃ outcome, disk.run? (Utf8.encode source) arguments = some outcome ∧
          outcome.exit = 0 ∧ outcome.output = (lower (settings.style receiver) source).output ∧
          outcome.disk = disk) ∧
      (∀ given arguments input, RunsOn .check settingsPath receiver path given arguments →
        ∃ outcome, disk.run? input arguments = some outcome ∧ outcome.disk = disk ∧
          outcome.exit =
            (if (lower (settings.style receiver) source).output = source then 0 else 1) ∧
          (Listable (given.format.getD .text) path ∨
              (lower (settings.style receiver) source).output = source →
            outcome.error = none ∧
            pendingList? (given.format.getD .text)
              (pendingOf (settings.style receiver) path source) = some outcome.output ∧
            (Names (given.format.getD .text) outcome.output path ↔
              (lower (settings.style receiver) source).output ≠ source)) ∧
          (¬ Listable (given.format.getD .text) path →
            (lower (settings.style receiver) source).output ≠ source →
              outcome.error = some .unlistable ∧ outcome.output = [])) :=
  ⟨fun _ _ input runs inPlace => holds.run?_inPlace valid plain runs inPlace input,
    fun _ _ input runs toOutput => holds.run?_toOutput valid plain runs toOutput input,
    fun _ _ runs => run?_fromInput valid source runs,
    fun _ _ input runs => holds.run?_check valid runs input⟩

end Agreement

/-- A link to a source, a locked source, a source with a name that is no text, and a settings
file. -/
def projectDisk : Disk where
  entries := [
    ([bytes "a"], .file (Utf8.encode "return <b>x</b>;\n".toList)),
    ([bytes "k"], .file (Utf8.encode "return <b>x</b>;\n".toList)),
    ([[0xFF]], .file (Utf8.encode "return <b>x</b>;\n".toList)),
    ([bytes "l"], .link ⟨bytes "a"⟩),
    ([bytes "s"], .file (Utf8.encode "convert = ['h']".toList))]
  locked := [[bytes "k"]]

theorem resolve_projectDisk :
    projectDisk.resolve ⟨bytes "l"⟩ = .ok [bytes "a"] ∧
      projectDisk.resolve ⟨bytes "k"⟩ = .ok [bytes "k"] ∧
      projectDisk.resolve ⟨[0xFF]⟩ = .ok [[0xFF]] ∧
      projectDisk.resolve ⟨bytes "s"⟩ = .ok [bytes "s"] := by
  refine ⟨?_, Disk.follow_file rfl rfl (by decide) 40, Disk.follow_file rfl rfl (by decide) 40,
    Disk.follow_file rfl rfl (by decide) 40⟩
  change projectDisk.follow .use 40 [] [bytes "l"] = _
  rw [Disk.follow]
  exact Disk.follow_file rfl rfl (by decide) 39

theorem holds_projectDisk :
    projectDisk.Holds ⟨bytes "l"⟩ [bytes "a"] "return <b>x</b>;\n".toList ∧
      projectDisk.Holds ⟨bytes "k"⟩ [bytes "k"] "return <b>x</b>;\n".toList ∧
      projectDisk.Holds ⟨[0xFF]⟩ [[0xFF]] "return <b>x</b>;\n".toList := by
  obtain ⟨linked, locked, strange, -⟩ := resolve_projectDisk
  exact ⟨⟨linked, rfl⟩, ⟨locked, rfl⟩, ⟨strange, rfl⟩⟩

theorem isLocked_projectDisk :
    projectDisk.isLocked ⟨bytes "l"⟩ = false ∧ projectDisk.isLocked ⟨bytes "k"⟩ = true := by
  obtain ⟨linked, locked, -⟩ := holds_projectDisk
  rw [Disk.isLocked, Disk.isLocked, linked.fileAt?, locked.fileAt?]
  decide

theorem loadSettings_projectDisk :
    projectDisk.loadSettings ⟨bytes "s"⟩ =
      .ok ({ receiver := ['h'] }, [.settingsRead ⟨bytes "s"⟩]) := by
  have found : projectDisk.find? [bytes "s"] =
    some (.file (Utf8.encode "convert = ['h']".toList)) := rfl
  have parsed : Settings.parse? "convert = ['h']".toList = some { receiver := ['h'] } := by
    decide +kernel
  obtain ⟨-, -, -, led⟩ := resolve_projectDisk
  simp only [Disk.loadSettings, Disk.has, Disk.readText, Disk.read, led, found,
    Utf8.decode?_encode, parsed]
  rfl

theorem runsOn_convert {b : UInt8} (plain : Given.isSwitch [b] = false) :
    RunsOn .convert ⟨bytes "s"⟩ none ⟨[b]⟩ { paths := [⟨[b]⟩], settings := some ⟨bytes "s"⟩ }
      [bytes "convert", [b], bytes "-cs"] := by
  have settings : Switch.settings.Written (bytes "s") [bytes "-cs"] :=
    .letterBefore rfl (by decide) (by decide)
  exact ⟨⟨[], [[b], bytes "-cs"], {}, rfl, .nothing _,
    .path plain rfl (.value (by decide) rfl settings rfl (.nothing _)), rfl⟩, rfl, rfl⟩

theorem runsOn_check {b : UInt8} (plain : Given.isSwitch [b] = false) :
    RunsOn .check ⟨bytes "s"⟩ none ⟨[b]⟩ { paths := [⟨[b]⟩], format := some .json }
      [bytes "-c=s", bytes "check", bytes "--format", bytes "json", [b]] := by
  have settings : Switch.settings.Written (bytes "s") [bytes "-c=s"] := .letterJoined rfl
  have format : Switch.format.Written (bytes "json") [bytes "--format", bytes "json"] :=
    .apart (by decide)
  exact ⟨⟨[bytes "-c=s"], [bytes "--format", bytes "json", [b]],
    { settings := some ⟨bytes "s"⟩ }, rfl, .value (by decide) rfl settings rfl (.nothing _),
    .value (by decide) rfl format rfl (.path plain rfl (.nothing _)), rfl⟩, rfl, rfl⟩

theorem output_projectDisk :
    (lower (Settings.style { receiver := ['h'] } none) "return <b>x</b>;\n".toList).output =
      "return h.createElement(\n    'b',\n    null,\n    'x'\n  );\n".toList := by
  decide +kernel

/-- The link is converted and checked in all ways, and the locked source cannot be converted. -/
theorem Disk.run?_agree_projectDisk :
    (∃ outcome, projectDisk.run? [] (["convert", "l", "-cs"].map bytes) = some outcome ∧
        outcome.exit = 0 ∧ outcome.disk.Holds ⟨bytes "l"⟩ [bytes "a"]
          "return h.createElement(\n    'b',\n    null,\n    'x'\n  );\n".toList) ∧
      (∃ outcome, projectDisk.run? []
          (["--config=s", "convert", "--stdout", "-n", "P", "l"].map bytes) = some outcome ∧
        outcome.exit = 0 ∧ outcome.disk = projectDisk ∧ outcome.output =
          "return P.createElement(\n    'b',\n    null,\n    'x'\n  );\n".toList) ∧
      (∃ outcome, projectDisk.run? (Utf8.encode "return <b>x</b>;\n".toList)
          (["convert", "--namespace=P", "-", "-c", "s"].map bytes) = some outcome ∧
        outcome.exit = 0 ∧ outcome.disk = projectDisk ∧ outcome.output =
          "return P.createElement(\n    'b',\n    null,\n    'x'\n  );\n".toList) ∧
      (∃ outcome, projectDisk.run? [] (["-c=s", "check", "--format", "json", "l"].map bytes) =
          some outcome ∧
        outcome.exit = 1 ∧ outcome.disk = projectDisk ∧
          Names .json outcome.output ⟨bytes "l"⟩) ∧
      ∃ outcome, projectDisk.run? [] (["convert", "k", "-cs"].map bytes) = some outcome ∧
        outcome.exit = 1 ∧ outcome.disk = projectDisk ∧
          outcome.error = some (.unconverted 1) := by
  obtain ⟨linked, locked, -⟩ := holds_projectDisk
  have other : (lower (Settings.style { receiver := ['h'] } (some ['P']))
      "return <b>x</b>;\n".toList).output =
        "return P.createElement(\n    'b',\n    null,\n    'x'\n  );\n".toList := by
    decide +kernel
  have agree {path : Path} {place : Place}
      (holds : projectDisk.Holds path place "return <b>x</b>;\n".toList)
      (plain : path.bytes.head? ≠ some (byte '-')) :=
    run?_agree loadSettings_projectDisk holds plain none
  have agreeOther := run?_agree loadSettings_projectDisk linked (by decide) (some ['P'])
  rw [output_projectDisk] at agree
  rw [other] at agreeOther
  obtain ⟨-, toOutput, fromInput, -⟩ := agreeOther
  have receive {given : Given} (free : given.receiver = none) :
      given.set? .receiver (bytes "P") = some { given with receiver := some ['P'] } := by
    simp [Given.set?, free, bytes, Utf8.decode?_encode]
  refine ⟨?_, ?_, ?_, ?_, ?_⟩
  · obtain ⟨outcome, ran, converted, -⟩ :=
      (agree linked (by decide)).1 _ _ [] (runsOn_convert (by decide)) rfl
    obtain ⟨exit, -, held, -⟩ := converted isLocked_projectDisk.1
    exact ⟨outcome, ran, exit, held⟩
  · have settings : Switch.settings.Written (bytes "s") [bytes "--config=s"] := .joined
    have receiver : Switch.receiver.Written (bytes "P") [bytes "-n", bytes "P"] :=
      .letterApart rfl (by decide)
    have line : CommandLine .convert
        { paths := [⟨bytes "l"⟩], toOutput := true, receiver := some ['P'] } ⟨bytes "s"⟩
        (["--config=s", "convert", "--stdout", "-n", "P", "l"].map bytes) :=
      ⟨[bytes "--config=s"], ["--stdout", "-n", "P", "l"].map bytes,
        { settings := some ⟨bytes "s"⟩ }, rfl,
        .value (by decide) rfl settings rfl (.nothing _),
        .flag (by decide) rfl (by decide) (.long : Switch.toOutput.WrittenFlag _) rfl
          (.value (by decide) rfl receiver (receive rfl)
            (.path (by decide) rfl (.nothing _))), rfl⟩
    obtain ⟨outcome, ran, exit, output, kept⟩ := toOutput _ _ [] ⟨line, rfl, rfl⟩ rfl
    exact ⟨outcome, ran, exit, kept, output⟩
  · have settings : Switch.settings.Written (bytes "s") [bytes "-c", bytes "s"] :=
      .letterApart rfl (by decide)
    have receiver : Switch.receiver.Written (bytes "P") [bytes "--namespace=P"] := .joined
    have line : CommandLine .convert
        { paths := [Disk.inputPath], settings := some ⟨bytes "s"⟩, receiver := some ['P'] }
        ⟨bytes "s"⟩ (["convert", "--namespace=P", "-", "-c", "s"].map bytes) :=
      ⟨[], ["--namespace=P", "-", "-c", "s"].map bytes, {}, rfl, .nothing _,
        .value (by decide) rfl receiver (receive rfl)
          (.path (by decide) rfl (.value (by decide) rfl settings rfl (.nothing _))), rfl⟩
    obtain ⟨outcome, ran, exit, output, kept⟩ := fromInput _ _ ⟨line, rfl, rfl⟩
    exact ⟨outcome, ran, exit, kept, output⟩
  · obtain ⟨outcome, ran, kept, exit, listed, -⟩ :=
      (agree linked (by decide)).2.2.2 _ _ [] (runsOn_check (by decide))
    have textual : Path.text? ⟨bytes "l"⟩ ≠ none := by decide +kernel
    obtain ⟨-, -, named⟩ := listed (.inl fun _ => textual)
    exact ⟨outcome, ran, exit, kept, named.mpr (by decide)⟩
  · obtain ⟨outcome, ran, -, failed⟩ :=
      (agree locked (by decide)).1 _ _ [] (runsOn_convert (by decide)) rfl
    obtain ⟨kept, -, reported⟩ := failed isLocked_projectDisk.2
    obtain ⟨exit, error⟩ := reported (by decide)
    exact ⟨outcome, ran, exit, kept, error⟩

theorem output_projectDisk_ne :
    (lower (Settings.style { receiver := ['h'] } none) "return <b>x</b>;\n".toList).output ≠
      "return <b>x</b>;\n".toList := by
  rw [output_projectDisk]
  decide

/-- The source with a name that is no text would become another one, and it is listed as a line, but
not in an array. A source cannot be read by a path that leads to it but is too long. -/
theorem Disk.run?_disagree_projectDisk :
    projectDisk.Holds ⟨[0xFF]⟩ [[0xFF]] "return <b>x</b>;\n".toList ∧
      (lower (Settings.style { receiver := ['h'] } none) "return <b>x</b>;\n".toList).output ≠
        "return <b>x</b>;\n".toList ∧
      (∃ outcome, projectDisk.run? [] [bytes "check", [0xFF], bytes "-cs"] = some outcome ∧
        outcome.exit = 1 ∧ Names .text outcome.output ⟨[0xFF]⟩) ∧
      (∃ outcome, projectDisk.run? []
          (["-c=s", "check", "--format", "json"].map bytes ++ [[0xFF]]) = some outcome ∧
        outcome.exit = 1 ∧ outcome.output = [] ∧ outcome.error = some .unlistable) ∧
      projectDisk.follow .use linkLimit [] (Path.behindDots ⟨bytes "a"⟩ 2048).parts =
        .ok [bytes "a"] ∧
      ∃ outcome, projectDisk.run? []
          [bytes "convert", bytes "--stdout", (Path.behindDots ⟨bytes "a"⟩ 2048).bytes,
            bytes "-cs"] = some outcome ∧
        outcome.exit = 1 ∧ outcome.output = [] ∧ outcome.error =
          some (.sourceUnreadable (Path.behindDots ⟨bytes "a"⟩ 2048) (.disk .tooLong)) := by
  obtain ⟨-, -, strange⟩ := holds_projectDisk
  have settings : Switch.settings.Written (bytes "s") [bytes "-cs"] :=
    .letterBefore rfl (by decide) (by decide)
  refine ⟨strange, output_projectDisk_ne, ?_, ?_, ?_, ?_⟩
  · have line : CommandLine .check { paths := [⟨[0xFF]⟩], settings := some ⟨bytes "s"⟩ }
        ⟨bytes "s"⟩ [bytes "check", [0xFF], bytes "-cs"] :=
      ⟨[], [[0xFF], bytes "-cs"], {}, rfl, .nothing _,
        .path (by decide) rfl (.value (by decide) rfl settings rfl (.nothing _)), rfl⟩
    obtain ⟨outcome, ran, -, exit, listed, -⟩ :=
      strange.run?_check loadSettings_projectDisk ⟨line, rfl, rfl⟩ []
    obtain ⟨-, -, named⟩ := listed (.inl fun json => nomatch json)
    exact ⟨outcome, ran, by rw [exit, if_neg output_projectDisk_ne],
      named.mpr output_projectDisk_ne⟩
  · obtain ⟨outcome, ran, -, exit, -, unlisted⟩ :=
      strange.run?_check loadSettings_projectDisk (runsOn_check (by decide)) []
    have untextual : Path.text? ⟨[0xFF]⟩ = none := by decide +kernel
    obtain ⟨error, output⟩ :=
      unlisted (fun listable => listable rfl untextual) output_projectDisk_ne
    exact ⟨outcome, ran, by rw [exit, if_neg output_projectDisk_ne], output, error⟩
  · rw [follow_behindDots rfl]
    exact follow_file rfl rfl (by decide) 40
  · have long : (Path.behindDots ⟨bytes "a"⟩ 2048).fault? = some .tooLong :=
      Path.fault?_behindDots (by decide) (by decide)
    have line : CommandLine .convert
        { paths := [Path.behindDots ⟨bytes "a"⟩ 2048], toOutput := true,
          settings := some ⟨bytes "s"⟩ } ⟨bytes "s"⟩
        [bytes "convert", bytes "--stdout", (Path.behindDots ⟨bytes "a"⟩ 2048).bytes,
          bytes "-cs"] :=
      ⟨[], [bytes "--stdout", (Path.behindDots ⟨bytes "a"⟩ 2048).bytes, bytes "-cs"], {}, rfl,
        .nothing _, .flag (by decide) rfl (by decide) (.long : Switch.toOutput.WrittenFlag _) rfl
          (.path rfl rfl (.value (by decide) rfl settings rfl (.nothing _))), rfl⟩
    obtain ⟨events, ran⟩ := line.run?_convert (List.cons_ne_nil _ _) loadSettings_projectDisk []
    have aside : (Path.behindDots ⟨bytes "a"⟩ 2048).same inputPath = false :=
      Path.same_inputPath_eq_false (by decide)
    refine ⟨_, ran, ?_⟩
    simp only [runConvert, aside, convertToOutput, readText, read, resolve, locate, long]
    exact ⟨rfl, rfl, rfl⟩

end JsxCalls
