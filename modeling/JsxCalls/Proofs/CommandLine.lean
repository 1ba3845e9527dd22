import JsxCalls.Command.Arguments

/-!
# Command lines

The arguments of a task can be written in any order and in several ways: a value may be joined to
its switch or follow it, and most switches have a letter. Reading them has the same result as
setting one switch after another.
-/

namespace JsxCalls

open Utf8 (byte bytes)

namespace Switch

/-- The ways to write a switch with a value. -/
inductive Written (switch : Switch) (value : Bytes) : List Bytes → Prop where
  /-- The value joined: `--switch=value`. -/
  | joined : Written switch value [byte '-' :: byte '-' :: (switch.long ++ byte '=' :: value)]
  /-- The value as the next argument: `--switch value`. -/
  | apart (plain : Given.isSwitch value = false) :
    Written switch value [byte '-' :: byte '-' :: switch.long, value]
  /-- A letter and the value joined: `-s=value`. -/
  | letterJoined {letter : UInt8} (short : switch.short? = some letter) :
    Written switch value [byte '-' :: letter :: byte '=' :: value]
  /-- A letter right before the value: `-svalue`. -/
  | letterBefore {letter : UInt8} (short : switch.short? = some letter) (filled : value ≠ [])
    (other : value.head? ≠ some (byte '=')) : Written switch value [byte '-' :: letter :: value]
  /-- A letter and the value as the next argument: `-s value`. -/
  | letterApart {letter : UInt8} (short : switch.short? = some letter)
    (plain : Given.isSwitch value = false) : Written switch value [[byte '-', letter], value]

/-- The ways to write a switch without a value. -/
inductive WrittenFlag (switch : Switch) : Bytes → Prop where
  /-- The name: `--switch`. -/
  | long : WrittenFlag switch (byte '-' :: byte '-' :: switch.long)
  /-- A letter: `-s`. -/
  | letter {letter : UInt8} (short : switch.short? = some letter) :
    WrittenFlag switch [byte '-', letter]

end Switch

namespace Given

/-- The arguments describe how to get from what has been given to what is given at their end. -/
inductive Described (scope : Scope) : Given → List Bytes → Given → Prop where
  | nothing (given : Given) : Described scope given [] given
  | value {given next last : Given} {switch : Switch} {value : Bytes}
    {written arguments : List Bytes}
    (known : switch ∈ scope.switches) (takes : switch.takesValue = true)
    (spelled : switch.Written value written) (set : given.set? switch value = some next)
    (others : Described scope next arguments last) :
    Described scope given (written ++ arguments) last
  | flag {given next last : Given} {switch : Switch} {argument : Bytes} {arguments : List Bytes}
    (known : switch ∈ scope.switches) (bare : switch.takesValue = false)
    (running : switch ≠ .version) (spelled : switch.WrittenFlag argument)
    (set : given.set? switch [] = some next) (others : Described scope next arguments last) :
    Described scope given (argument :: arguments) last
  | path {given next last : Given} {argument : Bytes} {arguments : List Bytes}
    (plain : isSwitch argument = false) (added : given.addPath? scope argument = some next)
    (others : Described scope next arguments last) :
    Described scope given (argument :: arguments) last

/-! ## Finding switches -/

section Find

variable {scope : Scope} {switch : Switch} (known : switch ∈ scope.switches)
include known

theorem find?_long :
    scope.switches.find? (fun other => other.long = switch.long) = some switch := by
  cases scope <;> cases switch <;> first | rfl | simp [Scope.switches] at known

theorem find?_short {letter : UInt8} (short : switch.short? = some letter) :
    scope.switches.find? (fun other => other.short? = some letter) = some switch := by
  rw [← short]
  cases scope <;> cases switch <;> first | rfl | simp [Scope.switches] at known

end Find

theorem equals_notMem_long (switch : Switch) : byte '=' ∉ switch.long := by
  cases switch <;> decide

theorem long_ne_nil (switch : Switch) : switch.long ≠ [] := by
  cases switch <;> decide

theorem short?_ne_hyphen {switch : Switch} {letter : UInt8} (short : switch.short? = some letter) :
    letter ≠ byte '-' := by
  rintro rfl
  revert short
  cases switch <;> decide

/-! ## Reading one argument -/

section Read

variable {scope : Scope} {switch : Switch} {given : Given} {value : Bytes}

theorem cut_long (switch : Switch) (rest : Bytes)
    (stops : rest.head? = none ∨ rest.head? = some (byte '=')) :
    (switch.long ++ rest).takeWhile (· ≠ byte '=') = switch.long ∧
      (switch.long ++ rest).dropWhile (· ≠ byte '=') = rest := by
  have inside : ∀ b ∈ switch.long, decide (b ≠ byte '=') = true := by
    intro b member
    have differs : b ≠ byte '=' := fun same => equals_notMem_long switch (same ▸ member)
    simp [differs]
  have ends : Text.StopsRun (fun b => decide (b ≠ byte '=')) rest := by
    intro b first
    rcases stops with none | some
    · simp [none] at first
    · rw [some] at first
      obtain rfl : byte '=' = b := Option.some.inj first
      simp
  exact ⟨Text.takeWhile_run inside ends, Text.dropWhile_run inside ends⟩

theorem readLong?_joined (known : switch ∈ scope.switches) (takes : switch.takesValue = true) :
    given.readLong? scope (switch.long ++ byte '=' :: value) =
      (given.set? switch value).map fun given => (given, none) := by
  obtain ⟨name, rest⟩ := cut_long switch (byte '=' :: value) (.inr rfl)
  simp only [readLong?, name, rest, find?_long known, takes, Option.bind_eq_bind, Option.bind_some]

theorem readLong?_apart (known : switch ∈ scope.switches) (takes : switch.takesValue = true) :
    given.readLong? scope switch.long = some (given, some switch) := by
  obtain ⟨name, rest⟩ := cut_long switch [] (.inl rfl)
  rw [List.append_nil] at name rest
  simp only [readLong?, name, rest, find?_long known, takes, Option.bind_eq_bind, Option.bind_some]

theorem readLong?_flag (known : switch ∈ scope.switches) (bare : switch.takesValue = false) :
    given.readLong? scope switch.long =
      (given.set? switch []).map fun given => (given, none) := by
  obtain ⟨name, rest⟩ := cut_long switch [] (.inl rfl)
  rw [List.append_nil] at name rest
  simp only [readLong?, name, rest, find?_long known, bare, Option.bind_eq_bind, Option.bind_some]

variable {letter : UInt8} (short : switch.short? = some letter)
include short

theorem readShort?_apart (known : switch ∈ scope.switches) (takes : switch.takesValue = true) :
    given.readShort? scope [letter] = some (given, some switch) := by
  simp [readShort?, find?_short known short, takes]

theorem readShort?_joined (known : switch ∈ scope.switches) (takes : switch.takesValue = true) :
    given.readShort? scope (letter :: byte '=' :: value) =
      (given.set? switch value).map fun given => (given, none) := by
  simp [readShort?, find?_short known short, takes]

theorem readShort?_before (known : switch ∈ scope.switches) (takes : switch.takesValue = true)
    (filled : value ≠ []) (other : value.head? ≠ some (byte '=')) :
    given.readShort? scope (letter :: value) =
      (given.set? switch value).map fun given => (given, none) := by
  simp [readShort?, find?_short known short, takes, filled, other]

theorem readShort?_flag (known : switch ∈ scope.switches) (bare : switch.takesValue = false)
    {next : Given} (set : given.set? switch [] = some next) :
    given.readShort? scope [letter] = some (next, none) := by
  simp [readShort?, find?_short known short, bare, set]

end Read

/-! ## Reading all arguments -/

section ReadAll

variable {scope : Scope} {given next : Given} {argument value : Bytes} {rest : List Bytes}

theorem readSwitch?_long (body : Bytes) :
    given.readSwitch? scope (byte '-' :: byte '-' :: body) = given.readLong? scope body := by
  simp [readSwitch?]

theorem readSwitch?_letter {letter : UInt8} (other : letter ≠ byte '-') (body : Bytes) :
    given.readSwitch? scope (byte '-' :: letter :: body) =
      given.readShort? scope (letter :: body) := by
  simp [readSwitch?, other]

theorem isSwitch_cons {first : UInt8} (body : Bytes) :
    isSwitch (byte '-' :: first :: body) = true := by
  simp [isSwitch]

theorem read?_of_set {first : UInt8} {body : Bytes} (differs : first :: body ≠ [byte '-'])
    (read : given.readSwitch? scope (byte '-' :: first :: body) = some (next, none))
    (running : next.version = false) :
    read? scope given ((byte '-' :: first :: body) :: rest) = read? scope next rest := by
  have other : ¬ (byte '-' :: first :: body = [byte '-', byte '-'] ∧ scope ≠ .program) :=
    fun both => differs (List.cons.inj both.1).2
  rw [read?, if_neg other, if_pos (isSwitch_cons body), read]
  simp only [running, Bool.false_eq_true, if_false]

theorem read?_of_waiting {first : UInt8} {body : Bytes} {switch : Switch}
    (differs : first :: body ≠ [byte '-'])
    (read : given.readSwitch? scope (byte '-' :: first :: body) = some (given, some switch))
    (running : given.version = false) (plain : isSwitch value = false)
    (set : given.set? switch value = some next) :
    read? scope given ((byte '-' :: first :: body) :: value :: rest) = read? scope next rest := by
  have other : ¬ (byte '-' :: first :: body = [byte '-', byte '-'] ∧ scope ≠ .program) :=
    fun both => differs (List.cons.inj both.1).2
  rw [read?, if_neg other, if_pos (isSwitch_cons body), read]
  simp only [running, plain, set, Bool.false_eq_true, if_false]

theorem read?_path (plain : isSwitch argument = false)
    (added : given.addPath? scope argument = some next) :
    read? scope given (argument :: rest) = read? scope next rest := by
  have inTask : scope ≠ .program := by
    rintro rfl
    simp [addPath?, Scope.takesPaths] at added
  have other : ¬ (argument = [byte '-', byte '-'] ∧ scope ≠ .program) := by
    rintro ⟨rfl, -⟩
    exact absurd plain (by decide)
  rw [read?, if_neg other, if_neg (by simp [plain]), if_neg inTask, added]

/-- Before the name of the task, reading stops at the first argument that is no switch. -/
theorem read?_program (plain : isSwitch argument = false) :
    read? .program given (argument :: rest) = some (given, argument :: rest) := by
  rw [read?, if_neg (fun both => both.2 rfl), if_neg (by simp [plain]), if_pos rfl]

theorem version_set? {switch : Switch} (running : switch ≠ .version)
    (set : given.set? switch value = some next) : next.version = given.version := by
  cases switch with
  | version => exact absurd rfl running
  | settings | receiver | format =>
    simp only [set?] at set
    split at set
    · simp at set
    · obtain ⟨_, -, rfl⟩ := Option.map_eq_some_iff.mp set
      rfl
  | verbose | toOutput | overwrite =>
    simp only [set?] at set
    split at set
    · simp at set
    · obtain rfl := Option.some.inj set
      rfl

theorem version_addPath? (added : given.addPath? scope argument = some next) :
    next.version = given.version := by
  rw [addPath?] at added
  split at added
  · obtain ⟨path, -, rfl⟩ := Option.map_eq_some_iff.mp added
    rfl
  · simp at added

theorem read?_written {switch : Switch} {written : List Bytes} (known : switch ∈ scope.switches)
    (takes : switch.takesValue = true) (spelled : switch.Written value written)
    (set : given.set? switch value = some next) (running : given.version = false) :
    read? scope given (written ++ rest) = read? scope next rest := by
  have going : next.version = false := by
    rw [version_set? (by rintro rfl; simp [Switch.takesValue] at takes) set, running]
  have long_ne : byte '-' :: switch.long ≠ [byte '-'] := by simp [long_ne_nil]
  cases spelled with
  | joined =>
    refine read?_of_set (by simp) ?_ going
    rw [readSwitch?_long, readLong?_joined known takes, set]
    rfl
  | apart plain =>
    refine read?_of_waiting long_ne ?_ running plain set
    rw [readSwitch?_long, readLong?_apart known takes]
  | letterJoined short =>
    refine read?_of_set (by simp) ?_ going
    rw [readSwitch?_letter (short?_ne_hyphen short), readShort?_joined short known takes, set]
    rfl
  | letterBefore short filled other =>
    refine read?_of_set (by simp [filled]) ?_ going
    rw [readSwitch?_letter (short?_ne_hyphen short),
      readShort?_before short known takes filled other, set]
    rfl
  | letterApart short plain =>
    refine read?_of_waiting (by simp [short?_ne_hyphen short]) ?_ running plain set
    rw [readSwitch?_letter (short?_ne_hyphen short), readShort?_apart short known takes]

theorem read?_flag {switch : Switch} (known : switch ∈ scope.switches)
    (bare : switch.takesValue = false) (spelled : switch.WrittenFlag argument)
    (set : given.set? switch [] = some next) (running : next.version = false) :
    read? scope given (argument :: rest) = read? scope next rest := by
  cases spelled with
  | long =>
    refine read?_of_set (by simp [long_ne_nil]) ?_ running
    rw [readSwitch?_long, readLong?_flag known bare, set]
    rfl
  | letter short =>
    refine read?_of_set (by simp [short?_ne_hyphen short]) ?_ running
    rw [readSwitch?_letter (short?_ne_hyphen short), readShort?_flag short known bare set]

/-- Arguments that describe something are read as that. -/
theorem Described.read?_append {last : Given} {arguments : List Bytes}
    (described : Described scope given arguments last) (running : given.version = false)
    (later : List Bytes) :
    read? scope given (arguments ++ later) = read? scope last later ∧ last.version = false := by
  induction described with
  | nothing given => exact ⟨rfl, running⟩
  | value known takes spelled set _ induction =>
    have going := version_set? (by rintro rfl; simp [Switch.takesValue] at takes) set
    rw [List.append_assoc, read?_written known takes spelled set running]
    exact induction (going.trans running)
  | flag known bare unversioned spelled set _ induction =>
    have going := (version_set? unversioned set).trans running
    rw [List.cons_append, read?_flag known bare spelled set going]
    exact induction going
  | path plain added _ induction =>
    rw [List.cons_append, read?_path plain added]
    exact induction ((version_addPath? added).trans running)

end ReadAll

end Given

/-! ## Command lines -/

/-- The name of a task on the command line. -/
def Scope.taskName : Scope → Bytes
  | .program => []
  | .convert => bytes "convert"
  | .check => bytes "check"
  | .makeSettings => bytes "init"

/-- The arguments are a command line that asks for a task with what is given behind its name, and
with the settings at a path. -/
def CommandLine (scope : Scope) (given : Given) (settings : Path) (arguments : List Bytes) : Prop :=
  ∃ front behind before, arguments = front ++ scope.taskName :: behind ∧
    Given.Described .program {} front before ∧ Given.Described scope {} behind given ∧
    settings = (given.settings.or before.settings).getD defaultSettingsPath

/-- A command line is understood as the task that it describes. -/
theorem CommandLine.parse? {scope : Scope} {given : Given} {settings : Path}
    {arguments : List Bytes}
    (line : CommandLine scope given settings arguments) {task : Task}
    (asked : given.task? scope = some task) :
    ∃ verbose, Request.parse? arguments = some (.run ⟨task, settings, verbose⟩) := by
  obtain ⟨front, behind, before, rfl, first, second, rfl⟩ := line
  have inTask : scope ≠ .program := by
    rintro rfl
    simp [Given.task?] at asked
  have named : Scope.ofTaskName? scope.taskName = some scope := by
    cases scope <;> first | rfl | exact absurd rfl inTask
  have plain : Given.isSwitch scope.taskName = false := by cases scope <;> decide
  obtain ⟨front_read, running⟩ := first.read?_append rfl (scope.taskName :: behind)
  obtain ⟨behind_read, -⟩ := second.read?_append rfl []
  rw [List.append_nil, Given.read?] at behind_read
  refine ⟨given.verbose || before.verbose, ?_⟩
  simp [Request.parse?, front_read, Given.read?_program plain, running, named, behind_read, asked]

end JsxCalls
