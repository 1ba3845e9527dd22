import JsxCalls.Disk.Path

/-!
# Command line

The command line consists of switches for the whole program, the name of a task, and the switches
and paths of the task. Switches and paths may be mixed. The switches for the whole program may also
stand behind the name of the task, where they take precedence. Each switch is given at most once on
either side of the name. Arguments are bytes, and only those that stand for names have to be texts.
-/

namespace JsxCalls

open Utf8 (byte bytes)

/-- How pending files are listed. -/
inductive ReportFormat where
  /-- One line per file. -/
  | text
  /-- An array of reports. -/
  | json
deriving DecidableEq, Repr

/-- What the program is to do. -/
inductive Task where
  /-- Convert files, in place or to the output. -/
  | convert (paths : List Path) (toOutput : Bool) (receiver : Option Text)
  /-- List the files that are not converted yet. -/
  | check (paths : List Path) (format : ReportFormat) (receiver : Option Text)
  /-- Make a settings file. -/
  | makeSettings (overwrite : Bool)
deriving DecidableEq, Repr

/-- A task and what holds for the whole program. -/
structure Invocation where
  /-- What is to be done. -/
  task : Task
  /-- Where the settings are. -/
  settings : Path
  /-- Show all events. -/
  verbose : Bool
deriving DecidableEq, Repr

/-- What a command line asks for. -/
inductive Request where
  /-- The version of the program. -/
  | version
  /-- A run of the program. -/
  | run (invocation : Invocation)
deriving DecidableEq, Repr

/-! ## Switches -/

/-- The switches of the program and its tasks. -/
inductive Switch where
  | settings
  | verbose
  | version
  | toOutput
  | receiver
  | format
  | overwrite
deriving DecidableEq, Repr

namespace Switch

/-- The name of a switch behind two hyphens. -/
def long : Switch → Bytes
  | .settings => bytes "config"
  | .verbose => bytes "verbose"
  | .version => bytes "version"
  | .toOutput => bytes "stdout"
  | .receiver => bytes "namespace"
  | .format => bytes "format"
  | .overwrite => bytes "yes"

/-- The letter of a switch behind one hyphen. -/
def short? : Switch → Option UInt8
  | .settings => some (byte 'c')
  | .verbose => some (byte 'v')
  | .version => some (byte 'V')
  | .toOutput => none
  | .receiver => some (byte 'n')
  | .format => none
  | .overwrite => some (byte 'y')

/-- The switch needs a value. -/
def takesValue : Switch → Bool
  | .settings | .receiver | .format => true
  | .verbose | .version | .toOutput | .overwrite => false

end Switch

/-- The part of a command line in which a switch stands. -/
inductive Scope where
  /-- Before the name of the task. -/
  | program
  /-- Behind the name of a task that converts files. -/
  | convert
  /-- Behind the name of a task that checks files. -/
  | check
  /-- Behind the name of a task that makes a settings file. -/
  | makeSettings
deriving DecidableEq, Repr

namespace Scope

/-- The switches that are known in a part of a command line. -/
def switches : Scope → List Switch
  | .program => [.settings, .verbose, .version]
  | .convert => [.settings, .verbose, .toOutput, .receiver]
  | .check => [.settings, .verbose, .format, .receiver]
  | .makeSettings => [.settings, .verbose, .overwrite]

/-- The task takes paths. -/
def takesPaths : Scope → Bool
  | .convert | .check => true
  | .program | .makeSettings => false

/-- The task with a given name. -/
def ofTaskName? (name : Bytes) : Option Scope :=
  if name = bytes "convert" then some .convert
  else if name = bytes "check" then some .check
  else if name = bytes "init" then some .makeSettings
  else none

end Scope

/-! ## Reading arguments -/

/-- What has been given in one part of a command line. -/
structure Given where
  /-- The path of the settings. -/
  settings : Option Path := none
  /-- Show all events. -/
  verbose : Bool := false
  /-- Show the version. -/
  version : Bool := false
  /-- Convert to the output. -/
  toOutput : Bool := false
  /-- The object whose function creates elements. -/
  receiver : Option Text := none
  /-- How pending files are listed. -/
  format : Option ReportFormat := none
  /-- Overwrite the settings file. -/
  overwrite : Bool := false
  /-- The paths, in order. -/
  paths : List Path := []

namespace Given

/-- A path must not be empty. -/
def path? (argument : Bytes) : Option Path :=
  if argument = [] then none else some ⟨argument⟩

/-- The format with a given name. -/
def format? (name : Bytes) : Option ReportFormat :=
  if name = bytes "text" then some .text
  else if name = bytes "json" then some .json
  else none

/-- Sets a switch, unless it is set already or the value does not fit. The value of a switch without
value is not looked at. -/
def set? (given : Given) (switch : Switch) (value : Bytes) : Option Given :=
  match switch with
  | .settings =>
    if given.settings.isSome then none
    else (path? value).map fun path => { given with settings := some path }
  | .verbose => if given.verbose then none else some { given with verbose := true }
  | .version => if given.version then none else some { given with version := true }
  | .toOutput => if given.toOutput then none else some { given with toOutput := true }
  | .receiver =>
    if given.receiver.isSome then none
    else (Utf8.decode? value).map fun receiver => { given with receiver := some receiver }
  | .format =>
    if given.format.isSome then none
    else (format? value).map fun format => { given with format := some format }
  | .overwrite => if given.overwrite then none else some { given with overwrite := true }

/-- Adds a path, if the task takes paths. -/
def addPath? (given : Given) (scope : Scope) (argument : Bytes) : Option Given :=
  if scope.takesPaths then
    (path? argument).map fun path => { given with paths := given.paths ++ [path] }
  else none

/-- Reads an argument behind two hyphens. A value may be joined with an equals sign; otherwise the
switch that still waits for its value is named. -/
def readLong? (given : Given) (scope : Scope) (body : Bytes) : Option (Given × Option Switch) := do
  let name := body.takeWhile (· ≠ byte '=')
  let switch ← scope.switches.find? fun switch => switch.long = name
  match switch.takesValue, body.dropWhile (· ≠ byte '=') with
  | true, [] => some (given, some switch)
  | true, _ :: value => (given.set? switch value).map fun given => (given, none)
  | false, [] => (given.set? switch []).map fun given => (given, none)
  | false, _ :: _ => none

/-- Reads the letters behind one hyphen. What follows the letter of a switch with a value is the
value, with or without an equals sign; otherwise the switch still waits for its value. Nothing is
read behind the letter that asks for the version. -/
def readShort? (given : Given) (scope : Scope) : Bytes → Option (Given × Option Switch)
  | [] => some (given, none)
  | letter :: others => do
    let switch ← scope.switches.find? fun switch => switch.short? = some letter
    if switch.takesValue then
      if others = [] then
        some (given, some switch)
      else
        let value := if others.head? = some (byte '=') then others.tail else others
        (given.set? switch value).map fun given => (given, none)
    else
      let given ← given.set? switch []
      if given.version then some (given, none) else readShort? given scope others

/-- An argument that stands for switches and not for a value: it starts with a hyphen and goes on
behind it. -/
def isSwitch (argument : Bytes) : Bool :=
  argument.head? = some (byte '-') && argument ≠ [byte '-']

/-- Reads the switches of one argument, which starts with a hyphen. -/
def readSwitch? (given : Given) (scope : Scope) (argument : Bytes) :
    Option (Given × Option Switch) :=
  let body := argument.tail
  if body.head? = some (byte '-') then given.readLong? scope body.tail
  else given.readShort? scope body

/-- Adds all arguments behind two hyphens as paths. -/
def addPaths? (scope : Scope) : Given → List Bytes → Option Given
  | given, [] => some given
  | given, argument :: arguments => do
    let given ← given.addPath? scope argument
    addPaths? scope given arguments

/-- Reads the arguments of one part of a command line. Before the name of the task, reading stops
with the first argument that is no switch, and the arguments from there on are left over. -/
def read? (scope : Scope) : Given → List Bytes → Option (Given × List Bytes)
  | given, [] => some (given, [])
  | given, argument :: arguments =>
    if argument = [byte '-', byte '-'] ∧ scope ≠ .program then
      (addPaths? scope given arguments).map fun given => (given, [])
    else if isSwitch argument then
      match given.readSwitch? scope argument with
      | none => none
      | some (given, waiting) =>
        if given.version then some (given, [])
        else
          match waiting, arguments with
          | none, arguments => read? scope given arguments
          | some _, [] => none
          | some switch, value :: arguments =>
            if isSwitch value then none
            else
              match given.set? switch value with
              | none => none
              | some given => read? scope given arguments
    else if scope = .program then
      some (given, argument :: arguments)
    else
      match given.addPath? scope argument with
      | none => none
      | some given => read? scope given arguments

/-- The task that the arguments behind its name describe. -/
def task? (given : Given) (scope : Scope) : Option Task :=
  match scope with
  | .program => none
  | .convert =>
    if given.paths = [] then none
    else some (.convert given.paths given.toOutput given.receiver)
  | .check =>
    if given.paths = [] then none
    else some (.check given.paths (given.format.getD .text) given.receiver)
  | .makeSettings => some (.makeSettings given.overwrite)

end Given

/-- Where the settings are unless the command line says otherwise. -/
def defaultSettingsPath : Path :=
  ⟨bytes "unjsx.toml"⟩

/-- What a command line asks for, or nothing if it is not understood. -/
def Request.parse? (arguments : List Bytes) : Option Request := do
  let (before, rest) ← Given.read? .program {} arguments
  if before.version then
    some .version
  else
    let name ← rest.head?
    let scope ← Scope.ofTaskName? name
    let (behind, _) ← Given.read? scope {} rest.tail
    let task ← behind.task? scope
    some (.run {
      task
      settings := (behind.settings.or before.settings).getD defaultSettingsPath
      verbose := behind.verbose || before.verbose })

end JsxCalls
