import JsxCalls.Batch.Json
import JsxCalls.Command.Arguments
import JsxCalls.Settings

/-!
# Running the program

A run starts from a disk and the bytes of the standard input, and ends with a disk, a text for the
standard output, the events that are shown, and an exit status.
-/

namespace JsxCalls

/-- Why a run fails. -/
inductive RunError where
  /-- A file could not be found or checked. -/
  | file (error : FileError)
  /-- The settings file cannot be read. -/
  | settingsUnreadable (path : Path) (fault : ReadFault)
  /-- The settings file does not hold settings. -/
  | settingsMalformed (path : Path)
  /-- The settings file cannot be written. -/
  | settingsUnwritable (path : Path) (fault : DiskFault)
  /-- The standard input is no text. -/
  | inputUnreadable (fault : Utf8.Fault)
  /-- The file for the output cannot be read. -/
  | sourceUnreadable (path : Path) (fault : ReadFault)
  /-- Only one file can be converted to the output. -/
  | severalForOutput (count : Nat)
  /-- Some files could not be converted. -/
  | unconverted (count : Nat)
  /-- A file cannot be listed, since its path is no text. -/
  | unlistable
deriving DecidableEq, Repr

/-- An error and, below it, what caused it. -/
def withCause (error cause : String) : String :=
  s!"{error}\n\nCaused by:\n    {cause}"

/-- How the error is described. -/
def RunError.message : RunError → String
  | .file error => error.message
  | .settingsUnreadable path fault => s!"Failed to read {path}: {fault.message}"
  | .settingsMalformed path => s!"Failed to parse {path}"
  | .settingsUnwritable path fault => withCause s!"Failed to write {path}" fault.message
  | .inputUnreadable fault => withCause "Failed to read stdin" fault.message
  | .sourceUnreadable path fault => withCause s!"Failed to read {path}" fault.message
  | .severalForOutput count => s!"--stdout takes exactly one file, got {count}"
  | .unconverted count => s!"{count} files could not be converted"
  | .unlistable => "path contains invalid UTF-8 characters"

/-- The end of a run. -/
structure Outcome where
  /-- The disk afterwards. -/
  disk : Disk
  /-- The exit status. -/
  exit : Nat := 0
  /-- What is written to the standard output. -/
  output : Text := []
  /-- What happened. -/
  events : List Event := []
  /-- Why the run failed. -/
  error : Option RunError := none

/-- A run that fails. -/
def Outcome.failed (disk : Disk) (events : List Event) (error : RunError) : Outcome where
  disk
  exit := 1
  events
  error := some error

/-- The outcome with earlier events put before its own. -/
def Outcome.after (events : List Event) (outcome : Outcome) : Outcome :=
  { outcome with events := events ++ outcome.events }

namespace Disk

/-- The settings at a path, and what happened. Without a file there are the default settings. -/
def loadSettings (disk : Disk) (path : Path) : Except RunError (Settings × List Event) :=
  if disk.has path then
    match disk.readText path with
    | .error fault => .error (.settingsUnreadable path fault)
    | .ok configuration =>
      match Settings.parse? configuration with
      | none => .error (.settingsMalformed path)
      | some settings => .ok (settings, [.settingsRead path])
  else
    .ok ({}, [])

/-! ## Converting -/

/-- Converts the standard input to the standard output. -/
def convertInput (disk : Disk) (style : CallStyle) (input : Bytes) : Outcome :=
  match Utf8.decode? input with
  | none => .failed disk [] (.inputUnreadable ((Utf8.fault? input).getD ⟨0, none⟩))
  | some source =>
    let lowered := lower style source
    { disk, output := lowered.output, events := [lowered.event source] }

/-- Converts one file to the standard output. -/
def convertToOutput (disk : Disk) (style : CallStyle) (path : Path) : Outcome :=
  match disk.readText path with
  | .error fault => .failed disk [] (.sourceUnreadable path fault)
  | .ok source =>
    let lowered := lower style source
    { disk
      output := lowered.output
      events := [lowered.event source, .printed lowered.statements path] }

/-- Converts files in place. -/
def convertInPlace (disk : Disk) (style : CallStyle) (extensions : List Text) (paths : List Path) :
    Outcome :=
  let (found, files) := disk.collect extensions paths
  match files with
  | .error error => .failed disk found (.file error)
  | .ok files =>
    let batch := disk.convertFiles (lower style) true files
    let reports := batch.results.filterMap Except.toOption
    let failures := batch.results.filterMap fun
      | .error error => some error
      | .ok _ => none
    let events := found ++ .converting files.length :: batch.events ++
      failures.map (fun error => .failed error.message) ++
      [.converted (reports.foldl (fun total report => total + report.statements) 0)
        (reports.countP Report.written) files.length]
    if failures = [] then { disk := batch.disk, events }
    else .failed batch.disk events (.unconverted failures.length)

/-- The path that stands for the standard input. -/
def inputPath : Path :=
  ⟨Utf8.bytes "-"⟩

/-- Converts files, or the standard input if its path is the only one. -/
def runConvert (disk : Disk) (input : Bytes) (settings : Settings) (paths : List Path)
    (toOutput : Bool) (receiver : Option Text) : Outcome :=
  let style := settings.style receiver
  match paths, toOutput with
  | [path], true =>
    if path.same inputPath then disk.convertInput style input else disk.convertToOutput style path
  | [path], false =>
    if path.same inputPath then disk.convertInput style input
    else disk.convertInPlace style settings.extensions [path]
  | paths, true => .failed disk [] (.severalForOutput paths.length)
  | paths, false => disk.convertInPlace style settings.extensions paths

/-! ## Checking -/

/-- The reports of a batch, or its first error. -/
def reportsOf : List (Except FileError Report) → Except FileError (List Report)
  | [] => .ok []
  | .error error :: _ => .error error
  | .ok report :: results => (reportsOf results).map (report :: ·)

/-- The line of a file that is not converted yet. -/
def pendingLine (report : Report) : Text :=
  report.path.shown ++ ": ".toList ++ Text.ofNat report.statements ++
    " convertible return statements\n".toList

/-- The list of the files that are not converted yet. As an array it cannot be written if a path is
no text. -/
def pendingList? (format : ReportFormat) (pending : List Report) : Option Text :=
  match format with
  | .text => some (pending.flatMap pendingLine)
  | .json => (jsonReports? pending).map (· ++ ['\n'])

/-- Lists the files that are not converted yet. The exit status tells whether there are any. -/
def runCheck (disk : Disk) (settings : Settings) (paths : List Path) (format : ReportFormat)
    (receiver : Option Text) : Outcome :=
  let (found, files) := disk.collect settings.extensions paths
  match files with
  | .error error => .failed disk found (.file error)
  | .ok files =>
    let batch := disk.convertFiles (lower (settings.style receiver)) false files
    match reportsOf batch.results with
    | .error error => .failed batch.disk (found ++ batch.events) (.file error)
    | .ok reports =>
      let pending := reports.filter Report.changed
      match pendingList? format pending with
      | none => .failed batch.disk (found ++ batch.events) .unlistable
      | some output =>
        { disk := batch.disk
          exit := if pending = [] then 0 else 1
          output
          events := found ++ batch.events ++ [.checked pending.length files.length] }

/-! ## Making settings -/

/-- Makes a settings file, which replaces an existing one only if this is asked for. -/
def runMakeSettings (disk : Disk) (path : Path) (overwrite : Bool) : Outcome :=
  if disk.has path && !overwrite then
    { disk, events := [.settingsKept path] }
  else
    match disk.writeText path Settings.template with
    | .error fault => .failed disk [] (.settingsUnwritable path fault)
    | .ok disk => { disk, events := [.settingsMade path] }

/-! ## The program -/

/-- Runs a task with the settings it needs. -/
def runTask (disk : Disk) (input : Bytes) (invocation : Invocation) : Outcome :=
  match invocation.task with
  | .makeSettings overwrite => disk.runMakeSettings invocation.settings overwrite
  | .convert paths toOutput receiver =>
    match disk.loadSettings invocation.settings with
    | .error error => .failed disk [] error
    | .ok (settings, events) =>
      (disk.runConvert input settings paths toOutput receiver).after events
  | .check paths format receiver =>
    match disk.loadSettings invocation.settings with
    | .error error => .failed disk [] error
    | .ok (settings, events) => (disk.runCheck settings paths format receiver).after events

/-- Runs the program with only the events that are to be shown. -/
def runInvocation (disk : Disk) (input : Bytes) (invocation : Invocation) : Outcome :=
  let outcome := disk.runTask input invocation
  { outcome with events := outcome.events.filter (Event.isShown invocation.verbose) }

/-- Runs the program on a command line, unless the command line is not understood. -/
def run? (disk : Disk) (input : Bytes) (arguments : List Bytes) : Option Outcome :=
  (Request.parse? arguments).map fun
    | .version => { disk, output := "unjsx 0.1.0\n".toList }
    | .run invocation => disk.runInvocation input invocation

end Disk

end JsxCalls
