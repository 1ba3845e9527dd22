import JsxCalls.Disk.Path

/-!
# Events

What happens during a run is recorded as a sequence of events, each of which has a level and a line
of text.
-/

namespace JsxCalls

/-- How important an event is. -/
inductive Level where
  /-- Only of interest when asked for. -/
  | debug
  /-- A result. -/
  | info
  /-- Something that may need attention. -/
  | warn
deriving DecidableEq, Repr

/-- The name of a level. -/
def Level.name : Level → String
  | .debug => "DEBUG"
  | .info => "INFO"
  | .warn => "WARN"

/-- Something that happened during a run. -/
inductive Event where
  /-- The settings were read from a file. -/
  | settingsRead (path : Path)
  /-- Source files were looked for below a directory. -/
  | discovered (count : Nat) (root : Path)
  /-- A source was lowered. -/
  | lowered (bytes statements expressions : Nat)
  /-- The lowered source of a file was written to it. -/
  | fileWritten (path : Path)
  /-- A number of files is about to be converted. -/
  | converting (files : Nat)
  /-- A file could not be converted. -/
  | failed (reason : String)
  /-- Files were converted. -/
  | converted (statements written files : Nat)
  /-- The lowered source of a file goes to the output. -/
  | printed (statements : Nat) (path : Path)
  /-- Files were checked. -/
  | checked (pending files : Nat)
  /-- The settings file is there already. -/
  | settingsKept (path : Path)
  /-- A settings file was made. -/
  | settingsMade (path : Path)
deriving DecidableEq, Repr

/-- Control characters of the seven-bit range that terminals act on: the bell, steps back and to the
next page, the start of a control sequence, and deletion. -/
def terminalControls : List Char :=
  ['\x07', '\x08', '\x0c', '\x1b', '\x7f']

/-- A character as a line shows it: one that a terminal would act on is written as an escape. -/
def shownChar (c : Char) : Text :=
  let digits : Text := [Nat.digitChar (c.toNat / 16), Nat.digitChar (c.toNat % 16)]
  if c ∈ terminalControls then "\\x".toList ++ digits
  else if 0x80 ≤ c.toNat && c.toNat ≤ 0x9F then "\\u\x7b".toList ++ digits ++ "\x7d".toList
  else [c]

namespace Event

/-- How important an event is. -/
def level : Event → Level
  | .settingsRead _ | .discovered _ _ | .lowered _ _ _ | .printed _ _ => .debug
  | .fileWritten _ | .converting _ | .converted _ _ _ | .checked _ _ | .settingsMade _ => .info
  | .failed _ | .settingsKept _ => .warn

/-- The text of an event. -/
def message : Event → String
  | .settingsRead path => s!"Loaded config from {path}"
  | .discovered count root => s!"Discovered {count} sources under {root}"
  | .lowered bytes statements expressions =>
    s!"Lowered buffer of {bytes} bytes statements={statements} protected={expressions}"
  | .fileWritten path => s!"Converted JSX in {path}"
  | .converting files => s!"Converting {files} files..."
  | .failed reason => reason
  | .converted statements written files =>
    s!"Converted {statements} return statements in {written} of {files} files"
  | .printed statements path => s!"Converted {statements} statements in {path}"
  | .checked pending files => s!"{pending} of {files} files need conversion"
  | .settingsKept path => s!"{path} already exists. Use --yes to overwrite."
  | .settingsMade path => s!"Created {path}"

/-- The line of an event. -/
def line (event : Event) : String :=
  String.ofList (event.level.name.toList ++ ' ' :: event.message.toList.flatMap shownChar)

/-- An event is shown if it is important enough or details were asked for. -/
def isShown (verbose : Bool) (event : Event) : Bool :=
  verbose || event.level ≠ .debug

end Event

end JsxCalls
