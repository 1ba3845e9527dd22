import JsxCalls.Disk.Source
import JsxCalls.Event
import JsxCalls.Lowering

/-!
# Batches of files

Files are converted one after another. A file that cannot be read or written is reported and does
not keep the others from being converted; a file whose source does not change is not written.
-/

namespace JsxCalls

/-- Why a file cannot be converted, or a path not be searched. -/
inductive FileError where
  /-- The path leads to nothing. -/
  | notFound (path : Path)
  /-- The file cannot be read. -/
  | unreadable (path : Path) (fault : ReadFault)
  /-- The file cannot be written. -/
  | unwritable (path : Path) (fault : DiskFault)
deriving DecidableEq, Repr

/-- How the error is described. -/
def FileError.message : FileError → String
  | .notFound path => s!"Path not found: {path}"
  | .unreadable path fault => s!"Failed to read {path}: {fault.message}"
  | .unwritable path fault => s!"Failed to write {path}: {fault.message}"

/-! ## Finding files -/

/-- The files that a path stands for, and what happened on the way. A file stands for itself,
whatever its extension. -/
def Disk.discover (disk : Disk) (extensions : List Text) (root : Path) :
    Except FileError (List Path × List Event) :=
  match disk.resolve root with
  | .error _ => .error (.notFound root)
  | .ok place =>
    match disk.find? place with
    | some .directory =>
      let found := disk.sources extensions root place
      .ok (found, [.discovered found.length root])
    | _ => .ok ([root], [])

/-- Adds the paths that are not the same as an earlier one. -/
def addPaths (known : List Path) : List Path → List Path
  | [] => known
  | path :: paths =>
    addPaths (if known.any (Path.same path) then known else known ++ [path]) paths

/-- The files that several paths stand for, after the ones that are known already. -/
def Disk.collectAfter (disk : Disk) (extensions : List Text) :
    List Path → List Path → List Event × Except FileError (List Path)
  | known, [] => ([], .ok known)
  | known, root :: roots =>
    match disk.discover extensions root with
    | .error error => ([], .error error)
    | .ok (found, events) =>
      let (later, result) := disk.collectAfter extensions (addPaths known found) roots
      (events ++ later, result)

/-- The files that several paths stand for, each of them once for each of its spellings. -/
def Disk.collect (disk : Disk) (extensions : List Text) (roots : List Path) :
    List Event × Except FileError (List Path) :=
  disk.collectAfter extensions [] roots

/-! ## Converting files -/

/-- What became of one file. -/
structure Report where
  /-- The file. -/
  path : Path
  /-- How many return statements were converted. -/
  statements : Nat
  /-- The lowered source differs from the content of the file. -/
  changed : Bool
  /-- The lowered source was written to the file. -/
  written : Bool
deriving DecidableEq, Repr

/-- The conversion of one file. -/
structure Conversion where
  /-- The disk afterwards. -/
  disk : Disk
  /-- What happened. -/
  events : List Event
  /-- What became of the file. -/
  result : Except FileError Report

/-- The event of lowering a source. -/
def Lowered.event (source : Text) (lowered : Lowered) : Event :=
  .lowered (Text.byteCount source) lowered.statements lowered.expressions

/-- Writes a lowered source to its file, if it has changed and is to be written. -/
def Disk.finish (disk : Disk) (write : Bool) (path : Path) (lowered : Lowered) : Conversion :=
  let report : Report := ⟨path, lowered.statements, lowered.changed, write && lowered.changed⟩
  if report.written then
    match disk.writeText path lowered.output with
    | .error fault => ⟨disk, [], .error (.unwritable path fault)⟩
    | .ok disk => ⟨disk, [.fileWritten path], .ok report⟩
  else
    ⟨disk, [], .ok report⟩

/-- Converts one file. -/
def Disk.convertFile (disk : Disk) (lowering : Text → Lowered) (write : Bool) (path : Path) :
    Conversion :=
  match disk.readText path with
  | .error fault => ⟨disk, [], .error (.unreadable path fault)⟩
  | .ok source =>
    let lowered := lowering source
    let finished := disk.finish write path lowered
    { finished with events := lowered.event source :: finished.events }

/-- The conversion of several files. -/
structure Batch where
  /-- The disk afterwards. -/
  disk : Disk
  /-- What happened. -/
  events : List Event
  /-- What became of each file, in the order of the files. -/
  results : List (Except FileError Report)

/-- Converts several files, one after another. -/
def Disk.convertFiles (disk : Disk) (lowering : Text → Lowered) (write : Bool) : List Path → Batch
  | [] => ⟨disk, [], []⟩
  | path :: paths =>
    let first := disk.convertFile lowering write path
    let others := first.disk.convertFiles lowering write paths
    ⟨others.disk, first.events ++ others.events, first.result :: others.results⟩

end JsxCalls
