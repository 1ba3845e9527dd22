import JsxCalls.Command.Run

/-!
# The program

The working directory is read into a disk, the run is computed, and what it changed is written back.
-/

namespace JsxCalls.Program

/-- The absolute path of a place. -/
def pathOf (place : Place) : Path :=
  ⟨place.flatMap (Utf8.byte '/' :: ·)⟩

/-- The place of a directory whose absolute path has no links. -/
def placeOf (path : String) : Place :=
  (Path.parts ⟨Utf8.bytes path⟩).filter (· ≠ [])

/-- Adds the entries of one directory, and of the directories in it, to a disk. A link is recorded
with the absolute path to which it leads; one that leads nowhere is left out. -/
partial def snapshot (place : Place) (disk : Disk) : IO Disk := do
  let mut disk := disk
  for entry in ← (← IO.FS.realPath (toString (pathOf place))).readDir do
    let here := place ++ [Utf8.bytes entry.fileName]
    let data ← entry.path.symlinkMetadata
    match data.type with
    | .dir => disk ← snapshot here (disk.put here .directory)
    | .file => disk := disk.put here (.file (← IO.FS.readBinFile entry.path).toList)
    | .symlink =>
      match ← (IO.FS.realPath entry.path).toBaseIO with
      | .ok target => disk := disk.put here (.link ⟨Utf8.bytes target.toString⟩)
      | .error _ => pure ()
    | .other => pure ()
  return disk

/-- Writes the files that differ from what was there before. -/
def commit (before after : Disk) : IO Unit := do
  for (place, entry) in after.entries do
    match entry with
    | .file content =>
      if before.find? place ≠ some entry then
        IO.FS.writeBinFile (toString (pathOf place)) content.toByteArray
    | _ => pure ()

/-- All bytes of a stream. -/
partial def readAll (stream : IO.FS.Stream) (before : ByteArray) : IO Bytes := do
  let bytes ← stream.read 4096
  if bytes.isEmpty then return before.toList else readAll stream (before ++ bytes)

end JsxCalls.Program

open JsxCalls in
/-- Runs the program in the working directory. -/
def main (arguments : List String) : IO UInt32 := do
  let here := Program.placeOf (← IO.FS.realPath (← IO.currentDir)).toString
  let above := (List.range here.length).map fun depth => (here.take (depth + 1), Entry.directory)
  let before ← Program.snapshot here { entries := above, here }
  let input ←
    if arguments.contains "-" then Program.readAll (← IO.getStdin) ByteArray.empty
    else pure []
  match before.run? input (arguments.map Utf8.bytes) with
  | none =>
    IO.eprintln "usage: unjsx [-c PATH] [-v] (convert PATHS | check PATHS | init)"
    return 2
  | some outcome =>
    Program.commit before outcome.disk
    IO.print (String.ofList outcome.output)
    for event in outcome.events do
      IO.eprintln event.line
    if let some error := outcome.error then
      IO.eprintln ("Error: " ++ error.message)
    return outcome.exit.toUInt32
