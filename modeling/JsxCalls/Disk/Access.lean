import JsxCalls.Disk.Basic

/-!
# Access by paths

A path leads to a place, name by name and through the links on the way, of which it may pass only so
many. It starts from the working directory, or from the root directory if it is absolute. Names and
whole paths have a limited number of bytes.
-/

namespace JsxCalls

open Utf8 (byte)

/-- The greatest number of bytes of a name. -/
def nameLimit : Nat := 255

/-- The number of bytes that a path cannot reach. -/
def pathLimit : Nat := 4096

/-- The number of links that a path may pass. -/
def linkLimit : Nat := 40

namespace Path

/-- What is wrong with a path, whatever is on the disk. -/
def fault? (path : Path) : Option DiskFault :=
  if byte '\x00' ∈ path.bytes then some .nulByte
  else if path.bytes = [] then some .noEntry
  else if pathLimit ≤ path.bytes.length then some .tooLong
  else none

/-- Where a path starts that is followed from a directory. -/
def start (path : Path) (here : Place) : Place :=
  if path.isAbsolute then [] else here

end Path

namespace Disk

/-! ## Following paths -/

/-- What a path is followed for, which decides about its last name. -/
inductive Purpose where
  /-- To use what it leads to, which has to exist. -/
  | use
  /-- To write a file, which need not exist yet. -/
  | write
deriving DecidableEq, Repr

/-- The place to which the parts of a path lead from a directory, passing at most the given number
of links. A file to be written cannot have a slash behind its name. -/
def follow (disk : Disk) (purpose : Purpose) (links : Nat) (here : Place) (parts : List Bytes) :
    Except DiskFault Place :=
  match parts with
  | [] => .ok here
  | part :: parts =>
    if disk.find? here ≠ some .directory then
      .error .notDirectory
    else if Path.isIdle part then
      disk.follow purpose links here parts
    else if part = Path.twoDots then
      disk.follow purpose links here.parent parts
    else if purpose = .write ∧ parts ≠ [] ∧ parts.all List.isEmpty then
      .error .isDirectory
    else if nameLimit < part.length then
      .error .tooLong
    else
      match disk.find? (here ++ [part]) with
      | none => if purpose = .write ∧ parts = [] then .ok (here ++ [part]) else .error .noEntry
      | some (.link target) =>
        match links with
        | 0 => .error .tooManyLinks
        | links + 1 => disk.follow purpose links (target.start here) (target.parts ++ parts)
      | some _ => disk.follow purpose links (here ++ [part]) parts
termination_by (links, parts.length)

/-- The place to which a path leads. -/
def locate (disk : Disk) (purpose : Purpose) (path : Path) : Except DiskFault Place :=
  match path.fault? with
  | some fault => .error fault
  | none => disk.follow purpose linkLimit (path.start disk.here) path.parts

/-- The place of what a path leads to. -/
def resolve (disk : Disk) (path : Path) : Except DiskFault Place :=
  disk.locate .use path

/-- The path leads to something. -/
def has (disk : Disk) (path : Path) : Bool :=
  (disk.resolve path).isOk

/-! ## Reading -/

/-- The bytes of the file at a path. -/
def read (disk : Disk) (path : Path) : Except DiskFault Bytes :=
  match disk.resolve path with
  | .error fault => .error fault
  | .ok place =>
    match disk.find? place with
    | some (.file content) => .ok content
    | some .directory => .error .isDirectory
    | _ => .error .noEntry

/-- The text of the file at a path. -/
def readText (disk : Disk) (path : Path) : Except ReadFault Text :=
  match disk.read path with
  | .error fault => .error (.disk fault)
  | .ok content =>
    match Utf8.decode? content with
    | some text => .ok text
    | none => .error .notText

/-! ## Writing -/

/-- Writes the file at a path, which is made if it does not exist. -/
def write (disk : Disk) (path : Path) (content : Bytes) : Except DiskFault Disk :=
  match disk.locate .write path with
  | .error fault => .error fault
  | .ok place =>
    if disk.find? place = some .directory then .error .isDirectory
    else if disk.permits place then .ok (disk.put place (.file content))
    else .error .denied

/-- Writes a text to the file at a path. -/
def writeText (disk : Disk) (path : Path) (text : Text) : Except DiskFault Disk :=
  disk.write path (Utf8.encode text)

end Disk

end JsxCalls
