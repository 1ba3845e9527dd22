import JsxCalls.Disk.Path

/-!
# The disk

The disk is a tree of files, directories and symbolic links. An entry is found at its place, the
list of names that lead to it from the root directory. One of the directories is the working
directory, from which relative paths start.
-/

namespace JsxCalls

/-- The names that lead from the root directory to an entry. -/
abbrev Place := List Bytes

instance : LawfulBEq Place :=
  inferInstance

/-- The place of the directory that holds an entry. Nothing is above the root directory. -/
def Place.parent (place : Place) : Place :=
  place.dropLast

/-- What there can be at a place. -/
inductive Entry where
  /-- A regular file. -/
  | file (content : Bytes)
  /-- A directory. -/
  | directory
  /-- A symbolic link. -/
  | link (target : Path)
deriving DecidableEq, Repr

/-- Why the disk refuses an operation. -/
inductive DiskFault where
  /-- Nothing is there. -/
  | noEntry
  /-- The operation is not permitted there. -/
  | denied
  /-- The path goes on behind something that is no directory. -/
  | notDirectory
  /-- A directory is there. -/
  | isDirectory
  /-- The path, or a name in it, has too many bytes. -/
  | tooLong
  /-- The path passes too many links. -/
  | tooManyLinks
  /-- The path holds a byte that ends every path. -/
  | nulByte
deriving DecidableEq, Repr

/-- How the system describes the fault. -/
def DiskFault.message : DiskFault → String
  | .noEntry => "No such file or directory (os error 2)"
  | .denied => "Permission denied (os error 13)"
  | .notDirectory => "Not a directory (os error 20)"
  | .isDirectory => "Is a directory (os error 21)"
  | .tooLong => "File name too long (os error 36)"
  | .tooManyLinks => "Too many levels of symbolic links (os error 40)"
  | .nulByte => "file name contained an unexpected NUL byte"

/-- Why a file cannot be read as text. -/
inductive ReadFault where
  /-- The disk refuses to read it. -/
  | disk (fault : DiskFault)
  /-- Its bytes are no text. -/
  | notText
deriving DecidableEq, Repr

/-- How the system describes the fault. -/
def ReadFault.message : ReadFault → String
  | .disk fault => fault.message
  | .notText => "stream did not contain valid UTF-8"

/-- The entries below the root directory. -/
structure Disk where
  /-- Every entry with its place. -/
  entries : List (Place × Entry) := []
  /-- The place of the working directory. -/
  here : Place := []
  /-- The places of the files and directories that must not be written. -/
  locked : List Place := []
deriving DecidableEq, Repr

namespace Disk

/-- What is at a place. The root directory is always there. -/
def find? (disk : Disk) (place : Place) : Option Entry :=
  if place = [] then some .directory else disk.entries.lookup place

/-- A file can be written at a place: the file that is there, or a new one in its directory. -/
def permits (disk : Disk) (place : Place) : Bool :=
  if disk.find? place = none then place.parent ∉ disk.locked else place ∉ disk.locked

/-! ## Changing entries -/

/-- Puts an entry at a place, instead of the one that is there. -/
def putEntry (place : Place) (entry : Entry) : List (Place × Entry) → List (Place × Entry)
  | [] => [(place, entry)]
  | (other, there) :: entries =>
    if other = place then (place, entry) :: entries
    else (other, there) :: putEntry place entry entries

/-- Puts an entry at a place. -/
def put (disk : Disk) (place : Place) (entry : Entry) : Disk :=
  { disk with entries := putEntry place entry disk.entries }

theorem lookup_putEntry (place other : Place) (entry : Entry) (entries : List (Place × Entry)) :
    (putEntry place entry entries).lookup other =
      if other = place then some entry else entries.lookup other := by
  induction entries with
  | nil => by_cases same : other = place <;> simp [putEntry, same]
  | cons head entries induction =>
    obtain ⟨there, found⟩ := head
    by_cases replaced : there = place
    · by_cases same : other = place
      · simp [putEntry, replaced, same]
      · have differs : (other == place) = false := beq_false_of_ne same
        simp [putEntry, replaced, same, List.lookup_cons, differs]
    · by_cases same : other = there
      · simp [putEntry, replaced, same]
      · have differs : (other == there) = false := beq_false_of_ne same
        simp [putEntry, replaced, List.lookup_cons, differs, induction]

theorem find?_put {place : Place} (below : place ≠ []) (disk : Disk) (entry : Entry)
    (other : Place) :
    (disk.put place entry).find? other =
      if other = place then some entry else disk.find? other := by
  by_cases top : other = []
  · simp [find?, top, below.symm]
  · simp [find?, top, put, lookup_putEntry]

/-! ## Listing -/

/-- The entries of a directory, by name. -/
def children (disk : Disk) (directory : Place) : List (Bytes × Entry) :=
  disk.entries.filterMap fun (place, entry) =>
    match place.getLast? with
    | some name => if place.dropLast = directory then some (name, entry) else none
    | none => none

end Disk

end JsxCalls
