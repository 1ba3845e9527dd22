import JsxCalls.Text.Utf8

/-!
# Paths

A path is kept as it is written, byte by byte: it need not be a text. Two paths are the same if they
have the same components: repeated and trailing slashes do not count, nor do single dots, except for
one at the very start.
-/

namespace JsxCalls

open Utf8 (byte)

/-- A path as it is written. -/
structure Path where
  /-- The names and the slashes between them. -/
  bytes : Bytes
deriving DecidableEq, Repr

/-- One component of a path. -/
inductive Component where
  /-- The slash at the start of an absolute path. -/
  | root
  /-- The dot at the start of a relative path. -/
  | current
  /-- Two dots. -/
  | parent
  /-- The name of an entry. -/
  | name (bytes : Bytes)
deriving DecidableEq, Repr

namespace Path

/-- The text of a path, if it is one. -/
def text? (path : Path) : Option Text :=
  Utf8.decode? path.bytes

/-- The path as it is shown, with marks where it is no text. -/
def shown (path : Path) : Text :=
  Utf8.lossy path.bytes

instance : ToString Path where
  toString path := String.ofList path.shown

/-- The parts of a path between its slashes. -/
def parts (path : Path) : List Bytes :=
  path.bytes.splitOn (byte '/')

/-- A path that starts with a slash does not start from the working directory. -/
def isAbsolute (path : Path) : Bool :=
  path.bytes.head? = some (byte '/')

/-- The part that leads to the directory above. -/
def twoDots : Bytes :=
  [byte '.', byte '.']

/-- A part that leads nowhere else: the empty one between two slashes, and a single dot. -/
def isIdle (part : Bytes) : Bool :=
  part = [] || part = [byte '.']

/-- The component that a part stands for, unless it is the first one. -/
def component? (part : Bytes) : Option Component :=
  if isIdle part then none
  else if part = twoDots then some .parent
  else some (.name part)

/-- The components of a path. -/
def components (path : Path) : List Component :=
  let others := path.parts.filterMap component?
  if path.isAbsolute then .root :: others
  else if path.parts.head? = some [byte '.'] then .current :: others
  else others

/-- The two paths have the same components. -/
def same (left right : Path) : Bool :=
  left.components = right.components

/-- The path of an entry in a directory. -/
def join (path : Path) (name : Bytes) : Path where
  bytes :=
    if path.bytes = [] ∨ path.bytes.getLast? = some (byte '/') then path.bytes ++ name
    else path.bytes ++ byte '/' :: name

/-- The bytes behind the last dot of a file's name, unless this dot is the first byte. -/
def rawExtension (name : Bytes) : Bytes :=
  if byte '.' ∈ name.drop 1 then (name.reverse.takeWhile (· ≠ byte '.')).reverse else []

/-- The extension of a file's name. One that is no text counts as empty. -/
def extensionOf (name : Bytes) : Text :=
  (Utf8.decode? (rawExtension name)).getD []

end Path

end JsxCalls
