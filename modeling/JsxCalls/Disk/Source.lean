import JsxCalls.Disk.Access

/-!
# Source files

Source files are found below a directory by their extension. Links are followed, but a link to a
directory on the way to itself is passed over, as are links that lead nowhere and directories whose
path is too long or passes too many links. Directories of dependencies and hidden directories are
not entered; the starting point may be one of them.
-/

namespace JsxCalls

/-- Directories with such a name are not entered. A name that is no text counts as empty here. -/
def isSkippedDirectory (name : Bytes) : Bool :=
  let text := (Utf8.decode? name).getD []
  text = "node_modules".toList || text.head? = some '.'

namespace Disk

/-- The files with one of the extensions below the directory at a path, each given by the names that
lead to it from there. The ancestors are the places of the directories on the way, this one
included; `fuel` bounds their number. -/
def sourcesBelow (disk : Disk) (extensions : List Text) :
    (fuel : Nat) → (ancestors : List Place) → (path : Path) → (directory : Place) →
      List (List Bytes)
  | 0, _, _, _ => []
  | fuel + 1, ancestors, path, directory =>
    (disk.children directory).flatMap fun (name, entry) =>
      let here := path.join name
      let named := if Path.extensionOf name ∈ extensions then [[name]] else []
      let entered := fun place =>
        if isSkippedDirectory name then []
        else (disk.sourcesBelow extensions fuel (place :: ancestors) here place).map (name :: ·)
      match entry with
      | .file _ => named
      | .directory => if here.fault? = none then entered (directory ++ [name]) else []
      | .link _ =>
        match disk.resolve here with
        | .error _ => []
        | .ok place =>
          match disk.find? place with
          | some (.file _) => named
          | some .directory => if place ∈ ancestors then [] else entered place
          | _ => []

/-- The order of names by their bytes. -/
def nameLe : Bytes → Bytes → Bool
  | [], _ => true
  | _ :: _, [] => false
  | b :: left, c :: right => if b = c then nameLe left right else b < c

/-- The order of paths by their names, component by component. -/
def namesLe : List Bytes → List Bytes → Bool
  | [], _ => true
  | _ :: _, [] => false
  | name :: left, other :: right =>
    if name = other then namesLe left right else nameLe name other

/-- The source files below a directory, sorted by their names, component by component. Each
directory on the way makes the path longer, so the limit of a path bounds their number too. -/
def sources (disk : Disk) (extensions : List Text) (root : Path) (directory : Place) : List Path :=
  let found := disk.sourcesBelow extensions pathLimit [directory] root directory
  (found.mergeSort fun left right => namesLe left right).map fun names =>
    names.foldl Path.join root

end Disk

end JsxCalls
