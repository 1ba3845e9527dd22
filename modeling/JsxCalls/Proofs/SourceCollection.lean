import Mathlib.Data.List.Nodup
import JsxCalls.Proofs.BatchIndependence
import JsxCalls.Proofs.PathPlace

/-!
# Collecting source files

The files that several paths stand for are collected one after another, and a file is left out if a
path with the same components was collected before. So each file that is found is collected, and it
is collected once under each of its spellings. Two spellings of one file come from two of the given
paths, and they differ exactly if one of these paths does not go on from the other by names.
-/

namespace JsxCalls

open Utf8 (bytes)

/-! ## Paths that were collected before -/

theorem addPaths_append (known front back : List Path) :
    addPaths known (front ++ back) = addPaths (addPaths known front) back := by
  induction front generalizing known with
  | nil => rfl
  | cons path front induction => exact induction _

theorem any_same_iff {known : List Path} {path : Path} :
    known.any (Path.same path) = true ↔ path.components ∈ known.map Path.components := by
  rw [List.any_eq_true, List.mem_map]
  exact exists_congr fun other => and_congr_right fun _ => Path.same_iff.trans eq_comm

theorem mem_of_mem_addPaths {known paths : List Path} {path : Path}
    (member : path ∈ addPaths known paths) : path ∈ known ∨ path ∈ paths := by
  induction paths generalizing known with
  | nil => exact .inl member
  | cons first paths induction =>
    rcases induction member with before | later
    · split at before
      · exact .inl before
      · rw [List.mem_append, List.mem_singleton] at before
        rcases before with before | rfl
        · exact .inl before
        · exact .inr List.mem_cons_self
    · exact .inr (List.mem_cons_of_mem _ later)

/-- Each spelling is collected. -/
theorem mem_components_addPaths {known paths : List Path} {components : List Component} :
    components ∈ (addPaths known paths).map Path.components ↔
      components ∈ known.map Path.components ∨ components ∈ paths.map Path.components := by
  induction paths generalizing known with
  | nil => simp [addPaths]
  | cons path paths induction =>
    rw [addPaths, induction, List.map_cons, List.mem_cons, ← or_assoc]
    refine or_congr_left ?_
    split
    · rename_i repeated
      constructor
      · exact .inl
      · rintro (before | rfl)
        · exact before
        · exact any_same_iff.mp repeated
    · simp

/-- Each spelling is collected once. -/
theorem nodup_components_addPaths {known paths : List Path}
    (distinct : (known.map Path.components).Nodup) :
    ((addPaths known paths).map Path.components).Nodup := by
  induction paths generalizing known with
  | nil => exact distinct
  | cons path paths induction =>
    rw [addPaths]
    apply induction
    split
    · exact distinct
    · rename_i fresh
      rw [any_same_iff] at fresh
      rw [List.map_append, List.map_singleton, ← List.concat_eq_append]
      exact distinct.concat fresh

namespace Disk

/-! ## Files that one path stands for -/

/-- The files that a path stands for. -/
def foundFrom (disk : Disk) (extensions : List Text) (root : Path) : List Path :=
  match disk.discover extensions root with
  | .error _ => []
  | .ok (found, _) => found

/-- A file at the place is among those that a path stands for. -/
def Yields (disk : Disk) (extensions : List Text) (root : Path) (place : Place) : Prop :=
  ∃ file ∈ disk.foundFrom extensions root, disk.placeOf file = place

theorem mem_children_iff {disk : Disk} {directory : Place} {name : Bytes} {entry : Entry} :
    (name, entry) ∈ disk.children directory ↔ (directory ++ [name], entry) ∈ disk.entries := by
  rw [children, List.mem_filterMap]
  constructor
  · rintro ⟨⟨place, there⟩, member, equal⟩
    dsimp only at equal
    split at equal
    · rename_i last found
      obtain ⟨front, rfl⟩ := List.getLast?_eq_some_iff.mp found
      rw [List.dropLast_concat] at equal
      split at equal
      · rename_i same
        obtain ⟨rfl, rfl⟩ := Prod.mk.inj (Option.some.inj equal)
        rwa [← same]
      · simp at equal
    · simp at equal
  · intro member
    exact ⟨_, member, by simp⟩

namespace IsTree

variable {disk : Disk} (tree : disk.IsTree) {extensions : List Text}
include tree

/-- The search looks at the files of a directory, and at what is below the directories in it. -/
theorem mem_sourcesBelow_succ_iff {fuel : Nat} {ancestors : List Place} {path : Path}
    {directory : Place} {names : List Bytes} :
    names ∈ disk.sourcesBelow extensions (fuel + 1) ancestors path directory ↔
      ∃ name others, names = name :: others ∧
        (((∃ content, (directory ++ [name], .file content) ∈ disk.entries) ∧ others = [] ∧
            Path.extensionOf name ∈ extensions) ∨
          ((directory ++ [name], .directory) ∈ disk.entries ∧ (path.join name).fault? = none ∧
            isSkippedDirectory name = false ∧
            others ∈ disk.sourcesBelow extensions fuel ((directory ++ [name]) :: ancestors)
              (path.join name) (directory ++ [name]))) := by
  rw [sourcesBelow, List.mem_flatMap]
  constructor
  · rintro ⟨⟨name, entry⟩, child, inside⟩
    have member := mem_children_iff.mp child
    cases entry with
    | file content =>
      dsimp only at inside
      split at inside
      · rename_i listed
        exact ⟨name, [], List.mem_singleton.mp inside, .inl ⟨⟨content, member⟩, rfl, listed⟩⟩
      · simp at inside
    | directory =>
      dsimp only at inside
      split at inside
      · rename_i faultless
        split at inside
        · simp at inside
        · rename_i entered
          obtain ⟨others, below, rfl⟩ := List.mem_map.mp inside
          exact ⟨name, others, rfl, .inr ⟨member, faultless, by simpa using entered, below⟩⟩
      · simp at inside
    | link target => exact absurd rfl (tree.linkless _ member target)
  · rintro ⟨name, others, rfl,
      ⟨⟨content, member⟩, rfl, listed⟩ | ⟨member, faultless, entered, below⟩⟩
    · exact ⟨(name, .file content), mem_children_iff.mpr member, by simp [listed]⟩
    · refine ⟨(name, .directory), mem_children_iff.mpr member, ?_⟩
      simp [faultless, entered, below]

/-- A file that is found below a directory is there. -/
theorem find?_of_mem_sourcesBelow {fuel : Nat} {ancestors : List Place} {path : Path}
    {directory : Place} {names : List Bytes}
    (member : names ∈ disk.sourcesBelow extensions fuel ancestors path directory) :
    (∀ name ∈ names, IsEntryName name) ∧
      ∃ content, disk.find? (directory ++ names) = some (.file content) := by
  induction fuel generalizing ancestors path directory names with
  | zero => simp [sourcesBelow] at member
  | succ fuel induction =>
    obtain ⟨name, others, rfl, ⟨⟨content, there⟩, rfl, -⟩ | ⟨there, -, -, below⟩⟩ :=
      tree.mem_sourcesBelow_succ_iff.mp member
    · refine ⟨?_, content, tree.find?_of_mem there⟩
      rw [List.forall_mem_singleton]
      exact (tree.named _ there).2 name (by simp)
    · obtain ⟨proper, content, file⟩ := induction below
      refine ⟨?_, content, ?_⟩
      · rw [List.forall_mem_cons]
        exact ⟨(tree.named _ there).2 name (by simp), proper⟩
      · rwa [List.append_assoc, List.singleton_append] at file

/-- A file that a path stands for is reached by names from the place of the path. -/
theorem exists_of_mem_foundFrom {root file : Path} (found : file ∈ disk.foundFrom extensions root) :
    root.bytes ≠ [] ∧ disk.Leads root (disk.placeOf root) ∧
      ∃ names : List Bytes, (∀ name ∈ names, IsEntryName name) ∧ file = names.foldl Path.join root ∧
        ∃ content, disk.find? (disk.placeOf root ++ names) = some (.file content) := by
  rw [foundFrom, discover] at found
  cases led : disk.resolve root with
  | error fault => simp [led] at found
  | ok place =>
    obtain ⟨faultless, leads⟩ := tree.resolve_eq_ok_iff.mp led
    have filled : root.bytes ≠ [] := by
      intro empty
      simp [Path.fault?, empty] at faultless
    obtain rfl := leads.eq_placeOf
    refine ⟨filled, leads, ?_⟩
    cases there : disk.find? (disk.placeOf root) with
    | none => exact absurd there (tree.find?_ne_none_of_leads leads)
    | some entry =>
      cases entry with
      | link target => exact absurd there (tree.find?_ne_link _ target)
      | file content =>
        obtain rfl : file = root := by simpa [led, there] using found
        exact ⟨[], List.forall_mem_nil _, rfl, content, by rwa [List.append_nil]⟩
      | directory =>
        obtain ⟨names, below, rfl⟩ : ∃ names, names ∈ disk.sourcesBelow extensions pathLimit
            [disk.placeOf root] root (disk.placeOf root) ∧ names.foldl Path.join root = file := by
          simpa [led, there, sources] using found
        obtain ⟨proper, file⟩ := tree.find?_of_mem_sourcesBelow below
        exact ⟨names, proper, rfl, file⟩

end IsTree

/-! ## Files that several paths stand for -/

/-- The files that the paths stand for, once for each spelling. -/
def collectedFrom (disk : Disk) (extensions : List Text) (roots : List Path) : List Path :=
  addPaths [] (roots.flatMap (disk.foundFrom extensions))

theorem collectAfter_eq_ok {disk : Disk} {extensions : List Text} {known roots paths : List Path}
    {events : List Event}
    (collected : disk.collectAfter extensions known roots = (events, .ok paths)) :
    (∀ root ∈ roots, ∃ shown,
        disk.discover extensions root = .ok (disk.foundFrom extensions root, shown)) ∧
      paths = addPaths known (roots.flatMap (disk.foundFrom extensions)) := by
  induction roots generalizing known events with
  | nil =>
    obtain rfl : known = paths := Except.ok.inj (Prod.mk.inj collected).2
    exact ⟨List.forall_mem_nil _, rfl⟩
  | cons root roots induction =>
    rw [collectAfter] at collected
    split at collected
    · simp at collected
    · rename_i found shown discovered
      have own : disk.foundFrom extensions root = found := by rw [foundFrom, discovered]
      obtain ⟨others, result⟩ := induction (Prod.ext rfl (Prod.mk.inj collected).2)
      rw [List.forall_mem_cons, List.flatMap_cons, addPaths_append, own]
      exact ⟨⟨⟨shown, discovered⟩, others⟩, result⟩

variable {disk : Disk} {extensions : List Text} {roots : List Path}

theorem exists_of_mem_collectedFrom {file : Path}
    (member : file ∈ disk.collectedFrom extensions roots) :
    ∃ root ∈ roots, file ∈ disk.foundFrom extensions root := by
  rcases mem_of_mem_addPaths member with none | found
  · exact absurd none List.not_mem_nil
  · exact List.mem_flatMap.mp found

theorem exists_mem_collectedFrom {root file : Path} (given : root ∈ roots)
    (found : file ∈ disk.foundFrom extensions root) :
    ∃ entry ∈ disk.collectedFrom extensions roots, entry.components = file.components := by
  apply List.mem_map.mp
  exact mem_components_addPaths.mpr
    (.inr (List.mem_map_of_mem (List.mem_flatMap.mpr ⟨root, given, found⟩)))

theorem nodup_components_collectedFrom :
    ((disk.collectedFrom extensions roots).map Path.components).Nodup :=
  nodup_components_addPaths List.nodup_nil

/-- Each file that the paths stand for is found under one spelling only. -/
def SpelledOnce (disk : Disk) (extensions : List Text) (roots : List Path) : Prop :=
  ∀ root ∈ roots, ∀ file ∈ disk.foundFrom extensions root,
    ∀ other ∈ roots, ∀ again ∈ disk.foundFrom extensions other,
      disk.placeOf file = disk.placeOf again → file.components = again.components

/-- A place is collected once for each spelling under which it is found. -/
theorem nodup_place_collectedFrom_iff :
    ((disk.collectedFrom extensions roots).map disk.placeOf).Nodup ↔
      disk.SpelledOnce extensions roots := by
  rw [map_placeOf_eq, List.nodup_map_iff_inj_on nodup_components_collectedFrom]
  constructor
  · intro injective root given file found other givenToo again foundToo same
    obtain ⟨entry, member, equal⟩ := exists_mem_collectedFrom given found
    obtain ⟨next, memberToo, equalToo⟩ := exists_mem_collectedFrom givenToo foundToo
    rw [← equal, ← equalToo]
    refine injective _ (List.mem_map_of_mem member) _ (List.mem_map_of_mem memberToo) ?_
    rw [equal, equalToo]
    exact same
  · intro single components member others memberToo same
    obtain ⟨file, listed, rfl⟩ := List.mem_map.mp member
    obtain ⟨again, listedToo, rfl⟩ := List.mem_map.mp memberToo
    obtain ⟨root, given, found⟩ := exists_of_mem_collectedFrom listed
    obtain ⟨other, givenToo, foundToo⟩ := exists_of_mem_collectedFrom listedToo
    exact single root given file found other givenToo again foundToo same

/-! ## Spellings -/

/-- The paths are spelled alike: where two of them stand for one file, the deeper one goes on from
the other by the names that lie between them. -/
def SpelledAlike (disk : Disk) (extensions : List Text) (roots : List Path) : Prop :=
  ∀ root ∈ roots, ∀ other ∈ roots, ∀ (between : List Bytes) (place : Place),
    disk.placeOf other = disk.placeOf root ++ between → disk.Yields extensions root place →
      disk.Yields extensions other place →
        other.components = root.components ++ between.map .name

/-- Paths that start in the same way and go on by names are spelled alike. -/
theorem spelledAlike_of_start {start : List Component}
    (starts : ∀ root ∈ roots, ∃ names : List Bytes, root.components = start ++ names.map .name) :
    disk.SpelledAlike extensions roots := by
  intro root given other givenToo between place deeper _ _
  obtain ⟨names, first⟩ := starts root given
  obtain ⟨namesToo, second⟩ := starts other givenToo
  rw [placeOf, placeOf, first, second, List.foldl_append, List.foldl_append, foldl_lead_names,
    foldl_lead_names, List.append_assoc] at deeper
  rw [first, second, List.append_cancel_left deeper, List.map_append, List.append_assoc]

namespace IsTree

variable (tree : disk.IsTree)
include tree

/-- The spellings of what is found can be told from the spellings of the given paths. -/
theorem spelledOnce_iff :
    disk.SpelledOnce extensions roots ↔ disk.SpelledAlike extensions roots := by
  constructor
  · rintro single root given other givenToo between place deeper ⟨file, found, rfl⟩
      ⟨again, foundToo, same⟩
    have equal := single root given file found other givenToo again foundToo same.symm
    obtain ⟨filled, -, names, proper, rfl, -⟩ := tree.exists_of_mem_foundFrom found
    obtain ⟨filledToo, -, namesToo, properToo, rfl, -⟩ := tree.exists_of_mem_foundFrom foundToo
    rw [Path.components_foldl_join filled proper,
      Path.components_foldl_join filledToo properToo] at equal
    rw [placeOf_foldl_join filled proper, placeOf_foldl_join filledToo properToo, deeper,
      List.append_assoc] at same
    obtain rfl := List.append_cancel_left same
    rw [List.map_append, ← List.append_assoc] at equal
    exact (List.append_cancel_right equal).symm
  · intro alike root given file found other givenToo again foundToo same
    have yields : disk.Yields extensions root (disk.placeOf file) := ⟨file, found, rfl⟩
    have yieldsToo : disk.Yields extensions other (disk.placeOf file) :=
      ⟨again, foundToo, same.symm⟩
    obtain ⟨filled, -, names, proper, rfl, -⟩ := tree.exists_of_mem_foundFrom found
    obtain ⟨filledToo, -, namesToo, properToo, rfl, -⟩ := tree.exists_of_mem_foundFrom foundToo
    rw [Path.components_foldl_join filled proper, Path.components_foldl_join filledToo properToo]
    rw [placeOf_foldl_join filled proper, placeOf_foldl_join filledToo properToo] at same
    -- one of the two given paths lies above the other
    rcases List.append_eq_append_iff.mp same with ⟨between, deeper, rfl⟩ | ⟨between, deeper, rfl⟩
    · rw [alike root given other givenToo between _ deeper yields yieldsToo, List.map_append,
        List.append_assoc]
    · rw [alike other givenToo root given between _ deeper yieldsToo yields, List.map_append,
        List.append_assoc]

theorem leads_of_mem_foundFrom {root file : Path}
    (found : file ∈ disk.foundFrom extensions root) :
    (∃ content, disk.find? (disk.placeOf file) = some (.file content)) ∧
      disk.Leads file (disk.placeOf file) := by
  obtain ⟨filled, leads, names, proper, rfl, content, there⟩ := tree.exists_of_mem_foundFrom found
  have below := tree.leads_foldl_join leads filled proper (by simp [there])
  rw [placeOf_foldl_join filled proper]
  exact ⟨⟨content, there⟩, below⟩

/-- Collecting gives paths that lead to files, if they are not too long. Each file that a given path
stands for is among them by the same components, and no components are collected twice. But a file
is, if the given paths spell its place in different ways: no two of the collected paths lead to one
file if and only if the given paths are spelled alike, for instance if all of them start in the same
way and go on by names. -/
theorem collect_once {events : List Event} {paths : List Path}
    (collected : disk.collect extensions roots = (events, .ok paths)) :
    (∀ entry ∈ paths, (∃ content, disk.find? (disk.placeOf entry) = some (.file content)) ∧
        (entry.fault? = none → disk.resolve entry = .ok (disk.placeOf entry))) ∧
      (∀ root ∈ roots, ∃ found shown, disk.discover extensions root = .ok (found, shown) ∧
        ∀ file ∈ found, ∃ entry ∈ paths,
          entry.components = file.components ∧ disk.placeOf entry = disk.placeOf file) ∧
      (paths.map Path.components).Nodup ∧
      ((paths.map disk.placeOf).Nodup ↔ disk.SpelledAlike extensions roots) ∧
      ((∀ entry ∈ paths, entry.fault? = none) →
        (disk.Apart paths ↔ disk.SpelledAlike extensions roots)) ∧
      ∀ start : List Component,
        (∀ root ∈ roots, ∃ names : List Bytes, root.components = start ++ names.map .name) →
          disk.SpelledAlike extensions roots := by
  obtain ⟨discovered, rfl⟩ : _ ∧ paths = disk.collectedFrom extensions roots :=
    collectAfter_eq_ok collected
  have spelled : ((disk.collectedFrom extensions roots).map disk.placeOf).Nodup ↔
      disk.SpelledAlike extensions roots :=
    nodup_place_collectedFrom_iff.trans tree.spelledOnce_iff
  have resolved : ∀ entry ∈ disk.collectedFrom extensions roots,
      (∃ content, disk.find? (disk.placeOf entry) = some (.file content)) ∧
        (entry.fault? = none → disk.resolve entry = .ok (disk.placeOf entry)) := by
    intro entry member
    obtain ⟨root, -, found⟩ := exists_of_mem_collectedFrom member
    obtain ⟨file, leads⟩ := tree.leads_of_mem_foundFrom found
    exact ⟨file, fun faultless => tree.resolve_eq_ok_iff.mpr ⟨faultless, leads⟩⟩
  refine ⟨resolved, ?_, nodup_components_collectedFrom, spelled, ?_,
    fun start => spelledAlike_of_start⟩
  · intro root given
    obtain ⟨shown, found⟩ := discovered root given
    refine ⟨_, shown, found, fun file member => ?_⟩
    obtain ⟨entry, listed, same⟩ := exists_mem_collectedFrom given member
    exact ⟨entry, listed, same, placeOf_eq_of_components_eq same⟩
  · intro faultless
    have files : (disk.collectedFrom extensions roots).filterMap disk.fileAt? =
        (disk.collectedFrom extensions roots).map disk.placeOf := by
      rw [← List.filterMap_eq_map]
      refine List.filterMap_congr fun entry member => ?_
      obtain ⟨file, leads⟩ := resolved entry member
      exact fileAt?_eq_some_iff.mpr ⟨leads (faultless entry member), file⟩
    rw [apart_iff_nodup, files]
    exact spelled

end IsTree

/-! ## A file that is collected twice -/

theorem discover_file {root : Path} {place : Place} {content : Bytes}
    (led : disk.resolve root = .ok place) (file : disk.find? place = some (.file content)) :
    disk.discover extensions root = .ok ([root], []) := by
  rw [discover, led]
  simp only [file]

theorem discover_directory {root : Path} {place : Place} {names : List Bytes}
    (led : disk.resolve root = .ok place) (directory : disk.find? place = some .directory)
    (found : disk.sourcesBelow extensions pathLimit [place] root place = [names]) :
    disk.discover extensions root =
      .ok ([names.foldl Path.join root], [.discovered 1 root]) := by
  rw [discover, led]
  simp [directory, sources, found]

/-- A source in a directory of the working directory, which is not the root directory. -/
def sourceDisk : Disk where
  entries := [
    ([bytes "proj"], .directory),
    ([bytes "proj", bytes "src"], .directory),
    ([bytes "proj", bytes "src", bytes "a.tsx"], .file (bytes "return <p>x</p>;\n"))]
  here := [bytes "proj"]

theorem isTree_sourceDisk : sourceDisk.IsTree where
  distinct := by decide
  named := by decide
  held := by decide
  linkless := by simp [sourceDisk]
  rooted := rfl

theorem resolve_sourceDisk {path : Path} {place : Place} (faultless : path.fault? = none)
    (leads : sourceDisk.Leads path place) : sourceDisk.resolve path = .ok place :=
  (IsTree.resolve_eq_ok_iff isTree_sourceDisk).mpr ⟨faultless, leads⟩

theorem discover_sourceDisk : sourceDisk.discover ["tsx".toList] ⟨bytes "src/a.tsx"⟩ =
    .ok ([⟨bytes "src/a.tsx"⟩], []) :=
  discover_file (resolve_sourceDisk rfl rfl) rfl

theorem discover_sourceDisk_src : sourceDisk.discover ["tsx".toList] ⟨bytes "src"⟩ =
    .ok ([⟨bytes "src/a.tsx"⟩], [.discovered 1 ⟨bytes "src"⟩]) := by
  have led : sourceDisk.resolve ⟨bytes "src"⟩ = .ok [bytes "proj", bytes "src"] :=
    resolve_sourceDisk rfl rfl
  exact discover_directory led rfl (show _ = [[bytes "a.tsx"]] from rfl)

theorem discover_sourceDisk_dot : sourceDisk.discover ["tsx".toList] ⟨bytes "."⟩ =
    .ok ([⟨bytes "./src/a.tsx"⟩], [.discovered 1 ⟨bytes "."⟩]) := by
  have led : sourceDisk.resolve ⟨bytes "."⟩ = .ok [bytes "proj"] :=
    resolve_sourceDisk rfl rfl
  exact discover_directory led rfl (show _ = [[bytes "src", bytes "a.tsx"]] from rfl)

theorem discover_sourceDisk_above : sourceDisk.discover ["tsx".toList] ⟨bytes ".."⟩ =
    .ok ([⟨bytes "../proj/src/a.tsx"⟩], [.discovered 1 ⟨bytes ".."⟩]) := by
  have led : sourceDisk.resolve ⟨bytes ".."⟩ = .ok [] :=
    resolve_sourceDisk rfl rfl
  exact discover_directory led rfl (show _ = [[bytes "proj", bytes "src", bytes "a.tsx"]] from rfl)

/-- A directory and a file in it are spelled alike, if the file is spelled by the directory. -/
theorem collect_once_sourceDisk : sourceDisk.IsTree ∧
    sourceDisk.collect ["tsx".toList] [⟨bytes "src"⟩, ⟨bytes "src/a.tsx"⟩] =
      ([.discovered 1 ⟨bytes "src"⟩], .ok [⟨bytes "src/a.tsx"⟩]) ∧
    sourceDisk.SpelledAlike ["tsx".toList] [⟨bytes "src"⟩, ⟨bytes "src/a.tsx"⟩] := by
  have collected : sourceDisk.collect ["tsx".toList] [⟨bytes "src"⟩, ⟨bytes "src/a.tsx"⟩] =
      ([.discovered 1 ⟨bytes "src"⟩], .ok [⟨bytes "src/a.tsx"⟩]) := by
    simp only [collect, collectAfter, discover_sourceDisk_src, discover_sourceDisk]
    rfl
  obtain ⟨-, -, -, spelled, -⟩ := IsTree.collect_once isTree_sourceDisk collected
  exact ⟨isTree_sourceDisk, collected, spelled.mp (List.nodup_singleton _)⟩

/-- The working directory and a file in it by its name: the file is collected twice. So it is from
the working directory and the directory above. -/
theorem collect_twice : sourceDisk.IsTree ∧
    sourceDisk.collect ["tsx".toList] [⟨bytes "."⟩, ⟨bytes "src/a.tsx"⟩] =
      ([.discovered 1 ⟨bytes "."⟩], .ok [⟨bytes "./src/a.tsx"⟩, ⟨bytes "src/a.tsx"⟩]) ∧
    sourceDisk.SameFile ⟨bytes "./src/a.tsx"⟩ ⟨bytes "src/a.tsx"⟩ ∧
    sourceDisk.collect ["tsx".toList] [⟨bytes "."⟩, ⟨bytes ".."⟩] =
      ([.discovered 1 ⟨bytes "."⟩, .discovered 1 ⟨bytes ".."⟩],
        .ok [⟨bytes "./src/a.tsx"⟩, ⟨bytes "../proj/src/a.tsx"⟩]) ∧
    sourceDisk.SameFile ⟨bytes "./src/a.tsx"⟩ ⟨bytes "../proj/src/a.tsx"⟩ := by
  have there : ∀ path ∈ [bytes "./src/a.tsx", bytes "src/a.tsx", bytes "../proj/src/a.tsx"],
      sourceDisk.fileAt? ⟨path⟩ = some [bytes "proj", bytes "src", bytes "a.tsx"] := by
    have file := IsTree.find?_of_mem isTree_sourceDisk
      (List.mem_cons_of_mem _ (List.mem_cons_of_mem _ List.mem_cons_self))
    simp only [List.forall_mem_cons, List.not_mem_nil, false_imp_iff, implies_true, and_true]
    exact ⟨fileAt?_eq_some_iff.mpr ⟨resolve_sourceDisk rfl rfl, _, file⟩,
      fileAt?_eq_some_iff.mpr ⟨resolve_sourceDisk rfl rfl, _, file⟩,
      fileAt?_eq_some_iff.mpr ⟨resolve_sourceDisk rfl rfl, _, file⟩⟩
  refine ⟨isTree_sourceDisk, ?_, ⟨_, there _ (by simp), there _ (by simp)⟩, ?_,
    ⟨_, there _ (by simp), there _ (by simp)⟩⟩
  · simp only [collect, collectAfter, discover_sourceDisk_dot, discover_sourceDisk]
    rfl
  · simp only [collect, collectAfter, discover_sourceDisk_dot, discover_sourceDisk_above]
    rfl

end Disk

end JsxCalls
