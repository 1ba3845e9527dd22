import Mathlib.Data.Set.List
import JsxCalls.Proofs.EncodedText
import JsxCalls.Proofs.PathOrder
import JsxCalls.Proofs.SourceCollection

/-!
# Discovering source files

The sources below a directory are the files with a listed extension to which names lead that are
neither hidden nor those of dependencies, the file's own name apart. The search finds each of them
once, unless a directory on the way has a path that is too long to be opened, and it gives them in
the order of their paths. Names that are no texts are never hidden, and an extension that is no text
counts as empty.
-/

namespace JsxCalls

open Utf8 (byte bytes)

/-! ## Lengths of paths -/

namespace Path

theorem fault?_eq_none_iff {path : Path} : path.fault? = none ↔
    byte '\x00' ∉ path.bytes ∧ path.bytes ≠ [] ∧ path.bytes.length < pathLimit := by
  rw [fault?]
  split_ifs with nul empty long
  · simp [nul]
  · simp [empty]
  · simp [long]
  · simp [nul, empty, Nat.not_le.mp long]

/-- A joined path has the first one as its beginning, and the bytes of both. -/
theorem exists_bytes_join (path : Path) (name : Bytes) :
    ∃ slash, (path.join name).bytes = path.bytes ++ (slash ++ name) := by
  rw [join]
  split
  · exact ⟨[], rfl⟩
  · exact ⟨[byte '/'], rfl⟩

theorem bytes_prefix_foldl_join (path : Path) (names : List Bytes) :
    path.bytes <+: (names.foldl join path).bytes := by
  induction names generalizing path with
  | nil => exact List.prefix_rfl
  | cons name names induction =>
    obtain ⟨slash, equal⟩ := exists_bytes_join path name
    exact (equal ▸ List.prefix_append path.bytes (slash ++ name)).trans (induction (path.join name))

/-- A path that can be opened goes on from paths that can be opened. -/
theorem fault?_eq_none_of_prefix {path longer : Path} (filled : path.bytes ≠ [])
    (start : path.bytes <+: longer.bytes) (faultless : longer.fault? = none) :
    path.fault? = none := by
  obtain ⟨plain, -, short⟩ := fault?_eq_none_iff.mp faultless
  exact fault?_eq_none_iff.mpr
    ⟨fun nul => plain (start.subset nul), filled, Nat.lt_of_le_of_lt start.length_le short⟩

theorem length_lt_length_join (path : Path) {name : Bytes} (proper : IsEntryName name) :
    path.bytes.length < (path.join name).bytes.length := by
  obtain ⟨slash, equal⟩ := exists_bytes_join path name
  have filled : name ≠ [] := by
    rintro rfl
    exact Bool.noConfusion proper.busy
  have positive := List.length_pos_iff.mpr filled
  rw [equal, List.length_append, List.length_append]
  omega

/-- The names by which a path goes on from another one can be told from it. -/
theorem eq_of_foldl_join_eq {root : Path} (filled : root.bytes ≠ []) {names others : List Bytes}
    (proper : ∀ name ∈ names, IsEntryName name) (proper' : ∀ name ∈ others, IsEntryName name)
    (same : names.foldl join root = others.foldl join root) : names = others := by
  have components := congrArg components same
  rw [components_foldl_join filled proper, components_foldl_join filled proper'] at components
  exact (List.map_inj_right fun _ _ => Component.name.inj).mp (List.append_cancel_left components)

end Path

/-! ## Extensions -/

/-- The extension of a name is what stands behind its last dot. It is empty if the name has no dot,
or only one at its start. -/
inductive IsExtension {α : Type} (dot : α) : (name extension : List α) → Prop
  /-- There is a dot behind the start of the name. -/
  | behindDot {stem extension : List α} : stem ≠ [] → dot ∉ extension →
      IsExtension dot (stem ++ dot :: extension) extension
  /-- There is none. -/
  | dotless {name : List α} : dot ∉ name.drop 1 → IsExtension dot name []

/-- Every name has an extension. -/
theorem exists_isExtension {α : Type} (dot : α) (name : List α) :
    ∃ extension, IsExtension dot name extension := by
  by_cases dotted : dot ∈ name.drop 1
  · -- cut the name at its last dot
    obtain ⟨back, front, cut, last⟩ := List.eq_append_cons_of_mem
      (List.mem_reverse.mpr (List.mem_of_mem_drop dotted))
    obtain rfl : name = front.reverse ++ dot :: back.reverse := by
      rw [← List.reverse_reverse name, cut]
      simp
    have last' : dot ∉ back.reverse := fun member => last (List.mem_reverse.mp member)
    have filled : front.reverse ≠ [] := by
      intro empty
      rw [empty] at dotted
      exact last' dotted
    exact ⟨back.reverse, .behindDot filled last'⟩
  · exact ⟨[], .dotless dotted⟩

theorem rawExtension_append {stem extension : Bytes} (filled : stem ≠ [])
    (last : byte '.' ∉ extension) :
    Path.rawExtension (stem ++ byte '.' :: extension) = extension := by
  have dotted : byte '.' ∈ (stem ++ byte '.' :: extension).drop 1 := by
    obtain ⟨first, others, rfl⟩ := List.exists_cons_of_ne_nil filled
    exact List.mem_append_right others List.mem_cons_self
  have inside : ∀ b ∈ extension.reverse, decide (b ≠ byte '.') = true := by
    intro b member
    rw [decide_eq_true_eq]
    rintro rfl
    exact last (List.mem_reverse.mp member)
  have stops : Text.StopsRun (fun b => decide (b ≠ byte '.')) (byte '.' :: stem.reverse) :=
    Text.stopsRun_cons (by simp) _
  rw [Path.rawExtension, if_pos dotted, List.reverse_append, List.reverse_cons, List.append_assoc,
    List.singleton_append, Text.takeWhile_run inside stops, List.reverse_reverse]

theorem isExtension_iff {name extension : Bytes} :
    IsExtension (byte '.') name extension ↔ Path.rawExtension name = extension := by
  have raw : ∀ {extension : Bytes}, IsExtension (byte '.') name extension →
      Path.rawExtension name = extension := by
    rintro extension (⟨filled, last⟩ | dotless)
    · exact rawExtension_append filled last
    · rw [Path.rawExtension, if_neg dotless]
  refine ⟨raw, ?_⟩
  rintro rfl
  obtain ⟨extension, behind⟩ := exists_isExtension (byte '.') name
  rwa [raw behind]

theorem isSingle_dot : Utf8.IsSingle '.' := by
  rw [Utf8.IsSingle]
  decide

/-- The extension of a text is the extension of its bytes. -/
theorem IsExtension.encode {name extension : Text} (behind : IsExtension '.' name extension) :
    IsExtension (byte '.') (Utf8.encode name) (Utf8.encode extension) := by
  cases behind with
  | @behindDot stem extension filled last =>
    rw [Utf8.encode_append, Utf8.encode_cons, isSingle_dot.encodeChar]
    exact .behindDot (Utf8.encode_ne_nil filled)
      fun member => last ((Utf8.byte_mem_encode_iff isSingle_dot).mp member)
  | dotless dotless =>
    exact .dotless fun member => dotless ((Utf8.byte_mem_drop_encode_iff isSingle_dot).mp member)

/-- The extension by which a file is looked for. -/
inductive HasExtension (name : Bytes) : (extension : Text) → Prop
  /-- The extension of its name, if this is a text. -/
  | text {extension : Text} : IsExtension (byte '.') name (Utf8.encode extension) →
      HasExtension name extension
  /-- An extension that is no text counts as empty. -/
  | untext {written : Bytes} : IsExtension (byte '.') name written →
      (∀ text, written ≠ Utf8.encode text) → HasExtension name []

theorem hasExtension_iff {name : Bytes} {extension : Text} :
    HasExtension name extension ↔ Path.extensionOf name = extension := by
  rw [Path.extensionOf]
  constructor
  · rintro (behind | ⟨behind, strange⟩)
    · rw [isExtension_iff.mp behind, Utf8.decode?_encode, Option.getD_some]
    · cases decoded : Utf8.decode? (Path.rawExtension name) with
      | none => rfl
      | some text =>
        rw [isExtension_iff.mp behind] at decoded
        exact absurd (Utf8.decode?_eq_some_iff.mp decoded) (strange text)
  · rintro rfl
    cases decoded : Utf8.decode? (Path.rawExtension name) with
    | none =>
      refine .untext (isExtension_iff.mpr rfl) fun text equal => ?_
      simp [Utf8.decode?_eq_some_iff.mpr equal] at decoded
    | some text => exact .text (isExtension_iff.mpr (Utf8.decode?_eq_some_iff.mp decoded))

/-- A name that is a text is looked for by the extension of the text. -/
theorem hasExtension_encode_iff {name extension : Text} :
    HasExtension (Utf8.encode name) extension ↔ IsExtension '.' name extension := by
  constructor
  · intro looked
    obtain ⟨own, behind⟩ := exists_isExtension '.' name
    have same : own = extension :=
      (hasExtension_iff.mp (.text behind.encode)).symm.trans (hasExtension_iff.mp looked)
    rwa [← same]
  · exact fun behind => .text behind.encode

namespace Disk

/-! ## Sources below a directory -/

/-- A directory of this name is entered: it is neither hidden nor one of dependencies. A name that
is no text is neither. -/
def IsEntered (name : Bytes) : Prop :=
  ∀ text, name = Utf8.encode text → text ≠ "node_modules".toList ∧ text.head? ≠ some '.'

theorem isEntered_encode_iff {text : Text} :
    IsEntered (Utf8.encode text) ↔ text ≠ "node_modules".toList ∧ text.head? ≠ some '.' := by
  constructor
  · exact fun entered => entered text rfl
  · intro visible other equal
    obtain rfl := Utf8.encode_inj.mp equal
    exact visible

theorem isEntered_iff {name : Bytes} : IsEntered name ↔ isSkippedDirectory name = false := by
  rw [isSkippedDirectory, Bool.or_eq_false_iff, decide_eq_false_iff_not, decide_eq_false_iff_not]
  cases decoded : Utf8.decode? name with
  | none =>
    refine iff_of_true (fun text equal => ?_) (by decide)
    simp [Utf8.decode?_eq_some_iff.mpr equal] at decoded
  | some text =>
    obtain rfl := Utf8.decode?_eq_some_iff.mp decoded
    rw [isEntered_encode_iff, Option.getD_some]

/-- The file is a source below the directory at a place: names that are entered lead to it, and it
has one of the extensions. -/
structure IsSource (disk : Disk) (extensions : List Text) (place : Place)
    (directories : List Bytes) (file : Bytes) : Prop where
  there : ∃ content, disk.find? (place ++ (directories ++ [file])) = some (.file content)
  entered : ∀ name ∈ directories, IsEntered name
  listed : ∃ extension ∈ extensions, HasExtension file extension

/-- The same for names that are texts. -/
structure IsTextSource (disk : Disk) (extensions : List Text) (place : Place)
    (directories : List Text) (file : Text) : Prop where
  there : ∃ content,
    disk.find? (place ++ (directories ++ [file]).map Utf8.encode) = some (.file content)
  entered : ∀ name ∈ directories, name ≠ "node_modules".toList ∧ name.head? ≠ some '.'
  listed : ∃ extension ∈ extensions, IsExtension '.' file extension

/-- All names below a place are texts. -/
def Textual (disk : Disk) (place : Place) : Prop :=
  ∀ names entry, (place ++ names, entry) ∈ disk.entries → ∀ name ∈ names,
    ∃ text, Utf8.encode text = name

/-- Every directory that is entered below a path has a path that can be opened. -/
def Walkable (disk : Disk) (root : Path) (place : Place) : Prop :=
  ∀ directories : List Bytes, (∀ name ∈ directories, IsEntered name) →
    (place ++ directories, .directory) ∈ disk.entries →
      (directories.foldl Path.join root).fault? = none

variable {disk : Disk} {extensions : List Text}

theorem isSource_cons_iff {place : Place} {name file : Bytes} {directories : List Bytes} :
    disk.IsSource extensions place (name :: directories) file ↔
      IsEntered name ∧ disk.IsSource extensions (place ++ [name]) directories file := by
  have same : place ++ (name :: directories ++ [file]) =
      place ++ [name] ++ (directories ++ [file]) := by simp
  constructor
  · rintro ⟨there, entered, listed⟩
    obtain ⟨first, others⟩ := List.forall_mem_cons.mp entered
    exact ⟨first, same ▸ there, others, listed⟩
  · rintro ⟨first, there, others, listed⟩
    exact ⟨same ▸ there, List.forall_mem_cons.mpr ⟨first, others⟩, listed⟩

theorem nodup_flatMap_of_head {children : List (Bytes × Entry)}
    {below : Bytes × Entry → List (List Bytes)}
    (distinct : children.Pairwise fun child other => child.1 ≠ other.1)
    (starts : ∀ child ∈ children,
      (below child).Nodup ∧ ∀ names ∈ below child, names.head? = some child.1) :
    (children.flatMap below).Nodup := by
  refine List.nodup_flatMap.mpr ⟨fun child member => (starts child member).1, ?_⟩
  refine distinct.imp_of_mem fun {child other} member member' differ names inside inside' => ?_
  have first := (starts child member).2 names inside
  rw [(starts other member').2 names inside'] at first
  exact differ (Option.some.inj first).symm

/-- Where all names are texts, the sources can be told by the texts. -/
theorem isSource_iff_of_textual {place : Place} (textual : disk.Textual place)
    {directories : List Bytes} {file : Bytes} :
    disk.IsSource extensions place directories file ↔
      ∃ (directoryTexts : List Text) (fileText : Text),
        directories = directoryTexts.map Utf8.encode ∧ file = Utf8.encode fileText ∧
          disk.IsTextSource extensions place directoryTexts fileText := by
  constructor
  · rintro ⟨⟨content, there⟩, entered, extension, listed, extended⟩
    have texts := textual _ _ (mem_of_find? (ne_nil_of_file there) there)
    rw [List.forall_mem_append, List.forall_mem_singleton] at texts
    obtain ⟨below, fileText, rfl⟩ := texts
    obtain ⟨directoryTexts, rfl⟩ : directories ∈ Set.range (List.map Utf8.encode) := by
      rw [Set.range_list_map]
      exact below
    refine ⟨directoryTexts, fileText, rfl, rfl, ⟨content, ?_⟩, ?_, extension, listed,
      hasExtension_encode_iff.mp extended⟩
    · rwa [List.map_append, List.map_singleton]
    · exact fun name member => isEntered_encode_iff.mp (entered _ (List.mem_map_of_mem member))
  · rintro ⟨directoryTexts, fileText, rfl, rfl, ⟨content, there⟩, entered, extension,
      listed, behind⟩
    rw [List.map_append, List.map_singleton] at there
    refine ⟨⟨content, there⟩, ?_, extension, listed, hasExtension_encode_iff.mpr behind⟩
    rw [List.forall_mem_map]
    exact fun name member => isEntered_encode_iff.mpr (entered name member)

namespace IsTree

variable (tree : disk.IsTree)
include tree

theorem isEntryName_of_file {place : Place} {content : Bytes}
    (file : disk.find? place = some (.file content)) : ∀ name ∈ place, IsEntryName name :=
  (tree.named _ (mem_of_find? (ne_nil_of_file file) file)).2

/-- What is below a directory is in a directory on the way. -/
theorem find?_directory_of_append {place : Place} {names : List Bytes} (filled : names ≠ [])
    (found : disk.find? (place ++ names) ≠ none) : disk.find? place = some .directory := by
  induction names using List.reverseRecOn with
  | nil => exact absurd rfl filled
  | append_singleton front last induction =>
    rw [← List.append_assoc] at found
    have directory := tree.find?_directory_of_concat found
    by_cases empty : front = []
    · rwa [empty, List.append_nil] at directory
    · exact induction empty (by simp [directory])

/-- The directories on the way to a source are there. -/
theorem mem_directory_of_isSource {place : Place} {front back : List Bytes} {file : Bytes}
    (filled : front ≠ []) (source : disk.IsSource extensions place (front ++ back) file) :
    (place ++ front, .directory) ∈ disk.entries := by
  obtain ⟨content, there⟩ := source.there
  rw [List.append_assoc, ← List.append_assoc place] at there
  have directory : disk.find? (place ++ front) = some .directory :=
    tree.find?_directory_of_append (by simp) (there ▸ Option.some_ne_none _)
  exact mem_of_find? (List.append_ne_nil_of_right_ne_nil place filled) directory

/-- The search below a path that can be opened finds the sources whose directories have such paths.
It goes down far enough: each directory makes the path longer by a byte at least. -/
theorem mem_sourcesBelow_iff {fuel : Nat} {ancestors : List Place} {path : Path} {place : Place}
    {names : List Bytes} (enough : pathLimit ≤ fuel + path.bytes.length)
    (faultless : path.fault? = none) :
    names ∈ disk.sourcesBelow extensions fuel ancestors path place ↔
      ∃ directories file, names = directories ++ [file] ∧
        disk.IsSource extensions place directories file ∧
        (directories.foldl Path.join path).fault? = none := by
  induction fuel generalizing ancestors path place names with
  | zero =>
    have short := (Path.fault?_eq_none_iff.mp faultless).2.2
    omega
  | succ fuel induction =>
    have filled := (Path.fault?_eq_none_iff.mp faultless).2.1
    have below : ∀ {name : Bytes}, (place ++ [name], .directory) ∈ disk.entries →
        pathLimit ≤ fuel + (path.join name).bytes.length := by
      intro name there
      have longer := path.length_lt_length_join ((tree.named _ there).2 name (by simp))
      omega
    rw [tree.mem_sourcesBelow_succ_iff]
    constructor
    · rintro ⟨name, others, rfl,
        ⟨⟨content, there⟩, rfl, listed⟩ | ⟨there, opened, visible, found⟩⟩
      · refine ⟨[], name, rfl, ⟨⟨content, tree.find?_of_mem there⟩, List.forall_mem_nil _, ?_⟩,
          faultless⟩
        exact ⟨_, listed, hasExtension_iff.mpr rfl⟩
      · obtain ⟨directories, file, rfl, source, short⟩ := (induction (below there) opened).mp found
        exact ⟨name :: directories, file, rfl,
          isSource_cons_iff.mpr ⟨isEntered_iff.mpr visible, source⟩, short⟩
    · rintro ⟨directories, file, rfl, source, short⟩
      cases directories with
      | nil =>
        obtain ⟨⟨content, there⟩, -, extension, listed, extended⟩ := source
        refine ⟨file, [], rfl, .inl ⟨⟨content, ?_⟩, rfl, ?_⟩⟩
        · exact mem_of_find? (ne_nil_of_file there) there
        · rwa [hasExtension_iff.mp extended]
      | cons name directories =>
        have there : (place ++ [name], .directory) ∈ disk.entries :=
          tree.mem_directory_of_isSource (List.cons_ne_nil name []) source
        obtain ⟨entered, source⟩ := isSource_cons_iff.mp source
        have opened : (path.join name).fault? = none :=
          Path.fault?_eq_none_of_prefix (Path.join_ne_nil filled name)
            (Path.bytes_prefix_foldl_join _ _) short
        refine ⟨name, directories ++ [file], rfl,
          .inr ⟨there, opened, isEntered_iff.mp entered, ?_⟩⟩
        exact (induction (below there) opened).mpr ⟨directories, file, rfl, source, short⟩

/-! ## Every source once -/

/-- The entries of a directory have different names. -/
theorem pairwise_children (place : Place) :
    (disk.children place).Pairwise fun child other => child.1 ≠ other.1 := by
  have distinct : disk.entries.Pairwise fun entry other => entry.1 ≠ other.1 :=
    List.pairwise_map.mp tree.distinct
  rw [children, List.pairwise_filterMap]
  refine distinct.imp fun {entry other} differ child found child' found' same => differ ?_
  -- a child of the directory on a disk of one entry is that entry
  have own := (@mem_children_iff { entries := [entry] } place child.1 child.2).mp
    (List.mem_filterMap.mpr ⟨entry, List.mem_singleton_self entry, found⟩)
  have own' := (@mem_children_iff { entries := [other] } place child'.1 child'.2).mp
    (List.mem_filterMap.mpr ⟨other, List.mem_singleton_self other, found'⟩)
  rw [← List.mem_singleton.mp own, ← List.mem_singleton.mp own', same]

theorem nodup_sourcesBelow (fuel : Nat) (ancestors : List Place) (path : Path) (place : Place) :
    (disk.sourcesBelow extensions fuel ancestors path place).Nodup := by
  induction fuel generalizing ancestors path place with
  | zero => exact List.nodup_nil
  | succ fuel induction =>
    rw [sourcesBelow]
    refine nodup_flatMap_of_head (tree.pairwise_children place) ?_
    rintro ⟨name, entry⟩ child
    cases entry with
    | file content =>
      dsimp only
      split <;> simp
    | directory =>
      dsimp only
      split
      · split
        · simp
        · exact ⟨(induction _ _ _).map fun _ _ => List.tail_eq_of_cons_eq, by simp⟩
      · simp
    | link target => exact absurd rfl (tree.linkless _ (mem_children_iff.mp child) target)

/-- The sources below a path are those whose directories have paths that can be opened, in the order
of their paths. -/
theorem sources_exact {root : Path} {place : Place} (led : disk.resolve root = .ok place)
    (extensions : List Text) :
    (disk.sources extensions root place).Pairwise Path.Less ∧
      ∀ path, path ∈ disk.sources extensions root place ↔
        ∃ directories file, disk.IsSource extensions place directories file ∧
          (directories.foldl Path.join root).fault? = none ∧
          path = (directories ++ [file]).foldl Path.join root := by
  have faultless := (tree.resolve_eq_ok_iff.mp led).1
  have filled := (Path.fault?_eq_none_iff.mp faultless).2.1
  constructor
  · have proper : ∀ names ∈ (disk.sourcesBelow extensions pathLimit [place] root place).mergeSort
        namesLe, ∀ name ∈ names, IsEntryName name := fun names member =>
      (tree.find?_of_mem_sourcesBelow (List.mem_mergeSort.mp member)).1
    refine List.pairwise_map.mpr ?_
    refine (pairwise_mergeSort_namesLe (tree.nodup_sourcesBelow _ _ _ _)).imp_of_mem ?_
    intro names others member member' less
    exact Path.less_foldl_join filled (proper names member) (proper others member') less
  · intro path
    rw [sources, List.mem_map]
    constructor
    · rintro ⟨names, member, rfl⟩
      obtain ⟨directories, file, rfl, source, short⟩ := (tree.mem_sourcesBelow_iff
        (Nat.le_add_right _ _) faultless).mp (List.mem_mergeSort.mp member)
      exact ⟨directories, file, source, short, rfl⟩
    · rintro ⟨directories, file, source, short, rfl⟩
      refine ⟨directories ++ [file], List.mem_mergeSort.mpr ?_, rfl⟩
      exact (tree.mem_sourcesBelow_iff (Nat.le_add_right _ _) faultless).mpr
        ⟨directories, file, rfl, source, short⟩

/-- Discovery succeeds for every directory of a tree. Its result is strictly ordered, so no path is
repeated, and it holds the paths of exactly the sources below the directory whose own directories
have paths that can be opened; these are all sources, if the search can walk everywhere. Where all
names are texts, this can be said of their texts. -/
theorem discover_exact {root : Path} {place : Place} (led : disk.resolve root = .ok place)
    (directory : disk.find? place = some .directory) (extensions : List Text) :
    ∃ found, disk.discover extensions root = .ok (found, [.discovered found.length root]) ∧
      found.Pairwise Path.Less ∧ (found.map Path.components).Nodup ∧
      (∀ path, path ∈ found ↔ ∃ directories file,
        disk.IsSource extensions place directories file ∧
          (directories.foldl Path.join root).fault? = none ∧
          path = (directories ++ [file]).foldl Path.join root) ∧
      (disk.Walkable root place →
        (∀ path, path ∈ found ↔ ∃ directories file,
          disk.IsSource extensions place directories file ∧
            path = (directories ++ [file]).foldl Path.join root) ∧
        (disk.Textual place → ∀ path, path ∈ found ↔ ∃ directories file,
          disk.IsTextSource extensions place directories file ∧
            path = ((directories ++ [file]).map Utf8.encode).foldl Path.join root)) := by
  obtain ⟨sorted, members⟩ := tree.sources_exact led extensions
  refine ⟨disk.sources extensions root place, ?_, sorted, ?_, members, fun walkable => ?_⟩
  · rw [discover, led]
    simp only [directory]
  · exact List.pairwise_map.mpr (sorted.imp Path.components_ne_of_less)
  · have all : ∀ path, path ∈ disk.sources extensions root place ↔ ∃ directories file,
        disk.IsSource extensions place directories file ∧
          path = (directories ++ [file]).foldl Path.join root := by
      intro path
      rw [members]
      refine exists_congr fun directories => exists_congr fun file =>
        and_congr_right fun source => and_iff_right ?_
      by_cases empty : directories = []
      · rw [empty]
        exact (tree.resolve_eq_ok_iff.mp led).1
      · refine walkable directories source.entered ?_
        exact tree.mem_directory_of_isSource empty (by rwa [List.append_nil])
    refine ⟨all, fun textual path => ?_⟩
    rw [all]
    constructor
    · rintro ⟨directories, file, source, rfl⟩
      obtain ⟨texts, text, rfl, rfl, named⟩ := (isSource_iff_of_textual textual).mp source
      exact ⟨texts, text, named, by rw [List.map_append, List.map_singleton]⟩
    · rintro ⟨texts, text, named, rfl⟩
      refine ⟨_, _, (isSource_iff_of_textual textual).mpr ⟨texts, text, rfl, rfl, named⟩, ?_⟩
      rw [List.map_append, List.map_singleton]

end IsTree

/-- A hidden directory with a hidden source, which also stands in two directories within it, one of
them with dependencies. -/
def hiddenDisk : Disk where
  entries := [
    (["tmp"], .directory),
    (["tmp", ".cache"], .directory),
    (["tmp", ".cache", ".a.tsx"], .file []),
    (["tmp", ".cache", "lib"], .directory),
    (["tmp", ".cache", "lib", ".a.tsx"], .file []),
    (["tmp", ".cache", "node_modules"], .directory),
    (["tmp", ".cache", "node_modules", ".a.tsx"], .file [])].map fun (names, entry) =>
      (names.map bytes, entry)

theorem isTree_hiddenDisk : hiddenDisk.IsTree where
  distinct := by decide
  named := by decide
  held := by decide
  linkless := by simp [hiddenDisk]
  rooted := rfl

theorem walkable_hiddenDisk :
    hiddenDisk.Walkable ⟨bytes "/tmp/.cache"⟩ [bytes "tmp", bytes ".cache"] := by
  intro directories _ there
  simp only [hiddenDisk, List.map_cons, List.map_nil, List.mem_cons, Prod.mk.injEq,
    List.cons_append, List.nil_append, List.cons.injEq, true_and, and_true, reduceCtorEq, and_false,
    false_or, or_false, List.not_mem_nil] at there
  rcases there with rfl | rfl | rfl <;> rfl

theorem textual_hiddenDisk (place : Place) : hiddenDisk.Textual place := by
  intro names entry there name member
  obtain ⟨⟨strings, _⟩, -, equal⟩ := List.mem_map.mp there
  have written : name ∈ strings.map bytes := by
    rw [(Prod.mk.inj equal).1]
    exact List.mem_append_right place member
  obtain ⟨string, -, rfl⟩ := List.mem_map.mp written
  exact ⟨string.toList, rfl⟩

/-- By its absolute path the hidden directory is searched, and the hidden source is found; the one
among the dependencies is not. -/
theorem discover_exact_hiddenDisk : hiddenDisk.IsTree ∧
    hiddenDisk.resolve ⟨bytes "/tmp/.cache"⟩ = .ok [bytes "tmp", bytes ".cache"] ∧
    hiddenDisk.find? [bytes "tmp", bytes ".cache"] = some .directory ∧
    hiddenDisk.Walkable ⟨bytes "/tmp/.cache"⟩ [bytes "tmp", bytes ".cache"] ∧
    hiddenDisk.Textual [bytes "tmp", bytes ".cache"] ∧
    ∃ found, hiddenDisk.discover ["tsx".toList] ⟨bytes "/tmp/.cache"⟩ =
        .ok (found, [.discovered found.length ⟨bytes "/tmp/.cache"⟩]) ∧
      found.Pairwise Path.Less ∧ ⟨bytes "/tmp/.cache/.a.tsx"⟩ ∈ found ∧
      ⟨bytes "/tmp/.cache/lib/.a.tsx"⟩ ∈ found ∧
      ⟨bytes "/tmp/.cache/node_modules/.a.tsx"⟩ ∉ found := by
  have led : hiddenDisk.resolve ⟨bytes "/tmp/.cache"⟩ = .ok [bytes "tmp", bytes ".cache"] :=
    (IsTree.resolve_eq_ok_iff isTree_hiddenDisk).mpr ⟨rfl, rfl⟩
  obtain ⟨found, discovered, sorted, -, -, all⟩ :=
    IsTree.discover_exact isTree_hiddenDisk led rfl ["tsx".toList]
  have members := (all walkable_hiddenDisk).2 (textual_hiddenDisk _)
  have listed : ∃ extension ∈ ["tsx".toList], IsExtension '.' ".a.tsx".toList extension :=
    ⟨_, List.mem_singleton_self _, .behindDot (List.cons_ne_nil '.' ['a']) (by decide)⟩
  have entered : ∀ name ∈ ["lib".toList], name ≠ "node_modules".toList ∧ name.head? ≠ some '.' := by
    decide
  refine ⟨isTree_hiddenDisk, led, rfl, walkable_hiddenDisk, textual_hiddenDisk _, found, discovered,
    sorted, ?_, ?_, ?_⟩
  · exact (members _).mpr ⟨[], ".a.tsx".toList, ⟨⟨[], rfl⟩, List.forall_mem_nil _, listed⟩, rfl⟩
  · exact (members _).mpr ⟨["lib".toList], ".a.tsx".toList, ⟨⟨[], rfl⟩, entered, listed⟩, rfl⟩
  · intro member
    obtain ⟨directories, file, source, equal⟩ := (members _).mp member
    obtain ⟨content, there⟩ := source.there
    have proper :=
      (List.forall_mem_append.mp (IsTree.isEntryName_of_file isTree_hiddenDisk there)).2
    have proper' : ∀ name ∈ [bytes "node_modules", bytes ".a.tsx"], IsEntryName name := by decide
    -- the path can be reached by these two names only
    have names : (directories ++ [file]).map Utf8.encode =
        ["node_modules".toList, ".a.tsx".toList].map Utf8.encode :=
      Path.eq_of_foldl_join_eq (List.cons_ne_nil _ _) proper proper' equal.symm
    have texts : directories ++ [file] = ["node_modules".toList] ++ [".a.tsx".toList] :=
      (List.map_inj_right fun _ _ => Utf8.encode_inj.mp).mp names
    obtain ⟨rfl, -⟩ := List.append_inj' texts rfl
    exact (source.entered _ List.mem_cons_self).1 rfl

/-- A hidden directory whose name is no text, with a source, and a file whose extension is no
text. -/
def strangeDisk : Disk where
  entries := [
    ([[0x2E, 0xFF]], .directory),
    ([[0x2E, 0xFF], bytes "a.tsx"], .file []),
    ([bytes "b." ++ [0xFF]], .file [])]

theorem isTree_strangeDisk : strangeDisk.IsTree where
  distinct := by decide
  named := by decide
  held := by decide
  linkless := by simp [strangeDisk]
  rooted := rfl

/-- The directory is entered, and the file counts as one without extension. Nothing is found by a
path that leads to the working directory but is too long. -/
theorem discover_inexact_strangeDisk :
    (∃ found, strangeDisk.discover ["tsx".toList, []] ⟨bytes "."⟩ =
        .ok (found, [.discovered found.length ⟨bytes "."⟩]) ∧
      ⟨bytes "./." ++ [0xFF] ++ bytes "/a.tsx"⟩ ∈ found ∧ ⟨bytes "./b." ++ [0xFF]⟩ ∈ found) ∧
    strangeDisk.follow .use linkLimit [] (Path.behindDots ⟨bytes "."⟩ 2048).parts = .ok [] ∧
    strangeDisk.discover ["tsx".toList, []] (Path.behindDots ⟨bytes "."⟩ 2048) =
      .error (.notFound (Path.behindDots ⟨bytes "."⟩ 2048)) := by
  have led : strangeDisk.resolve ⟨bytes "."⟩ = .ok [] :=
    (IsTree.resolve_eq_ok_iff isTree_strangeDisk).mpr ⟨rfl, rfl⟩
  have members := (IsTree.sources_exact isTree_strangeDisk led ["tsx".toList, []]).2
  refine ⟨⟨strangeDisk.sources ["tsx".toList, []] ⟨bytes "."⟩ [], ?_, ?_, ?_⟩, ?_, ?_⟩
  · rw [discover, led]
    rfl
  · have entered : ∀ name ∈ [[0x2E, 0xFF]], IsEntered name :=
      List.forall_mem_singleton.mpr (isEntered_iff.mpr rfl)
    have listed : HasExtension (bytes "a.tsx") "tsx".toList := hasExtension_iff.mpr rfl
    exact (members _).mpr ⟨[[0x2E, 0xFF]], bytes "a.tsx",
      ⟨⟨[], rfl⟩, entered, _, List.mem_cons_self, listed⟩, rfl, rfl⟩
  · have listed : HasExtension (bytes "b." ++ [0xFF]) [] := hasExtension_iff.mpr rfl
    exact (members _).mpr ⟨[], bytes "b." ++ [0xFF], ⟨⟨[], rfl⟩, List.forall_mem_nil _, _,
      List.mem_cons_of_mem _ List.mem_cons_self, listed⟩, rfl, rfl⟩
  · rw [follow_behindDots rfl]
    exact led
  · have long : (Path.behindDots ⟨bytes "."⟩ 2048).fault? = some .tooLong :=
      Path.fault?_behindDots (by decide) (by decide)
    rw [discover, resolve, locate, long]

end Disk

end JsxCalls
