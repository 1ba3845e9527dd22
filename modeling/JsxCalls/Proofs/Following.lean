import JsxCalls.Disk.Access

/-!
# Paths over a changing disk

Where a path leads depends on the directories and the links of a disk, and not on what its files
hold. So a path leads to the same place after a file was written where a file was before. A file
that can be read through a path is written through it at the same place, unless it is locked. With
single dots before it a path leads to the same place, until it is too long to be opened.
-/

namespace JsxCalls

open Utf8 (byte)

/-! ## Names -/

/-- A name that an entry of a directory can have. -/
structure IsEntryName (name : Bytes) : Prop where
  slashless : byte '/' ∉ name
  busy : Path.isIdle name = false
  below : name ≠ Path.twoDots
  short : name.length ≤ nameLimit

instance (name : Bytes) : Decidable (IsEntryName name) :=
  decidable_of_iff (byte '/' ∉ name ∧ Path.isIdle name = false ∧ name ≠ Path.twoDots ∧
      name.length ≤ nameLimit)
    ⟨fun ⟨slashless, busy, below, short⟩ => ⟨slashless, busy, below, short⟩,
      fun ⟨slashless, busy, below, short⟩ => ⟨slashless, busy, below, short⟩⟩

/-! ## Shapes -/

/-- The entry without what a file holds. -/
def Entry.shape : Entry → Entry
  | .file _ => .file []
  | .directory => .directory
  | .link target => .link target

theorem Entry.shape_eq_iff {entry other : Entry} (plain : ∀ content, other ≠ .file content) :
    entry.shape = other ↔ entry = other := by
  cases entry with
  | file content =>
    have kept : Entry.file content ≠ other := (plain content).symm
    have emptied : Entry.shape (.file content) ≠ other := (plain []).symm
    exact iff_of_false emptied kept
  | directory => rfl
  | link target => rfl

namespace Disk

theorem ne_nil_of_file {disk : Disk} {place : Place} {content : Bytes}
    (found : disk.find? place = some (.file content)) : place ≠ [] := by
  rintro rfl
  simp [find?] at found

/-- Both disks have entries of the same kind at the same places, and nothing else differs. -/
structure SameShape (disk other : Disk) : Prop where
  here : disk.here = other.here
  locked : disk.locked = other.locked
  shapes : ∀ place, (disk.find? place).map Entry.shape = (other.find? place).map Entry.shape

namespace SameShape

variable {disk other : Disk} (same : SameShape disk other)
include same

theorem find?_eq_none_iff (place : Place) : disk.find? place = none ↔ other.find? place = none := by
  rw [← Option.map_eq_none_iff, same.shapes place, Option.map_eq_none_iff]

theorem find?_eq_some_iff {entry : Entry} (plain : ∀ content, entry ≠ .file content)
    (place : Place) :
    disk.find? place = some entry ↔ other.find? place = some entry := by
  have shapes : ∀ found : Option Entry,
      found.map Entry.shape = some entry ↔ found = some entry := by
    intro found
    cases found with
    | none => simp
    | some there => simp [Entry.shape_eq_iff plain]
  rw [← shapes, same.shapes place, shapes]

theorem exists_file {place : Place} {content : Bytes}
    (found : disk.find? place = some (.file content)) :
    ∃ there, other.find? place = some (.file there) := by
  have shapes := same.shapes place
  rw [found] at shapes
  obtain ⟨entry, equal, shape_eq⟩ := Option.map_eq_some_iff.mp shapes.symm
  cases entry with
  | file there => exact ⟨there, equal⟩
  | directory => simp [Entry.shape] at shape_eq
  | link target => simp [Entry.shape] at shape_eq

theorem find?_directory_iff (place : Place) :
    disk.find? place = some .directory ↔ other.find? place = some .directory :=
  same.find?_eq_some_iff (fun _ => by simp) place

/-- A path leads to the same place on both disks. -/
theorem follow_eq (purpose : Purpose) (links : Nat) (here : Place) (parts : List Bytes) :
    disk.follow purpose links here parts = other.follow purpose links here parts := by
  cases parts with
  | nil => rw [follow, follow]
  | cons part parts =>
    have idle := follow_eq purpose links here parts
    have up := follow_eq purpose links here.parent parts
    have into := follow_eq purpose links (here ++ [part]) parts
    rw [follow, follow]
    simp only [ne_eq, same.find?_directory_iff here, idle, up]
    cases found : disk.find? (here ++ [part]) with
    | none => rw [(same.find?_eq_none_iff _).mp found]
    | some entry =>
      cases entry with
      | file content =>
        obtain ⟨there, other_found⟩ := same.exists_file found
        rw [other_found]
        simp only [into]
      | directory =>
        rw [(same.find?_directory_iff _).mp found]
        simp only [into]
      | link target =>
        rw [(same.find?_eq_some_iff (fun _ => by simp) _).mp found]
        cases links with
        | zero => rfl
        | succ links =>
          have linked := follow_eq purpose links (target.start here) (target.parts ++ parts)
          simp only [linked]
termination_by (links, parts.length)

theorem resolve_eq (path : Path) : disk.resolve path = other.resolve path := by
  simp only [resolve, locate, same.follow_eq, same.here]

end SameShape

/-- Writing a file where a file is changes no shape. -/
theorem sameShape_put {disk : Disk} {place : Place} {old : Bytes}
    (found : disk.find? place = some (.file old)) (content : Bytes) :
    SameShape disk (disk.put place (.file content)) := by
  refine ⟨rfl, rfl, fun other => ?_⟩
  rw [find?_put (ne_nil_of_file found)]
  split
  · rename_i here
    rw [here, found]
    rfl
  · rfl

/-! ## Reading and writing through one path -/

/-- The name of a file in a directory leads to it. -/
theorem follow_file {disk : Disk} {here : Place} {name content : Bytes}
    (inside : disk.find? here = some .directory)
    (found : disk.find? (here ++ [name]) = some (.file content)) (proper : IsEntryName name)
    (links : Nat) : disk.follow .use links here [name] = .ok (here ++ [name]) := by
  rw [follow, if_neg (not_not_intro inside), if_neg (by simp [proper.busy]), if_neg proper.below,
    if_neg fun writes => Purpose.noConfusion writes.1, if_neg (Nat.not_lt.mpr proper.short), found]
  exact follow.eq_1 _ _ _ _

/-- A path that ends with a slash leads to a directory. -/
theorem find?_of_follow_slash {disk : Disk} {links : Nat} {here place : Place} {parts : List Bytes}
    (led : disk.follow .use links here parts = .ok place) (slash : parts.getLast? = some []) :
    disk.find? place = some .directory := by
  have later : ∀ {part : Bytes} {parts : List Bytes},
      (part :: parts).getLast? = some [] → part ≠ [] →
      parts.getLast? = some [] := by
    intro part parts slash named
    cases parts with
    | nil => exact absurd (Option.some.inj slash) named
    | cons next parts => simpa using slash
  fun_induction follow disk .use links here parts with
  | case1 links here => simp at slash
  | case3 links here part parts inside idle induction =>
    cases parts with
    | nil =>
      rw [follow] at led
      obtain rfl : here = place := Except.ok.inj led
      exact Decidable.not_not.mp inside
    | cons next parts => exact induction led (by simpa using slash)
  | case4 links here parts inside visible induction => exact induction led (later slash (by decide))
  | case10 here part parts inside visible named plain short target linked links induction =>
    have more := later slash fun empty => visible (by simp [Path.isIdle, empty])
    exact induction led (by rw [List.getLast?_append, more, Option.some_or])
  | case11 links here part parts inside visible named plain short entry unlinked found induction =>
    exact induction led (later slash fun empty => visible (by simp [Path.isIdle, empty]))
  | _ => simp_all

/-- The last part of a path to a file has no slash behind it. -/
theorem not_slashes_of_file {disk : Disk} {links : Nat} {here place : Place} {parts : List Bytes}
    (front : List Bytes) (led : disk.follow .use links here (front ++ parts) = .ok place)
    (file : disk.find? place ≠ some .directory) :
    ¬ (Purpose.write = .write ∧ parts ≠ [] ∧ parts.all List.isEmpty = true) := by
  rintro ⟨-, filled, slashes⟩
  refine file (find?_of_follow_slash led ?_)
  have empty := List.all_eq_true.mp slashes _ (List.getLast_mem filled)
  rw [List.getLast?_append, List.getLast?_eq_some_getLast filled, List.isEmpty_iff.mp empty,
    Option.some_or]

/-- A file is found through a path for writing where it is found for use. -/
theorem follow_write_of_file {disk : Disk} {links : Nat} {here place : Place} {parts : List Bytes}
    (led : disk.follow .use links here parts = .ok place)
    (file : disk.find? place ≠ some .directory) :
    disk.follow .write links here parts = .ok place := by
  fun_induction follow disk .use links here parts with
  | case1 links here => rw [follow, led]
  | case3 links here part parts inside idle induction =>
    rw [follow, if_neg inside, if_pos idle, induction led]
  | case4 links here parts inside visible induction =>
    rw [follow, if_neg inside, if_neg visible, if_pos rfl, induction led]
  | case10 here part parts inside visible named plain short target linked links induction =>
    rw [follow, if_neg inside, if_neg visible, if_neg named,
      if_neg (not_slashes_of_file target.parts led file), if_neg short, linked]
    exact induction led
  | case11 links here part parts inside visible named plain short entry unlinked found induction =>
    rw [follow, if_neg inside, if_neg visible, if_neg named,
      if_neg (not_slashes_of_file [] led file), if_neg short, found]
    cases entry with
    | file content => exact induction led
    | directory => exact induction led
    | link target => exact absurd rfl (unlinked target)
  | _ => simp_all

/-- The place of the file that a path leads to. -/
def fileAt? (disk : Disk) (path : Path) : Option Place :=
  match disk.resolve path with
  | .error _ => none
  | .ok place =>
    match disk.find? place with
    | some (.file _) => some place
    | _ => none

theorem fileAt?_eq_some_iff {disk : Disk} {path : Path} {place : Place} :
    disk.fileAt? path = some place ↔
      disk.resolve path = .ok place ∧ ∃ content, disk.find? place = some (.file content) := by
  rw [fileAt?]
  constructor
  · intro found
    split at found
    · simp at found
    · rename_i there led
      split at found
      · rename_i content file
        obtain rfl : there = place := Option.some.inj found
        exact ⟨led, content, file⟩
      · simp at found
  · rintro ⟨led, content, file⟩
    simp only [led, file]

theorem read_eq_ok_iff {disk : Disk} {path : Path} {content : Bytes} :
    disk.read path = .ok content ↔
      ∃ place, disk.resolve path = .ok place ∧ disk.find? place = some (.file content) := by
  rw [read]
  constructor
  · intro bytes
    split at bytes
    · simp at bytes
    · rename_i place led
      split at bytes
      · rename_i there file
        obtain rfl : there = content := Except.ok.inj bytes
        exact ⟨place, led, file⟩
      · simp at bytes
      · simp at bytes
  · rintro ⟨place, led, file⟩
    simp only [led, file]

/-- The path leads to a file that must not be written. -/
def isLocked (disk : Disk) (path : Path) : Bool :=
  (disk.fileAt? path).any (· ∈ disk.locked)

/-- What can be read is written where it was read, unless it is locked. -/
theorem write_of_fileAt? {disk : Disk} {path : Path} {place : Place}
    (there : disk.fileAt? path = some place) (content : Bytes) :
    disk.write path content =
      if disk.isLocked path then .error .denied else .ok (disk.put place (.file content)) := by
  obtain ⟨led, old, file⟩ := fileAt?_eq_some_iff.mp there
  have written : disk.locate .write path = .ok place := by
    rw [resolve, locate] at led
    rw [locate]
    split
    · rename_i fault faulty
      simp [faulty] at led
    · rename_i faultless
      rw [faultless] at led
      exact follow_write_of_file led (by simp [file])
  by_cases locked : place ∈ disk.locked
  · simp [write, written, file, permits, isLocked, there, locked]
  · simp [write, written, file, permits, isLocked, there, locked]

end Disk

/-! ## Paths of any length -/

namespace Path

theorem parts_append_slash (front back : Bytes) :
    parts ⟨front ++ byte '/' :: back⟩ = parts ⟨front⟩ ++ parts ⟨back⟩ :=
  List.splitOnP_append_cons front back (by simp)

/-- The path with single dots before it, which lead nowhere else. -/
def behindDots (path : Path) : Nat → Path
  | 0 => path
  | count + 1 => ⟨[byte '.'] ++ byte '/' :: (path.behindDots count).bytes⟩

theorem length_behindDots (path : Path) (count : Nat) :
    (path.behindDots count).bytes.length = path.bytes.length + 2 * count := by
  induction count with
  | zero => rfl
  | succ count induction =>
    simp only [behindDots, List.singleton_append, List.length_cons, induction]
    omega

/-- Behind enough dots a path cannot be opened any more. -/
theorem fault?_behindDots {path : Path} (nulless : byte '\x00' ∉ path.bytes) {count : Nat}
    (long : pathLimit ≤ path.bytes.length + 2 * count) :
    (path.behindDots count).fault? = some .tooLong := by
  have plain : byte '\x00' ∉ (path.behindDots count).bytes := by
    clear long
    induction count with
    | zero => exact nulless
    | succ count induction => simpa [behindDots] using ⟨by decide, by decide, induction⟩
  rw [← length_behindDots] at long
  have filled : (path.behindDots count).bytes ≠ [] := by
    intro empty
    simp [empty, pathLimit] at long
  rw [fault?, if_neg plain, if_neg filled, if_pos long]

end Path

theorem Disk.follow_behindDots {disk : Disk} {here : Place}
    (directory : disk.find? here = some .directory) (purpose : Purpose) (links : Nat) (path : Path)
    (count : Nat) :
    disk.follow purpose links here (path.behindDots count).parts =
      disk.follow purpose links here path.parts := by
  induction count with
  | zero => rfl
  | succ count induction =>
    have dot : Path.parts ⟨[byte '.']⟩ = [[byte '.']] := by decide
    have idle : Path.isIdle [byte '.'] = true := by decide
    rw [Path.behindDots, Path.parts_append_slash, dot, List.singleton_append, follow,
      if_neg (absurd directory), if_pos idle]
    exact induction

end JsxCalls
