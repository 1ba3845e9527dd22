import Mathlib.Data.List.Induction
import JsxCalls.Proofs.Following

/-!
# Places of paths

On a disk without links, where a path leads can be told from its components and the working
directory alone. So paths with the same components lead to one place, while one place can be spelled
in many ways: a path may start with a dot or with the root directory, it may go into a directory and
out of it again, and it may leave the working directory and come back.
-/

namespace JsxCalls

open Utf8 (byte)

/-! ## Components and places -/

/-- The place to which a component leads from a directory, where there are no links. -/
def Component.lead (here : Place) : Component → Place
  | .root => []
  | .current => here
  | .parent => here.parent
  | .name bytes => here ++ [bytes]

theorem foldl_lead_names (here : Place) (names : List Bytes) :
    (names.map Component.name).foldl Component.lead here = here ++ names := by
  induction names generalizing here with
  | nil => rw [List.map_nil, List.foldl_nil, List.append_nil]
  | cons name names induction =>
    rw [List.map_cons, List.foldl_cons, induction, Component.lead, List.append_assoc,
      List.singleton_append]

theorem Path.same_iff {path other : Path} :
    path.same other = true ↔ path.components = other.components :=
  decide_eq_true_iff

namespace Disk

/-- The place to which a path leads, where there are no links. -/
def placeOf (disk : Disk) (path : Path) : Place :=
  path.components.foldl Component.lead disk.here

theorem placeOf_eq_of_components_eq {disk : Disk} {path other : Path}
    (same : path.components = other.components) : disk.placeOf path = disk.placeOf other := by
  rw [placeOf, placeOf, same]

theorem map_placeOf_eq (disk : Disk) (paths : List Path) :
    paths.map disk.placeOf =
      (paths.map Path.components).map (List.foldl Component.lead disk.here) := by
  rw [List.map_map]
  rfl

/-- The place of a path can be told from its parts, as its first component is where it starts. -/
theorem placeOf_eq (disk : Disk) (path : Path) : disk.placeOf path =
    (path.parts.filterMap Path.component?).foldl Component.lead (path.start disk.here) := by
  rw [placeOf, Path.components, Path.start]
  split
  · rfl
  · split
    · rfl
    · rfl

end Disk

namespace Path

/-- A name that is joined to a path becomes its last part, in place of an empty one. -/
theorem exists_parts_join {path : Path} (filled : path.bytes ≠ []) {name : Bytes}
    (slashless : byte '/' ∉ name) : ∃ front gap, path.parts = front ++ gap ∧ front ≠ [] ∧
      gap.filterMap component? = [] ∧ (path.join name).parts = front ++ [name] := by
  obtain ⟨written⟩ := path
  have alone : parts ⟨name⟩ = [name] := List.splitOn_eq_singleton slashless
  by_cases slash : written.getLast? = some (byte '/')
  · obtain ⟨front, rfl⟩ := List.getLast?_eq_some_iff.mp slash
    refine ⟨parts ⟨front⟩, [[]], parts_append_slash front [], List.splitOn_ne_nil _ _, rfl, ?_⟩
    rw [join, if_pos (.inr slash), List.append_assoc, List.singleton_append, parts_append_slash,
      alone]
  · refine ⟨parts ⟨written⟩, [], (List.append_nil _).symm, List.splitOn_ne_nil _ _, rfl, ?_⟩
    rw [join, if_neg (not_or.mpr ⟨filled, slash⟩), parts_append_slash, alone]

theorem isAbsolute_join {path : Path} (filled : path.bytes ≠ []) (name : Bytes) :
    (path.join name).isAbsolute = path.isAbsolute := by
  obtain ⟨written⟩ := path
  obtain ⟨first, others, rfl⟩ := List.exists_cons_of_ne_nil filled
  rw [isAbsolute, isAbsolute, join]
  split <;> rfl

theorem join_ne_nil {path : Path} (filled : path.bytes ≠ []) (name : Bytes) :
    (path.join name).bytes ≠ [] := by
  rw [join]
  split
  · exact List.append_ne_nil_of_left_ne_nil filled name
  · exact List.append_ne_nil_of_left_ne_nil filled _

theorem foldl_join_ne_nil {path : Path} (filled : path.bytes ≠ []) (names : List Bytes) :
    (names.foldl join path).bytes ≠ [] := by
  induction names generalizing path with
  | nil => exact filled
  | cons name names induction => exact induction (join_ne_nil filled name)

theorem components_join {path : Path} (filled : path.bytes ≠ []) {name : Bytes}
    (proper : IsEntryName name) :
    (path.join name).components = path.components ++ [.name name] := by
  obtain ⟨front, gap, parts_eq, nonempty, gaps, joined⟩ := exists_parts_join filled proper.slashless
  have last : component? name = some (.name name) := by
    rw [component?, if_neg (by simp [proper.busy]), if_neg proper.below]
  have others : (path.join name).parts.filterMap component? =
      path.parts.filterMap component? ++ [.name name] := by
    rw [joined, parts_eq, List.filterMap_append, List.filterMap_append, gaps, List.append_nil,
      List.filterMap_cons_some last, List.filterMap_nil]
  have first : (path.join name).parts.head? = path.parts.head? := by
    obtain ⟨part, rest, rfl⟩ := List.exists_cons_of_ne_nil nonempty
    rw [joined, parts_eq]
    rfl
  rw [components, components, isAbsolute_join filled, others, first]
  split
  · rfl
  · split <;> rfl

/-- Names that are joined to a path one after another are its last components. -/
theorem components_foldl_join {path : Path} (filled : path.bytes ≠ []) {names : List Bytes}
    (proper : ∀ name ∈ names, IsEntryName name) :
    (names.foldl join path).components = path.components ++ names.map .name := by
  induction names generalizing path with
  | nil => rw [List.map_nil, List.append_nil, List.foldl_nil]
  | cons name names induction =>
    obtain ⟨first, others⟩ := List.forall_mem_cons.mp proper
    rw [List.foldl_cons, induction (join_ne_nil filled name) others, components_join filled first,
      List.append_assoc, List.map_cons, List.singleton_append]

end Path

theorem Disk.placeOf_foldl_join {disk : Disk} {path : Path} (filled : path.bytes ≠ [])
    {names : List Bytes} (proper : ∀ name ∈ names, IsEntryName name) :
    disk.placeOf (names.foldl Path.join path) = disk.placeOf path ++ names := by
  rw [placeOf, Path.components_foldl_join filled proper, List.foldl_append, foldl_lead_names,
    placeOf]

/-! ## Trees -/

/-- The disk is a tree of files and directories, without links: every entry has a place of its own,
with names that an entry can have, in a directory. The working directory is one of its
directories. -/
structure Disk.IsTree (disk : Disk) : Prop where
  distinct : (disk.entries.map Prod.fst).Nodup
  named : ∀ entry ∈ disk.entries, entry.1 ≠ [] ∧ ∀ name ∈ entry.1, IsEntryName name
  held : ∀ entry ∈ disk.entries, disk.find? entry.1.dropLast = some .directory
  linkless : ∀ entry ∈ disk.entries, ∀ target, entry.2 ≠ .link target
  rooted : disk.find? disk.here = some .directory

theorem Disk.mem_of_find? {disk : Disk} {place : Place} {entry : Entry} (below : place ≠ [])
    (found : disk.find? place = some entry) : (place, entry) ∈ disk.entries := by
  rw [find?, if_neg below, List.lookup_eq_some_iff] at found
  obtain ⟨before, behind, split, -⟩ := found
  rw [split]
  exact List.mem_append_right _ List.mem_cons_self

namespace Disk.IsTree

variable {disk : Disk} (tree : disk.IsTree)
include tree

theorem find?_of_mem {place : Place} {entry : Entry} (member : (place, entry) ∈ disk.entries) :
    disk.find? place = some entry := by
  obtain ⟨before, behind, split⟩ := List.append_of_mem member
  rw [find?, if_neg (tree.named _ member).1, List.lookup_eq_some_iff]
  refine ⟨before, behind, split, fun other earlier => ?_⟩
  have distinct := tree.distinct
  rw [split, List.map_append, List.map_cons] at distinct
  have differ := (List.nodup_append.mp distinct).2.2 other.1 (List.mem_map_of_mem earlier) place
    List.mem_cons_self
  exact bne_iff_ne.mpr differ.symm

theorem find?_ne_link (place : Place) (target : Path) : disk.find? place ≠ some (.link target) := by
  intro found
  by_cases top : place = []
  · simp [find?, top] at found
  · exact tree.linkless _ (mem_of_find? top found) target rfl

/-- What a directory holds is in a directory. -/
theorem find?_directory_of_concat {place : Place} {name : Bytes}
    (found : disk.find? (place ++ [name]) ≠ none) : disk.find? place = some .directory := by
  obtain ⟨entry, there⟩ := Option.ne_none_iff_exists'.mp found
  have held := tree.held _ (mem_of_find? (by simp) there)
  rwa [List.dropLast_concat] at held

end Disk.IsTree

/-! ## Following paths in a tree -/

namespace Disk

/-- The place to which one part of a path leads, where there are no links. -/
def enter (disk : Disk) (here : Place) (part : Bytes) : Except DiskFault Place :=
  if disk.find? here ≠ some .directory then .error .notDirectory
  else if Path.isIdle part then .ok here
  else if part = Path.twoDots then .ok here.parent
  else if nameLimit < part.length then .error .tooLong
  else if disk.find? (here ++ [part]) = none then .error .noEntry
  else .ok (here ++ [part])

theorem enter_of_name {disk : Disk} {here : Place} {name : Bytes} (proper : IsEntryName name)
    (directory : disk.find? here = some .directory) (found : disk.find? (here ++ [name]) ≠ none) :
    disk.enter here name = .ok (here ++ [name]) := by
  rw [enter, if_neg (not_not_intro directory), if_neg (by simp [proper.busy]), if_neg proper.below,
    if_neg (Nat.not_lt.mpr proper.short), if_neg found]

/-- A part leads to where its component does, if it leads anywhere. -/
theorem eq_of_enter {disk : Disk} {here place : Place} {part : Bytes}
    (entered : disk.enter here part = .ok place) :
    place = (Path.component? part).toList.foldl Component.lead here := by
  rw [enter] at entered
  rw [Path.component?]
  split at entered
  · simp at entered
  split at entered
  · rename_i idle
    rw [if_pos idle]
    exact (Except.ok.inj entered).symm
  split at entered
  · rename_i visible up
    rw [if_neg visible, if_pos up]
    exact (Except.ok.inj entered).symm
  split at entered
  · simp at entered
  split at entered
  · simp at entered
  · rename_i visible named _ _
    rw [if_neg visible, if_neg named]
    exact (Except.ok.inj entered).symm

namespace IsTree

variable {disk : Disk} (tree : disk.IsTree)
include tree

/-- A path is followed part by part. -/
theorem follow_eq (links : Nat) (here : Place) (parts : List Bytes) :
    disk.follow .use links here parts = parts.foldlM disk.enter here := by
  induction parts generalizing here with
  | nil => rw [follow]; rfl
  | cons part parts induction =>
    rw [follow, List.foldlM_cons, enter]
    split
    · rfl
    split
    · exact induction here
    split
    · exact induction here.parent
    rw [if_neg fun writes => Purpose.noConfusion writes.1]
    split
    · rfl
    cases found : disk.find? (here ++ [part]) with
    | none => simp; rfl
    | some entry =>
      cases entry with
      | file content => exact induction (here ++ [part])
      | directory => exact induction (here ++ [part])
      | link target => exact absurd found (tree.find?_ne_link _ target)

end IsTree

section Leads

variable {disk : Disk}

theorem foldlM_enter_append {here place : Place} {front back : List Bytes} :
    (front ++ back).foldlM disk.enter here = .ok place ↔ ∃ middle,
      front.foldlM disk.enter here = .ok middle ∧ back.foldlM disk.enter middle = .ok place := by
  rw [List.foldlM_append]
  cases front.foldlM disk.enter here with
  | error fault =>
    constructor
    · intro led
      cases led
    · rintro ⟨middle, none, -⟩
      cases none
  | ok middle =>
    constructor
    · exact fun led => ⟨middle, rfl, led⟩
    · rintro ⟨other, same, led⟩
      obtain rfl := Except.ok.inj same
      exact led

theorem foldlM_enter_cons {here place : Place} {part : Bytes} {parts : List Bytes} :
    (part :: parts).foldlM disk.enter here = .ok place ↔ ∃ next,
      disk.enter here part = .ok next ∧ parts.foldlM disk.enter next = .ok place := by
  have alone : [part].foldlM disk.enter here = disk.enter here part := by
    rw [List.foldlM_cons]
    cases disk.enter here part <;> rfl
  rw [← List.singleton_append, foldlM_enter_append, alone]

theorem eq_of_foldlM_enter {here place : Place} {parts : List Bytes}
    (led : parts.foldlM disk.enter here = .ok place) :
    place = (parts.filterMap Path.component?).foldl Component.lead here := by
  induction parts generalizing here with
  | nil => exact (Except.ok.inj led).symm
  | cons part parts induction =>
    obtain ⟨next, entered, later⟩ := foldlM_enter_cons.mp led
    rw [induction later, eq_of_enter entered, List.filterMap_cons]
    cases Path.component? part <;> rfl

/-- The path leads to the place, however long the path is. -/
def Leads (disk : Disk) (path : Path) (place : Place) : Prop :=
  path.parts.foldlM disk.enter (path.start disk.here) = .ok place

theorem Leads.eq_placeOf {path : Path} {place : Place} (leads : disk.Leads path place) :
    place = disk.placeOf path := by
  rw [placeOf_eq]
  exact eq_of_foldlM_enter leads

/-- A path leads on to what is in its directory. -/
theorem Leads.join {path : Path} {place : Place} {name : Bytes} (leads : disk.Leads path place)
    (filled : path.bytes ≠ []) (proper : IsEntryName name)
    (directory : disk.find? place = some .directory) (found : disk.find? (place ++ [name]) ≠ none) :
    disk.Leads (path.join name) (place ++ [name]) := by
  obtain ⟨front, gap, parts_eq, -, gaps, joined⟩ :=
    Path.exists_parts_join filled proper.slashless
  rw [Leads, parts_eq] at leads
  obtain ⟨middle, before, behind⟩ := foldlM_enter_append.mp leads
  obtain rfl : place = middle := by
    have stays := eq_of_foldlM_enter behind
    rwa [gaps] at stays
  rw [Leads, joined, Path.start, Path.isAbsolute_join filled]
  exact foldlM_enter_append.mpr ⟨place, before, foldlM_enter_cons.mpr
    ⟨place ++ [name], enter_of_name proper directory found, rfl⟩⟩

end Leads

namespace IsTree

variable {disk : Disk} (tree : disk.IsTree)
include tree

theorem resolve_eq_ok_iff {path : Path} {place : Place} :
    disk.resolve path = .ok place ↔ path.fault? = none ∧ disk.Leads path place := by
  rw [resolve, locate, Leads]
  cases path.fault? with
  | some fault => simp
  | none => simp [tree.follow_eq]

theorem find?_parent_ne_none {place : Place} (directory : disk.find? place = some .directory) :
    disk.find? place.parent ≠ none := by
  by_cases top : place = []
  · simp [top, Place.parent, find?]
  · have held := tree.held _ (mem_of_find? top directory)
    rw [Place.parent, held]
    exact Option.some_ne_none _

theorem find?_ne_none_of_enter {here place : Place} {part : Bytes}
    (entered : disk.enter here part = .ok place) : disk.find? place ≠ none := by
  rw [enter] at entered
  split at entered
  · simp at entered
  rename_i inside
  have directory : disk.find? here = some .directory := not_not.mp inside
  split at entered
  · obtain rfl := Except.ok.inj entered
    rw [directory]
    exact Option.some_ne_none _
  split at entered
  · obtain rfl := Except.ok.inj entered
    exact tree.find?_parent_ne_none directory
  split at entered
  · simp at entered
  split at entered
  · simp at entered
  · rename_i found
    obtain rfl := Except.ok.inj entered
    exact found

theorem find?_ne_none_of_foldlM_enter {here place : Place} {parts : List Bytes}
    (there : disk.find? here ≠ none) (led : parts.foldlM disk.enter here = .ok place) :
    disk.find? place ≠ none := by
  induction parts generalizing here with
  | nil =>
    obtain rfl := Except.ok.inj led
    exact there
  | cons part parts induction =>
    obtain ⟨next, entered, later⟩ := foldlM_enter_cons.mp led
    exact induction (tree.find?_ne_none_of_enter entered) later

/-- A path leads to something. -/
theorem find?_ne_none_of_leads {path : Path} {place : Place} (leads : disk.Leads path place) :
    disk.find? place ≠ none := by
  refine tree.find?_ne_none_of_foldlM_enter ?_ leads
  rw [Path.start]
  split
  · exact Option.some_ne_none _
  · simp [tree.rooted]

/-- A path leads on to what is below its directory. -/
theorem leads_foldl_join {path : Path} {place : Place} (leads : disk.Leads path place)
    (filled : path.bytes ≠ []) {names : List Bytes} (proper : ∀ name ∈ names, IsEntryName name)
    (found : disk.find? (place ++ names) ≠ none) :
    disk.Leads (names.foldl Path.join path) (place ++ names) := by
  induction names using List.reverseRecOn with
  | nil => rwa [List.append_nil]
  | append_singleton front last induction =>
    rw [List.forall_mem_append, List.forall_mem_singleton] at proper
    rw [← List.append_assoc] at found ⊢
    -- the directory that holds the last name is there as well
    have directory := tree.find?_directory_of_concat found
    have before := induction proper.1 (by simp [directory])
    rw [List.foldl_append, List.foldl_cons, List.foldl_nil]
    exact before.join (Path.foldl_join_ne_nil filled front) proper.2 directory found

end IsTree

end Disk

end JsxCalls
