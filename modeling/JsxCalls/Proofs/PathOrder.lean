import Mathlib.Data.List.Lex
import JsxCalls.Disk.Source
import JsxCalls.Proofs.PathPlace

/-!
# The order of paths

Paths are ordered by their components, and names by their bytes. Sorting names that lead on from one
path sorts the paths that they lead to.
-/

namespace JsxCalls

/-! ## The order of names -/

/-- A comparison that goes on behind equal members is lexicographic. -/
theorem lexicographic_iff {α : Type} [DecidableEq α] (less : α → α → Prop)
    (compare : α → α → Bool) {le : List α → List α → Bool} (irrefl : ∀ a, ¬ less a a)
    (decides : ∀ {a b}, a ≠ b → (compare a b = true ↔ less a b)) (nil : ∀ right, le [] right = true)
    (cons_nil : ∀ a left, le (a :: left) [] = false)
    (cons_cons : ∀ a left b right,
      le (a :: left) (b :: right) = if a = b then le left right else compare a b)
    {left right : List α} : le left right = true ↔ left = right ∨ List.Lex less left right := by
  induction left generalizing right with
  | nil =>
    exact iff_of_true (nil right) ((List.lex_nil_or_eq_nil right).symm.imp_left Eq.symm)
  | cons a left induction =>
    cases right with
    | nil => simp [cons_nil]
    | cons b right =>
      rw [cons_cons, List.cons_lex_cons_iff, List.cons.injEq]
      by_cases same : a = b
      · subst same
        simp [irrefl a, induction]
      · simp [same, decides same]

namespace Disk

/-- The order of names by the first byte in which they differ. -/
def NameLess (left right : Bytes) : Prop :=
  List.Lex (· < ·) left right

theorem nameLess_irrefl (name : Bytes) : ¬ NameLess name name :=
  List.lex_irrefl UInt8.lt_irrefl name

theorem NameLess.trans {left middle right : Bytes} (first : NameLess left middle)
    (second : NameLess middle right) : NameLess left right :=
  List.lex_trans UInt8.lt_trans first second

theorem nameLess_trichotomy (left right : Bytes) :
    NameLess left right ∨ left = right ∨ NameLess right left := by
  have bytes : Std.Trichotomous fun b c : UInt8 => b < c :=
    ⟨fun _ _ less greater => UInt8.le_antisymm (UInt8.not_lt.mp greater) (UInt8.not_lt.mp less)⟩
  exact trichotomous_of (List.Lex fun b c : UInt8 => b < c) left right

theorem nameLe_iff {left right : Bytes} :
    nameLe left right = true ↔ left = right ∨ NameLess left right :=
  lexicographic_iff (· < ·) (fun b c => decide (b < c)) UInt8.lt_irrefl
    (fun _ => decide_eq_true_iff) (fun _ => rfl) (fun _ _ => rfl) fun _ _ _ _ => rfl

theorem namesLe_iff {left right : List Bytes} :
    namesLe left right = true ↔ left = right ∨ List.Lex NameLess left right :=
  lexicographic_iff NameLess nameLe nameLess_irrefl
    (fun differ => nameLe_iff.trans (or_iff_right differ)) (fun _ => rfl) (fun _ _ => rfl)
    fun _ _ _ _ => rfl

theorem namesLe_trans (left middle right : List Bytes) (first : namesLe left middle = true)
    (second : namesLe middle right = true) : namesLe left right = true := by
  rw [namesLe_iff] at first second ⊢
  rcases first with rfl | first
  · exact second
  rcases second with rfl | second
  · exact .inr first
  · exact .inr (List.lex_trans NameLess.trans first second)

theorem namesLe_total (left right : List Bytes) :
    (namesLe left right || namesLe right left) = true := by
  have names : Std.Trichotomous NameLess :=
    ⟨fun left right less greater =>
      ((nameLess_trichotomy left right).resolve_left less).resolve_right greater⟩
  rw [Bool.or_eq_true, namesLe_iff, namesLe_iff]
  rcases trichotomous_of (List.Lex NameLess) left right with less | rfl | greater
  · exact .inl (.inr less)
  · exact .inl (.inl rfl)
  · exact .inr (.inr greater)

/-- Sorting brings different names into a strict order. -/
theorem pairwise_mergeSort_namesLe {found : List (List Bytes)} (distinct : found.Nodup) :
    (found.mergeSort namesLe).Pairwise (List.Lex NameLess) := by
  have sorted := List.pairwise_mergeSort namesLe_trans namesLe_total found
  have differ : (found.mergeSort namesLe).Pairwise (· ≠ ·) :=
    (List.mergeSort_perm found namesLe).nodup_iff.mpr distinct
  exact (sorted.and differ).imp fun ⟨le, ne⟩ => (namesLe_iff.mp le).resolve_left ne

end Disk

/-! ## The order of paths -/

namespace Component

/-- The place of a kind of components in their order. -/
def rank : Component → Nat
  | .root => 0
  | .current => 1
  | .parent => 2
  | .name _ => 3

/-- The bytes of a name. Other components have none. -/
def bytes : Component → Bytes
  | .root => []
  | .current => []
  | .parent => []
  | .name bytes => bytes

/-- Components are ordered by their kinds, and names by their bytes. -/
def Less (left right : Component) : Prop :=
  left.rank < right.rank ∨ left.rank = right.rank ∧ Disk.NameLess left.bytes right.bytes

theorem less_irrefl (component : Component) : ¬ Less component component := by
  rintro (lower | ⟨-, less⟩)
  · exact Nat.lt_irrefl _ lower
  · exact Disk.nameLess_irrefl _ less

end Component

namespace Path

/-- Paths are ordered by the first component in which they differ. -/
def Less (left right : Path) : Prop :=
  List.Lex Component.Less left.components right.components

theorem components_ne_of_less {left right : Path} (less : Less left right) :
    left.components ≠ right.components := by
  intro same
  rw [Less, same] at less
  exact List.lex_irrefl Component.less_irrefl _ less

/-- Paths that go on from one path are ordered as the names by which they do. -/
theorem less_foldl_join {root : Path} (filled : root.bytes ≠ []) {names others : List Bytes}
    (proper : ∀ name ∈ names, IsEntryName name) (proper' : ∀ name ∈ others, IsEntryName name)
    (less : List.Lex Disk.NameLess names others) :
    Less (names.foldl join root) (others.foldl join root) := by
  rw [Less, components_foldl_join filled proper, components_foldl_join filled proper']
  refine List.Lex.append_left _ ?_ _
  clear proper proper'
  induction less with
  | nil => exact .nil
  | rel less => exact .rel (.inr ⟨rfl, less⟩)
  | cons _ induction => exact .cons induction

end Path

end JsxCalls
