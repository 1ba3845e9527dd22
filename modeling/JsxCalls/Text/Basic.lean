/-!
# Text

A text is a list of characters. Everything that reads or writes source code works on texts, so that
recognition is recursion on lists; strings stand only in messages and at the outer boundary.
-/

namespace JsxCalls

/-- A piece of source code, character by character. -/
abbrev Text := List Char

/-- A table of inclusive ranges of code points, in increasing order. -/
abbrev CodeRanges := List (Nat × Nat)

/-- The character lies in one of the ranges. -/
def CodeRanges.holds (ranges : CodeRanges) (c : Char) : Bool :=
  ranges.any fun range => range.1 ≤ c.toNat && c.toNat ≤ range.2

namespace Text

/-! ## Runs of a class of characters -/

section Runs

variable {α : Type} {inClass : α → Bool} {run rest : List α}

/-- The list does not go on with a member of the class. -/
def StopsRun (inClass : α → Bool) (text : List α) : Prop :=
  ∀ c ∈ text.head?, inClass c = false

theorem stopsRun_cons {c : α} (outside : inClass c = false) (text : List α) :
    StopsRun inClass (c :: text) := by
  intro d first
  obtain rfl : c = d := Option.some.inj first
  exact outside

theorem takeWhile_run (inside : ∀ c ∈ run, inClass c = true) (stops : StopsRun inClass rest) :
    (run ++ rest).takeWhile inClass = run := by
  rw [List.takeWhile_append_of_pos inside]
  cases rest with
  | nil => simp
  | cons c rest => simp [stops c rfl]

theorem dropWhile_run (inside : ∀ c ∈ run, inClass c = true) (stops : StopsRun inClass rest) :
    (run ++ rest).dropWhile inClass = rest := by
  rw [List.dropWhile_append_of_pos inside]
  cases rest with
  | nil => rfl
  | cons c rest => simp [stops c rfl]

end Runs

theorem of_mem_takeWhile {inClass : Char → Bool} {text : Text} {c : Char}
    (member : c ∈ text.takeWhile inClass) : inClass c = true :=
  List.all_eq_true.mp List.all_takeWhile c member

theorem stopsRun_dropWhile (inClass : Char → Bool) (text : Text) :
    StopsRun inClass (text.dropWhile inClass) := by
  intro c first
  simpa [Option.mem_def.mp first] using List.head?_dropWhile_not inClass text

theorem length_dropWhile_le (inClass : Char → Bool) (text : Text) :
    (text.dropWhile inClass).length ≤ text.length :=
  (List.dropWhile_suffix inClass).length_le

/-- The text without the characters of a class at its end. -/
def dropEndWhile (inClass : Char → Bool) (text : Text) : Text :=
  (text.reverse.dropWhile inClass).reverse

/-- Decimal digits of a number, most significant first and without leading zeros. -/
def ofNat (n : Nat) : Text :=
  Nat.toDigits 10 n

/-- The number of bytes of the text in UTF-8. -/
def byteCount (text : Text) : Nat :=
  text.foldl (fun count c => count + c.utf8Size) 0

theorem byteCount_append (left right : Text) :
    byteCount (left ++ right) = byteCount left + byteCount right := by
  have counted : ∀ (count : Nat) (text : Text),
      text.foldl (fun count c => count + c.utf8Size) count = count + byteCount text := by
    intro count text
    induction text generalizing count with
    | nil => rfl
    | cons c text induction =>
      rw [byteCount, List.foldl_cons, List.foldl_cons, induction, induction (0 + c.utf8Size)]
      omega
  rw [byteCount, List.foldl_append, counted]
  rfl

/-! ## Cutting a text -/

/-- The text before and the text behind the first occurrence of a character. -/
def until? (stop : Char) (text : Text) : Option (Text × Text) :=
  match text.dropWhile (· ≠ stop) with
  | [] => none
  | _ :: rest => some (text.takeWhile (· ≠ stop), rest)

theorem until?_eq_some_iff {stop : Char} {text before rest : Text} :
    until? stop text = some (before, rest) ↔ text = before ++ stop :: rest ∧ stop ∉ before := by
  constructor
  · intro found
    unfold until? at found
    split at found
    · simp at found
    · rename_i c behind cut
      simp only [Option.some.injEq, Prod.mk.injEq] at found
      obtain ⟨rfl, rfl⟩ := found
      have here : c = stop := by
        simpa using stopsRun_dropWhile (· ≠ stop) text c (by rw [cut]; rfl)
      refine ⟨?_, fun member => ?_⟩
      · rw [← congrArg (· :: behind) here, ← cut, List.takeWhile_append_dropWhile]
      · simpa using of_mem_takeWhile member
  · rintro ⟨rfl, absent⟩
    have inside : ∀ c ∈ before, decide (c ≠ stop) = true := by
      intro c member
      simpa using fun equal : c = stop => absent (equal ▸ member)
    have stops : StopsRun (· ≠ stop) (stop :: rest) := by simp [StopsRun]
    simp only [until?, takeWhile_run inside stops, dropWhile_run inside stops]

theorem length_of_until? {stop : Char} {text before rest : Text}
    (found : until? stop text = some (before, rest)) : rest.length < text.length := by
  rw [(until?_eq_some_iff.mp found).1, List.length_append, List.length_cons]
  omega

/-- The text after a known beginning, if the text has that beginning. -/
def after? : Text → Text → Option Text
  | [], text => some text
  | _ :: _, [] => none
  | p :: opening, c :: text => if p = c then after? opening text else none

theorem after?_eq_some_iff {opening text rest : Text} :
    after? opening text = some rest ↔ text = opening ++ rest := by
  induction opening generalizing text with
  | nil => simp [after?]
  | cons p opening induction =>
    cases text with
    | nil => simp [after?]
    | cons c text =>
      by_cases same : p = c
      · simp [after?, same, induction]
      · simp [after?, same, Ne.symm same]

theorem length_of_after? {opening text rest : Text} (found : after? opening text = some rest) :
    text.length = opening.length + rest.length := by
  rw [after?_eq_some_iff.mp found, List.length_append]

end Text

end JsxCalls
