import JsxCalls.Text.Pattern

/-!
# Occurrences

Where a word can occur in a text that is put together from parts: a character that the word does
not hold keeps every occurrence on one side of it. Replacement goes from left to right, so either no
occurrence begins in a front part and the front part is kept, or the first occurrence that begins
there is replaced.
-/

namespace JsxCalls

/-! ## Steps of a search -/

section Pattern

variable {α : Type} {pattern : Pattern α}

theorem Pattern.pieces_of_none {c : Char} {text : Text}
    (missed : pattern.start? (c :: text) = none) :
    pattern.pieces (c :: text) = .char c :: pattern.pieces text := by
  rw [Pattern.pieces]
  split
  · simp_all
  · rfl

theorem Pattern.pieces_of_some {text rest : Text} {found : α}
    (matched : pattern.start? text = some (found, rest)) :
    pattern.pieces text = .item found :: pattern.pieces rest := by
  cases text with
  | nil => exact absurd (pattern.shorter matched) (Nat.not_lt_zero _)
  | cons c text =>
    rw [Pattern.pieces]
    split
    · simp_all
    · simp_all

theorem prefix_of_prefix_map_char {word text : Text}
    (found : word.map .char <+: (text.map .char : List (Piece α))) : word <+: text := by
  obtain ⟨other, inside, equal⟩ := List.prefix_map_iff.mp found
  have same : word = other := (List.map_inj_right fun _ _ => Piece.char.inj).mp equal
  rwa [same]

theorem infix_of_infix_map_char {word text : Text}
    (found : word.map .char <:+: (text.map .char : List (Piece α))) : word <:+: text := by
  obtain ⟨other, inside, equal⟩ := List.infix_map_iff.mp found
  have same : word = other := (List.map_inj_right fun _ _ => Piece.char.inj).mp equal
  rwa [same]

end Pattern

namespace Text

/-! ## Separators -/

section Separator

variable {α : Type} {word left right before behind : List α} {separator : α}

/-- An occurrence of a word lies before or behind a separator that the word does not hold. -/
theorem append_cases_of_separator (absent : separator ∉ word)
    (equal : left ++ separator :: right = before ++ (word ++ behind)) :
    (∃ between, left = before ++ (word ++ between) ∧ behind = between ++ separator :: right) ∨
      ∃ between, before = left ++ separator :: between ∧ right = between ++ (word ++ behind) := by
  rcases List.append_eq_append_iff.mp equal with
    ⟨middle, before_eq, split⟩ | ⟨middle, left_eq, split⟩
  · cases middle with
    | nil =>
      cases word with
      | nil => exact .inl ⟨[], by simpa using before_eq.symm, by simpa using split.symm⟩
      | cons first others =>
        obtain rfl : separator = first := (List.cons.inj split).1
        simp at absent
    | cons first between =>
      obtain ⟨rfl, right_eq⟩ := List.cons.inj split
      exact .inr ⟨between, before_eq, right_eq⟩
  · rcases List.append_eq_append_iff.mp split with
      ⟨rest, middle_eq, behind_eq⟩ | ⟨rest, word_eq, cut⟩
    · exact .inl ⟨rest, by rw [left_eq, middle_eq], behind_eq⟩
    · cases rest with
      | nil => exact .inl ⟨[], by rw [left_eq, word_eq]; simp, by simpa using cut.symm⟩
      | cons first others =>
        obtain ⟨rfl, -⟩ := List.cons.inj cut
        simp [word_eq] at absent

/-- A word at the start lies before the separator. -/
theorem exists_append_of_separator (absent : separator ∉ word)
    (equal : left ++ separator :: right = word ++ behind) :
    ∃ between, left = word ++ between ∧ behind = between ++ separator :: right := by
  rw [← List.nil_append (word ++ behind)] at equal
  refine (append_cases_of_separator absent equal).resolve_right ?_
  rintro ⟨between, empty, -⟩
  simp at empty

theorem append_cons_inj {left left' right right' : Text} {separator : Char}
    (absent : separator ∉ left) (absent' : separator ∉ left') :
    left ++ separator :: right = left' ++ separator :: right' ↔ left = left' ∧ right = right' := by
  refine ⟨fun equal => ?_, by rintro ⟨rfl, rfl⟩; rfl⟩
  obtain ⟨between, left_eq, behind⟩ := exists_append_of_separator absent' equal
  cases between with
  | nil => exact ⟨by rw [left_eq, List.append_nil], (List.cons.inj behind).2.symm⟩
  | cons c between =>
    obtain ⟨rfl, -⟩ := List.cons.inj behind
    exact absurd (by simp [left_eq]) absent

theorem prefix_of_prefix_append_cons (absent : separator ∉ word)
    (found : word <+: left ++ separator :: right) : word <+: left := by
  obtain ⟨behind, equal⟩ := found
  obtain ⟨between, rfl, -⟩ := exists_append_of_separator absent equal.symm
  exact ⟨between, rfl⟩

/-- A word occurs beside a separator that it does not hold, never across it. -/
theorem infix_append_cons_iff (absent : separator ∉ word) :
    word <:+: left ++ separator :: right ↔ word <:+: left ∨ word <:+: right := by
  constructor
  · rintro ⟨before, behind, equal⟩
    rw [List.append_assoc] at equal
    rcases append_cases_of_separator absent equal.symm with ⟨between, rfl, -⟩ | ⟨between, -, rfl⟩
    · exact .inl ⟨before, between, by simp⟩
    · exact .inr ⟨between, behind, by simp⟩
  · rintro (found | found)
    · exact List.infix_append_of_infix_left found
    · exact List.infix_append_of_infix_right (List.infix_cons found)

theorem infix_cons_iff_of_notMem (absent : separator ∉ word) (filled : word ≠ []) :
    word <:+: separator :: right ↔ word <:+: right := by
  have sides : word <:+: [] ++ separator :: right ↔ word <:+: [] ∨ word <:+: right :=
    infix_append_cons_iff absent
  simpa [filled] using sides

end Separator

theorem infix_of_no_start {word front text : Text} (found : word <:+: front ++ text)
    (none : ∀ kept rest, front = kept ++ rest → rest ≠ [] → ¬ word <+: rest ++ text) :
    word <:+: text := by
  obtain ⟨kept, behind, equal⟩ := found
  rw [List.append_assoc] at equal
  rcases List.append_eq_append_iff.mp equal with ⟨rest, front_eq, split⟩ | ⟨middle, -, rfl⟩
  · cases rest with
    | nil => exact ⟨[], behind, by simpa using split⟩
    | cons c rest => exact absurd ⟨behind, split⟩ (none kept (c :: rest) front_eq (by simp))
  · exact ⟨middle, behind, by simp⟩

/-- The word occurs in the text. -/
def holds (word : Text) : Text → Bool
  | [] => word.isEmpty
  | c :: text => (after? word (c :: text)).isSome || holds word text

theorem holds_iff {word text : Text} : holds word text = true ↔ word <:+: text := by
  induction text with
  | nil => simp [holds]
  | cons c text induction =>
    have here : (after? word (c :: text)).isSome = true ↔ word <+: c :: text := by
      simp only [Option.isSome_iff_exists, after?_eq_some_iff]
      exact exists_congr fun rest => eq_comm
    rw [holds, Bool.or_eq_true, here, induction, List.infix_cons_iff]

theorem not_infix_of_holds_eq_false {word text : Text} (none : holds word text = false) :
    ¬ word <:+: text := by
  rw [← holds_iff, none]
  exact Bool.false_ne_true

/-! ## Replacement -/

variable {target replacement : Text}

@[simp]
theorem replace_nil (target replacement : Text) : replace target replacement [] = [] := by
  cases target with
  | nil => rfl
  | cons first others => simp [replace, Pattern.replaceAll]

theorem replace_append_self (filled : target ≠ []) (text : Text) :
    replace target replacement (target ++ text) =
      replacement ++ replace target replacement text := by
  cases target with
  | nil => exact absurd rfl filled
  | cons first others =>
    have found : (Pattern.literal first others).start? (first :: (others ++ text)) =
        some ((), text) := by
      simp [Pattern.literal, after?_eq_some_iff.mpr (show first :: (others ++ text) =
        (first :: others) ++ text from rfl)]
    simp only [replace, List.cons_append]
    rw [Pattern.replaceAll]
    split
    · simp_all
    · simp_all

theorem replace_cons_of_not_prefix {c : Char} {text : Text} (absent : ¬ target <+: c :: text) :
    replace target replacement (c :: text) = c :: replace target replacement text := by
  cases target with
  | nil => exact absurd List.nil_prefix absent
  | cons first others =>
    have missed : (Pattern.literal first others).start? (c :: text) = none := by
      simp only [Pattern.literal, Option.map_eq_none_iff]
      rw [Option.eq_none_iff_forall_ne_some]
      intro rest found
      exact absent ⟨rest, (after?_eq_some_iff.mp found).symm⟩
    simp only [replace]
    rw [Pattern.replaceAll]
    split
    · simp_all
    · rfl

/-- Replacement keeps a front part in which no occurrence begins; otherwise it replaces the first
one that does. -/
theorem replace_append_cases (filled : target ≠ []) (replacement front text : Text) :
    ((∀ kept rest, front = kept ++ rest → rest ≠ [] → ¬ target <+: rest ++ text) ∧
        replace target replacement (front ++ text) =
          front ++ replace target replacement text) ∨
      ∃ kept rest after, front = kept ++ rest ∧ rest ≠ [] ∧ target <+: rest ++ text ∧
        replace target replacement (front ++ text) = kept ++ (replacement ++ after) := by
  induction front with
  | nil =>
    refine .inl ⟨?_, rfl⟩
    intro kept rest equal nonempty
    exact absurd (List.append_eq_nil_iff.mp equal.symm).2 nonempty
  | cons c front induction =>
    by_cases here : target <+: c :: front ++ text
    · obtain ⟨after, equal⟩ := here
      refine .inr ⟨[], c :: front, replace target replacement after, rfl, by simp,
        ⟨after, equal⟩, ?_⟩
      rw [← equal, replace_append_self filled, List.nil_append]
    · have step : replace target replacement (c :: (front ++ text)) =
          c :: replace target replacement (front ++ text) := replace_cons_of_not_prefix here
      rcases induction with ⟨none, kept⟩ | ⟨kept, rest, after, rfl, nonempty, found, equal⟩
      · refine .inl ⟨?_, by rw [List.cons_append, step, kept, List.cons_append]⟩
        intro start rest equal nonempty
        cases start with
        | nil => exact List.nil_append rest ▸ equal ▸ here
        | cons d start => exact none start rest (List.cons.inj equal).2 nonempty
      · refine .inr ⟨c :: kept, rest, after, rfl, nonempty, found, ?_⟩
        rw [List.cons_append, step, equal, List.cons_append]

theorem replace_append_of_no_start (filled : target ≠ []) {front text : Text}
    (none : ∀ kept rest, front = kept ++ rest → rest ≠ [] → ¬ target <+: rest ++ text) :
    replace target replacement (front ++ text) = front ++ replace target replacement text := by
  rcases replace_append_cases filled replacement front text with
    ⟨-, kept⟩ | ⟨kept, rest, -, equal, nonempty, found, -⟩
  · exact kept
  · exact absurd found (none kept rest equal nonempty)

/-- Both sides of a character that the target does not hold are replaced on their own. -/
theorem replace_append_cons (filled : target ≠ []) {separator : Char} (absent : separator ∉ target)
    (left right : Text) : replace target replacement (left ++ separator :: right) =
      replace target replacement left ++ separator :: replace target replacement right := by
  by_cases starts : target <+: left ++ separator :: right
  · obtain ⟨rest, rfl⟩ := prefix_of_prefix_append_cons absent starts
    have shorter : rest.length < (target ++ rest).length := by
      have := List.length_pos_iff.mpr filled
      rw [List.length_append]
      omega
    rw [List.append_assoc, replace_append_self filled, replace_append_self filled,
      replace_append_cons filled absent rest right, List.append_assoc]
  · cases left with
    | nil => rw [List.nil_append, replace_cons_of_not_prefix starts, replace_nil, List.nil_append]
    | cons c left =>
      have here : ¬ target <+: c :: left := fun found =>
        starts (found.trans (List.prefix_append (c :: left) _))
      rw [List.cons_append] at starts ⊢
      rw [ replace_cons_of_not_prefix starts, replace_cons_of_not_prefix here,
        replace_append_cons filled absent left right, List.cons_append]
termination_by left.length

theorem replace_eq_self (filled : target ≠ []) {text : Text} (absent : ¬ target <:+: text) :
    replace target replacement text = text := by
  have kept : replace target replacement (text ++ []) = text ++ replace target replacement [] := by
    apply replace_append_of_no_start filled
    intro kept rest equal _ found
    rw [List.append_nil] at found
    exact absent (equal ▸ List.infix_append_of_infix_right found.isInfix)
  simpa using kept

end Text

end JsxCalls
