import JsxCalls.Mask
import JsxCalls.Proofs.Occurrence

/-!
# Placeholders within a text

Every placeholder holds the mark `PROTECTED` between two underscores and its number. In a text that
is spelled from characters and placeholders, a placeholder is found only where one was put, unless
the mark and a digit stand among the characters themselves.
-/

namespace JsxCalls

namespace Placeholder

/-! ## The shape of a placeholder -/

/-- The capital letters within every placeholder. -/
def mark : Text := "PROTECTED".toList

theorem mark_eq : mark = ['P', 'R', 'O', 'T', 'E', 'C', 'T', 'E', 'D'] := rfl

theorem underscore_notMem_mark : '_' ∉ mark := by simp [mark_eq]

theorem mark_ne_nil : mark ≠ [] := by simp [mark_eq]

theorem isDigit_of_mem_ofNat {index : Nat} {c : Char} (member : c ∈ Text.ofNat index) :
    c.isDigit = true :=
  Nat.isDigit_of_mem_toDigits (by decide) (by decide) member

/-- A number begins with a digit. -/
theorem exists_ofNat_eq_cons (index : Nat) :
    ∃ digit digits, Text.ofNat index = digit :: digits ∧ digit.isDigit = true := by
  obtain ⟨digit, digits, equal⟩ := List.exists_cons_of_ne_nil
    (Nat.toDigits_ne_nil : Text.ofNat index ≠ [])
  have member : digit ∈ Text.ofNat index := by
    rw [show Text.ofNat index = digit :: digits from equal]
    exact List.mem_cons_self
  exact ⟨digit, digits, equal, isDigit_of_mem_ofNat member⟩

theorem ofNat_injective {i j : Nat} (equal : Text.ofNat i = Text.ofNat j) : i = j := by
  have values := congrArg (Nat.ofDigitChars 10 · 0) equal
  simpa [Text.ofNat] using values

/-- A number with an underscore behind it is read in one way only. -/
theorem ofNat_append_underscore_inj {i j : Nat} {left right : Text}
    (equal : Text.ofNat i ++ '_' :: left = Text.ofNat j ++ '_' :: right) :
    i = j ∧ left = right := by
  have digits : ∀ index, ∀ c ∈ Text.ofNat index, c.isDigit = true :=
    fun index c member => isDigit_of_mem_ofNat member
  have stops : ∀ text : Text, Text.StopsRun Char.isDigit ('_' :: text) := by simp [Text.StopsRun]
  have numbers := congrArg (List.takeWhile Char.isDigit) equal
  have rests := congrArg (List.dropWhile Char.isDigit) equal
  rw [Text.takeWhile_run (digits i) (stops _), Text.takeWhile_run (digits j) (stops _)] at numbers
  rw [Text.dropWhile_run (digits i) (stops _), Text.dropWhile_run (digits j) (stops _)] at rests
  exact ⟨ofNat_injective numbers, (List.cons.inj rests).2⟩

theorem token_eq (index : Nat) :
    token index = '_' :: '_' :: (mark ++ '_' :: (Text.ofNat index ++ ['_', '_'])) := by
  have opened : opening = '_' :: '_' :: (mark ++ ['_']) := rfl
  have closed : closing = ['_', '_'] := rfl
  simp [token, opened, closed]

theorem mem_token_cases {index : Nat} {c : Char} (member : c ∈ token index) :
    c = '_' ∨ c ∈ mark ∨ c ∈ Text.ofNat index := by
  simp only [token_eq, List.mem_cons, List.mem_append, List.not_mem_nil, or_false] at member
  grind

theorem mark_infix_token (index : Nat) : mark <:+: token index := by
  rw [token_eq]
  exact List.infix_cons (List.infix_cons (List.prefix_append _ _).isInfix)

theorem token_ne_nil (index : Nat) : token index ≠ [] := by
  simp [token_eq]

theorem index?_token (index : Nat) : index? (token index) = some index := by
  have opened : Text.after? opening (token index) = some (Text.ofNat index ++ closing) :=
    Text.after?_eq_some_iff.mpr (by simp [token])
  have inside : ∀ c ∈ Text.ofNat index, c.isDigit = true := fun c => isDigit_of_mem_ofNat
  have stops : Text.StopsRun Char.isDigit closing := by
    intro c first
    obtain rfl : '_' = c := Option.some.inj first
    rfl
  simp only [index?, opened, Text.takeWhile_run inside stops, Text.dropWhile_run inside stops]
  simp [Text.ofNat]

/-- The mark stands only once in a placeholder, and never reaches over its end. -/
theorem token_append_cases {index : Nat} {text before behind : Text}
    (equal : token index ++ text = before ++ (mark ++ behind)) :
    (before = ['_', '_'] ∧ behind = '_' :: (Text.ofNat index ++ '_' :: '_' :: text)) ∨
      ∃ between, before = token index ++ between ∧ text = between ++ (mark ++ behind) := by
  -- Each underscore of the placeholder keeps the mark on one side; the digits cannot hold it.
  have absent := underscore_notMem_mark
  have nothing : ∀ {start rest : Text}, [] ≠ start ++ (mark ++ rest) := by simp [mark_eq]
  have outside : ∀ {start rest : Text}, Text.ofNat index ≠ start ++ (mark ++ rest) := by
    intro start rest holds
    have member : 'P' ∈ Text.ofNat index := by rw [holds]; simp [mark_eq]
    exact absurd (isDigit_of_mem_ofNat member) (by decide)
  have step : ∀ {rest start : Text}, '_' :: rest = start ++ (mark ++ behind) →
      ∃ between, start = '_' :: between ∧ rest = between ++ (mark ++ behind) := by
    intro rest start split
    rw [← List.nil_append ('_' :: rest)] at split
    rcases Text.append_cases_of_separator absent split with ⟨_, empty, -⟩ | later
    · exact absurd empty nothing
    · simpa using later
  rw [token_eq] at equal
  simp only [List.cons_append, List.append_assoc, List.nil_append] at equal
  obtain ⟨first, rfl, opened⟩ := step equal
  obtain ⟨second, rfl, marked⟩ := step opened
  rcases Text.append_cases_of_separator absent marked with
    ⟨between, own, rfl⟩ | ⟨third, rfl, numbered⟩
  · have empty : second = [] ∧ between = [] := by
      have lengths := congrArg List.length own
      simp only [List.length_append] at lengths
      exact ⟨List.length_eq_zero_iff.mp (by omega), List.length_eq_zero_iff.mp (by omega)⟩
    left
    simp [empty]
  · rcases Text.append_cases_of_separator absent numbered with ⟨_, holds, -⟩ | ⟨fourth, rfl, closed⟩
    · exact absurd holds outside
    · obtain ⟨between, rfl, later⟩ := step closed
      exact .inr ⟨between, by simp [token_eq], later⟩

/-! ## Texts spelled from characters and placeholders -/

/-- The text in which every number is written as its placeholder. -/
def spell (pieces : List (Piece Nat)) : Text :=
  pieces.flatMap (Piece.replaced token)

@[simp]
theorem spell_nil : spell [] = [] := rfl

@[simp]
theorem spell_char (c : Char) (pieces : List (Piece Nat)) :
    spell (.char c :: pieces) = c :: spell pieces := rfl

@[simp]
theorem spell_item (index : Nat) (pieces : List (Piece Nat)) :
    spell (.item index :: pieces) = token index ++ spell pieces := rfl

@[simp]
theorem spell_append (left right : List (Piece Nat)) :
    spell (left ++ right) = spell left ++ spell right :=
  List.flatMap_append

@[simp]
theorem spell_map_char (text : Text) : spell (text.map .char) = text := by
  induction text with
  | nil => rfl
  | cons c text induction => simp [induction]

theorem eq_nil_of_spell_eq_nil {pieces : List (Piece Nat)} (empty : spell pieces = []) :
    pieces = [] := by
  cases pieces with
  | nil => rfl
  | cons piece pieces => cases piece <;> simp [token_eq] at empty

/-- A word without underscores at the start of a spelled text is spelled by characters. -/
theorem exists_of_spell_eq_append {word behind : Text} {pieces : List (Piece Nat)}
    (absent : '_' ∉ word) (equal : spell pieces = word ++ behind) :
    ∃ rest, pieces = word.map .char ++ rest ∧ behind = spell rest := by
  induction word generalizing pieces with
  | nil => exact ⟨pieces, rfl, equal.symm⟩
  | cons c word induction =>
    rw [List.mem_cons, not_or] at absent
    match pieces, equal with
    | [], equal => simp at equal
    | .char d :: pieces, equal =>
      obtain ⟨rfl, tails⟩ := List.cons.inj equal
      obtain ⟨rest, rfl, behind_eq⟩ := induction absent.2 tails
      exact ⟨rest, rfl, behind_eq⟩
    | .item index :: pieces, equal =>
      rw [spell_item, token_eq] at equal
      exact absurd (List.cons.inj equal).1 absent.1

/-- The mark in a spelled text belongs to a placeholder or is spelled by characters. -/
theorem spell_mark_cases {pieces : List (Piece Nat)} {before behind : Text}
    (equal : spell pieces = before ++ (mark ++ behind)) :
    (∃ front index back, pieces = front ++ .item index :: back ∧
        before = spell front ++ ['_', '_'] ∧
        behind = '_' :: (Text.ofNat index ++ '_' :: '_' :: spell back)) ∨
      ∃ front back, pieces = front ++ (mark.map .char ++ back) ∧ before = spell front ∧
        behind = spell back := by
  induction pieces generalizing before with
  | nil => simp [mark_eq] at equal
  | cons piece pieces induction =>
    have later : ∀ between, spell pieces = between ++ (mark ++ behind) →
        before = spell [piece] ++ between →
        (∃ front index back, piece :: pieces = front ++ .item index :: back ∧
            before = spell front ++ ['_', '_'] ∧
            behind = '_' :: (Text.ofNat index ++ '_' :: '_' :: spell back)) ∨
          ∃ front back, piece :: pieces = front ++ (mark.map .char ++ back) ∧
            before = spell front ∧ behind = spell back := by
      intro between split before_eq
      rcases induction split with
        ⟨front, index, back, rfl, rfl, behind_eq⟩ | ⟨front, back, rfl, rfl, behind_eq⟩
      · refine .inl ⟨piece :: front, index, back, rfl, ?_, behind_eq⟩
        rw [before_eq, ← List.append_assoc, ← spell_append, List.singleton_append]
      · refine .inr ⟨piece :: front, back, rfl, ?_, behind_eq⟩
        rw [before_eq, ← spell_append, List.singleton_append]
    cases piece with
    | char c =>
      cases before with
      | nil =>
        obtain ⟨rest, pieces_eq, behind_eq⟩ :=
          exists_of_spell_eq_append underscore_notMem_mark equal
        exact .inr ⟨[], rest, pieces_eq, rfl, behind_eq⟩
      | cons d before =>
        obtain ⟨rfl, split⟩ := List.cons.inj equal
        exact later before split rfl
    | item index =>
      rcases token_append_cases equal with ⟨rfl, behind_eq⟩ | ⟨between, before_eq, split⟩
      · exact .inl ⟨[], index, pieces, rfl, rfl, behind_eq⟩
      · exact later between split (by simpa using before_eq)

/-- A placeholder in a spelled text is one of its items, unless the mark and a digit stand among its
characters. -/
theorem spell_token_cases {pieces : List (Piece Nat)} {index : Nat} {before behind : Text}
    (equal : spell pieces = before ++ (token index ++ behind)) :
    (∃ front back, pieces = front ++ .item index :: back ∧ before = spell front ∧
        behind = spell back) ∨
      ∃ digit : Char, digit.isDigit = true ∧ (mark ++ ['_', digit]).map .char <:+: pieces := by
  have marked : spell pieces = (before ++ ['_', '_']) ++
      (mark ++ '_' :: (Text.ofNat index ++ '_' :: '_' :: behind)) := by
    simpa [token_eq] using equal
  rcases spell_mark_cases marked with
    ⟨front, number, back, rfl, before_eq, behind_eq⟩ | ⟨front, back, rfl, -, behind_eq⟩
  · obtain ⟨rfl, rest⟩ := ofNat_append_underscore_inj (List.cons.inj behind_eq).2
    exact .inl ⟨front, back, rfl, List.append_cancel_right before_eq, (List.cons.inj rest).2⟩
  · -- Behind the mark come an underscore and a digit, so no placeholder can begin there.
    obtain ⟨digit, digits, digits_eq, isDigit⟩ := exists_ofNat_eq_cons index
    rw [digits_eq] at behind_eq
    refine .inr ⟨digit, isDigit, ?_⟩
    have distinct : '_' ≠ digit := fun equal => absurd isDigit (by rw [← equal]; decide)
    match back, behind_eq with
    | [], behind_eq => simp at behind_eq
    | .item number :: back, behind_eq =>
      simp only [spell_item, token_eq, List.cons_append, List.cons.injEq, true_and] at behind_eq
      exact absurd behind_eq.1.symm distinct
    | .char c :: back, behind_eq =>
      obtain ⟨rfl, tails⟩ := List.cons.inj behind_eq
      have absent : '_' ∉ [digit] := by simpa using distinct
      obtain ⟨rest, rfl, -⟩ := exists_of_spell_eq_append absent tails.symm
      exact ⟨front, rest, by simp⟩

end Placeholder

end JsxCalls
