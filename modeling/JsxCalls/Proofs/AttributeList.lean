import JsxCalls.Attribute.Parser
import JsxCalls.Proofs.Placeholder

/-!
# Reading written attribute lists

An attribute list in which white space stands before each attribute is read as exactly the
attributes that were written, whether their expressions are in braces or masked.
-/

namespace JsxCalls

/-! ## Classes of characters -/

/-- The code points in a table of ranges. -/
def CodeRanges.codes (ranges : CodeRanges) : List Nat :=
  ranges.flatMap fun range => List.range' range.1 (range.2 + 1 - range.1)

theorem CodeRanges.mem_codes_of_holds {ranges : CodeRanges} {c : Char}
    (holds : ranges.holds c = true) : c.toNat ∈ ranges.codes := by
  obtain ⟨range, member, inside⟩ := List.any_eq_true.mp holds
  rw [Bool.and_eq_true, decide_eq_true_eq, decide_eq_true_eq] at inside
  refine List.mem_flatMap.mpr ⟨range, member, ?_⟩
  rw [List.mem_range'_1]
  omega

/-- What holds of the few code points of white space holds of every such character. -/
theorem of_isSpace (property : Char → Bool) {c : Char} (space : isSpace c = true)
    (all : ∀ code ∈ CodeRanges.codes spaceRanges, property (Char.ofNat code) = true) :
    property c = true := by
  rw [← Char.ofNat_toNat c]
  exact all _ (CodeRanges.mem_codes_of_holds space)

theorem isWord_of_isSpace {c : Char} (space : isSpace c = true) : isWord c = false := by
  have outside := of_isSpace (fun c => !isWord c) space (by decide +kernel)
  simpa using outside

theorem toNat_lt_of_isDigit {c : Char} (digit : c.isDigit = true) : c.toNat < 0x80 := by
  have bounds : 48 ≤ c.val ∧ c.val ≤ 57 := by simpa [Char.isDigit] using digit
  have upper := UInt32.le_iff_toNat_le.mp bounds.2
  exact Nat.lt_of_le_of_lt upper (by decide)

theorem isDecimal_of_isDigit {c : Char} (digit : c.isDigit = true) : isDecimal c = true := by
  rw [isDecimal, if_pos (toNat_lt_of_isDigit digit), digit]

theorem isWord_of_mem_token {c : Char} {index : Nat} (member : c ∈ Placeholder.token index) :
    isWord c = true := by
  rcases Placeholder.mem_token_cases member with rfl | inMark | inDigits
  · decide
  · have all : Placeholder.mark.all isWord = true := by decide
    exact List.all_eq_true.mp all c inMark
  · have digit := Placeholder.isDigit_of_mem_ofNat inDigits
    simp [isWord, toNat_lt_of_isDigit digit, Char.isAlphanum, digit]

/-! ## Names -/

/-- A name consists of words with single hyphens between them. -/
def IsName (name : Text) : Prop :=
  ∃ words : List Text, words ≠ [] ∧
    (∀ word ∈ words, word ≠ [] ∧ ∀ c ∈ word, isWord c = true) ∧
    name = List.intercalate ['-'] words

theorem IsName.of_words {name : Text} (words : List Text) (filled : words ≠ [])
    (wordly : ∀ word ∈ words, word ≠ [] ∧ word.all isWord = true)
    (equal : name = List.intercalate ['-'] words) : IsName name :=
  ⟨words, filled, fun word member => ⟨(wordly word member).1,
    List.all_eq_true.mp (wordly word member).2⟩, equal⟩

/-- Only word characters and hyphens stand in a name. -/
theorem IsName.isWord_or_eq {name : Text} (named : IsName name) {c : Char} (member : c ∈ name) :
    isWord c = true ∨ c = '-' := by
  obtain ⟨words, -, parts, rfl⟩ := named
  induction words with
  | nil => simp at member
  | cons word words induction =>
    have wordly := (parts word List.mem_cons_self).2
    have later := induction fun other inside => parts other (List.mem_cons_of_mem _ inside)
    cases words with
    | nil =>
      rw [List.intercalate_singleton] at member
      exact .inl (wordly c member)
    | cons next words =>
      have text : List.intercalate ['-'] (word :: next :: words) =
          word ++ '-' :: List.intercalate ['-'] (next :: words) := by
        simp [List.intercalate]
      rw [text, List.mem_append, List.mem_cons] at member
      rcases member with here | hyphen | behind
      · exact .inl (wordly c here)
      · exact .inr hyphen
      · exact later behind

namespace WrittenAttribute

/-- Neither a word character nor a hyphen comes next. -/
abbrev StopsName (text : Text) : Prop :=
  Text.StopsRun (fun c => isWord c || c = '-') text

theorem takeName_append {part rest : Text} (whole : takeName part = part)
    (stops : StopsName rest) : takeName (part ++ rest) = part ∧ dropName (part ++ rest) = rest := by
  induction part with
  | nil =>
    cases rest with
    | nil => exact ⟨rfl, rfl⟩
    | cons c rest =>
      have outside : isWord c = false ∧ c ≠ '-' := by simpa using stops c rfl
      simp [takeName, dropName, outside]
  | cons c part induction =>
    rw [takeName] at whole
    split at whole
    · rename_i inside
      -- A hyphen at the end of the part would not have been taken, so the rest is not looked at.
      have same : (isWord c || (c = '-' && (part ++ rest).head?.any isWord)) = true := by
        cases part with
        | nil => simpa using Or.inl (by simpa using inside)
        | cons d part => exact inside
      have later := induction (List.cons.inj whole).2
      rw [List.cons_append, takeName, dropName, if_pos same, if_pos same, later.1, later.2]
      exact ⟨rfl, rfl⟩
    · simp at whole

/-- A run of word characters can be put before a part of a name. -/
theorem takeName_word_append {word part : Text} (inside : ∀ c ∈ word, isWord c = true)
    (whole : takeName part = part) : takeName (word ++ part) = word ++ part := by
  induction word with
  | nil => exact whole
  | cons c word induction =>
    have first : isWord c = true := inside c List.mem_cons_self
    have later := induction fun d member => inside d (List.mem_cons_of_mem c member)
    simp [takeName, first, later]

/-- A name begins with a word character, and the rest of it is taken whole. -/
theorem exists_of_isName {name : Text} (named : IsName name) :
    ∃ c part, name = c :: part ∧ isWord c = true ∧ takeName part = part := by
  obtain ⟨words, filled, parts, rfl⟩ := named
  induction words with
  | nil => exact absurd rfl filled
  | cons word words induction =>
    obtain ⟨nonempty, inside⟩ := parts word List.mem_cons_self
    obtain ⟨c, others, rfl⟩ := List.exists_cons_of_ne_nil nonempty
    have first : isWord c = true := inside c List.mem_cons_self
    have others_inside : ∀ d ∈ others, isWord d = true := fun d member =>
      inside d (List.mem_cons_of_mem c member)
    cases words with
    | nil =>
      refine ⟨c, others, by simp, first, ?_⟩
      simpa using takeName_word_append others_inside (show takeName [] = [] from rfl)
    | cons next words =>
      obtain ⟨d, part, joined, wordly, whole⟩ := induction (by simp) fun word member =>
        parts word (List.mem_cons_of_mem _ member)
      refine ⟨c, others ++ '-' :: d :: part, ?_, first, takeName_word_append others_inside ?_⟩
      · rw [← joined]
        simp [List.intercalate]
      · simp [takeName, wordly, whole]

end WrittenAttribute

/-! ## Values -/

/-- The value is read again from what is written: it does not hold the character that ends it. -/
def WrittenValue.Readable : WrittenValue → Prop
  | .braced body => '}' ∉ body
  | .doubleQuoted text => '"' ∉ text
  | .singleQuoted text => '\'' ∉ text
  | .masked token => ∃ index, token = Placeholder.token index
  | .absent => True

theorem Placeholder.start?_token (index : Nat) (rest : Text) :
    Placeholder.start? (Placeholder.token index ++ rest) =
      some (Placeholder.token index, rest) := by
  have opened : Text.after? Placeholder.opening (Placeholder.token index ++ rest) =
      some (Text.ofNat index ++ (Placeholder.closing ++ rest)) :=
    Text.after?_eq_some_iff.mpr (by simp [Placeholder.token])
  have inside : ∀ c ∈ Text.ofNat index, isDecimal c = true := fun c member =>
    isDecimal_of_isDigit (Placeholder.isDigit_of_mem_ofNat member)
  have stops : Text.StopsRun isDecimal (Placeholder.closing ++ rest) := by
    intro c first
    obtain rfl : '_' = c := Option.some.inj first
    decide
  have filled : Text.ofNat index ≠ [] := Nat.toDigits_ne_nil
  have closed : Text.after? Placeholder.closing (Placeholder.closing ++ rest) = some rest :=
    Text.after?_eq_some_iff.mpr rfl
  simp only [Placeholder.start?, opened, Text.takeWhile_run inside stops,
    Text.dropWhile_run inside stops, if_neg filled, closed]
  rfl

theorem WrittenValue.start?_source {value : WrittenValue} (readable : value.Readable)
    (present : value ≠ .absent) (rest : Text) :
    WrittenValue.start? (value.source ++ rest) = some (value, rest) := by
  cases value with
  | braced body =>
    have cut : Text.until? '}' (body ++ '}' :: rest) = some (body, rest) :=
      Text.until?_eq_some_iff.mpr ⟨rfl, readable⟩
    simp [source, start?, cut]
  | doubleQuoted text =>
    have cut : Text.until? '"' (text ++ '"' :: rest) = some (text, rest) :=
      Text.until?_eq_some_iff.mpr ⟨rfl, readable⟩
    simp [source, start?, cut]
  | singleQuoted text =>
    have cut : Text.until? '\'' (text ++ '\'' :: rest) = some (text, rest) :=
      Text.until?_eq_some_iff.mpr ⟨rfl, readable⟩
    simp [source, start?, cut]
  | masked token =>
    obtain ⟨index, rfl⟩ := readable
    have read := Placeholder.start?_token index rest
    rw [Placeholder.token_eq] at read ⊢
    exact congrArg (Option.map fun found => (masked found.1, found.2)) read
  | absent => exact absurd rfl present

/-! ## Lists -/

section Pattern

variable {α : Type} {pattern : Pattern α}

theorem Pattern.items_nil (pattern : Pattern α) : pattern.items [] = [] := by
  simp [Pattern.items, Pattern.pieces]

theorem Pattern.items_of_none {c : Char} {text : Text}
    (missed : pattern.start? (c :: text) = none) :
    pattern.items (c :: text) = pattern.items text := by
  rw [Pattern.items, Pattern.pieces_of_none missed]
  rfl

theorem Pattern.items_of_some {text rest : Text} {found : α}
    (matched : pattern.start? text = some (found, rest)) :
    pattern.items text = found :: pattern.items rest := by
  rw [Pattern.items, Pattern.pieces_of_some matched]
  rfl

end Pattern

namespace WrittenAttribute

/-- The attribute can be read again from what is written. -/
structure Readable (written : WrittenAttribute) : Prop where
  /-- Its name is one. -/
  name : IsName written.name
  /-- Its value can be read again. -/
  value : written.value.Readable

theorem start?_source {written : WrittenAttribute} (readable : written.Readable) {rest : Text}
    (spaced : ∀ c ∈ rest.head?, isSpace c = true) :
    start? (written.source ++ rest) = some (written, rest) := by
  obtain ⟨name, value⟩ := written
  obtain ⟨c, part, rfl, wordly, whole⟩ := exists_of_isName readable.name
  by_cases present : value = .absent
  · subst present
    have stops : StopsName rest := by
      intro d first
      have space := spaced d first
      have hyphen : d ≠ '-' := fun equal => absurd space (by rw [equal]; decide)
      simp [isWord_of_isSpace space, hyphen]
    have ends : WrittenValue.start? rest = none := by
      cases rest with
      | nil => rfl
      | cons d rest =>
        have space := spaced d rfl
        have sign : d ≠ '=' := fun equal => absurd space (by rw [equal]; decide)
        unfold WrittenValue.start?
        split <;> simp_all
    obtain ⟨taken, dropped⟩ := takeName_append whole stops
    simp [source, WrittenValue.source, start?, wordly, taken, dropped, ends]
  · have stops : StopsName (value.source ++ rest) := by
      intro d first
      have sign : d = '=' := by
        cases value with
        | absent => exact absurd rfl present
        | braced | doubleQuoted | singleQuoted | masked =>
          exact (Option.some.inj first).symm
      subst sign
      decide
    obtain ⟨taken, dropped⟩ := takeName_append whole stops
    have read := WrittenValue.start?_source readable.value present rest
    simp [source, start?, wordly, taken, dropped, read]

/-- White space before an attribute is skipped. -/
theorem items_space_append {gap : Text} (spaces : ∀ c ∈ gap, isSpace c = true) (text : Text) :
    pattern.items (gap ++ text) = pattern.items text := by
  induction gap with
  | nil => rfl
  | cons c gap induction =>
    have missed : pattern.start? (c :: (gap ++ text)) = none := by
      change start? (c :: (gap ++ text)) = none
      simp [start?, isWord_of_isSpace (spaces c List.mem_cons_self)]
    rw [List.cons_append, Pattern.items_of_none missed]
    exact induction fun d member => spaces d (List.mem_cons_of_mem c member)

/-- The text of an attribute list, with a gap before each attribute. -/
def listText (attributes : List (Text × WrittenAttribute)) : Text :=
  attributes.flatMap fun entry => entry.1 ++ entry.2.source

/-- An attribute list is read as the attributes that were written. -/
theorem items_listText {attributes : List (Text × WrittenAttribute)} {last : Text}
    (gaps : ∀ entry ∈ attributes, entry.1 ≠ [] ∧ ∀ c ∈ entry.1, isSpace c = true)
    (readable : ∀ entry ∈ attributes, entry.2.Readable)
    (spaces : ∀ c ∈ last, isSpace c = true) :
    pattern.items (listText attributes ++ last) = attributes.map Prod.snd := by
  induction attributes with
  | nil =>
    have skipped := items_space_append spaces []
    rw [List.append_nil, Pattern.items_nil] at skipped
    exact skipped
  | cons entry attributes induction =>
    have later := induction (fun other member => gaps other (List.mem_cons_of_mem _ member))
      fun other member => readable other (List.mem_cons_of_mem _ member)
    -- What follows an attribute is the gap of the next one or the white space at the end.
    have spaced : ∀ c ∈ (listText attributes ++ last).head?, isSpace c = true := by
      intro c first
      cases attributes with
      | nil => exact spaces c (List.mem_of_mem_head? first)
      | cons next attributes =>
        obtain ⟨filled, inside⟩ := gaps next (List.mem_cons_of_mem _ List.mem_cons_self)
        obtain ⟨d, gap, equal⟩ := List.exists_cons_of_ne_nil filled
        have same : d = c := by
          rw [listText, List.flatMap_cons, equal] at first
          exact Option.some.inj first
        exact same ▸ inside d (equal ▸ List.mem_cons_self)
    have read := start?_source (readable entry List.mem_cons_self) spaced
    have text : listText (entry :: attributes) ++ last =
        entry.1 ++ (entry.2.source ++ (listText attributes ++ last)) := by
      simp [listText]
    rw [text, items_space_append (gaps entry List.mem_cons_self).2,
      Pattern.items_of_some read, later, List.map_cons]

end WrittenAttribute

end JsxCalls
