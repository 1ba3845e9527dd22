import JsxCalls.Proofs.CallWords
import JsxCalls.Proofs.Span
import JsxCalls.Proofs.TwoPasses

/-!
# Where markup is returned

Statements of both forms begin in the same way: with the keyword at the start of a line, and with an
opening bracket behind it. A text without such a beginning is kept, and masking makes no new one. A
call that is returned is no such beginning, since its receiver ends with a dot.
-/

namespace JsxCalls

open ReturnStatement

/-- How a return of markup begins. -/
structure MarkupOpening where
  /-- The indentation of the line. -/
  indent : Text
  /-- The white space behind the keyword. -/
  gap : Text
  /-- What stands between the white space and the markup. -/
  parenthesis : Text
  indented : ∀ c ∈ indent, isIndent c = true
  filled : gap ≠ []
  spaces : ∀ c ∈ gap, isSpace c = true
  opens : parenthesis = [] ∨ ∃ before, parenthesis = '(' :: before ∧ ∀ c ∈ before, isSpace c = true

namespace MarkupOpening

/-- The beginning as it is written, up to the bracket that opens the markup. -/
def text (opening : MarkupOpening) : Text :=
  opening.indent ++ (keyword ++ (opening.gap ++ (opening.parenthesis ++ ['<'])))

variable (opening : MarkupOpening)

/-- Only white space and a parenthesis stand between the keyword and the bracket. -/
theorem notMem_gap {c : Char} (visible : isSpace c = false) (other : c ≠ '(') :
    c ∉ opening.gap ++ opening.parenthesis := by
  have spaceless : ∀ {text : Text}, (∀ d ∈ text, isSpace d = true) → c ∉ text := by
    intro text spaces member
    simp [spaces c member] at visible
  rw [List.mem_append, not_or]
  refine ⟨spaceless opening.spaces, ?_⟩
  rcases opening.opens with none | ⟨before, some, spaces⟩
  · simp [none]
  · rw [some, List.mem_cons, not_or]
    exact ⟨other, spaceless spaces⟩

theorem notMem_text {c : Char} (visible : isSpace c = false) (other : c ≠ '(') (closed : c ≠ '<')
    (absent : c ∉ keyword) : c ∉ opening.text := by
  have unindented : c ∉ opening.indent := by
    intro member
    have space : isSpace c = true := isSpace_of_isIndent (opening.indented c member)
    simp [space] at visible
  have gap := opening.notMem_gap visible other
  rw [List.mem_append, not_or] at gap
  simp [text, unindented, absent, gap, closed]

end MarkupOpening

/-- The text begins with a return of markup. -/
def StartsMarkup (text : Text) : Prop :=
  ∃ opening after, text = MarkupOpening.text opening ++ after

/-- A return of markup begins at the start of some line of the text. -/
def OpensMarkup (text : Text) : Prop :=
  ∃ before opening after, Text.WholeLines before ∧
    text = before ++ (MarkupOpening.text opening ++ after)

/-! ## Statements -/

theorem startsMarkup_of_inline {text rest : Text} {found : ReturnStatement}
    (matched : inline.start? text = some (found, rest)) : StartsMarkup text := by
  obtain ⟨gap, content, equal, indented, filled, spaces, -⟩ := inline?_eq_some_iff.mp matched
  refine ⟨⟨found.indent, gap, [], indented, filled, spaces, .inl rfl⟩,
    content ++ '>' :: ';' :: rest, ?_⟩
  simp [MarkupOpening.text, equal]

theorem startsMarkup_of_parenthesized {text rest : Text} {found : ReturnStatement}
    (matched : parenthesized.start? text = some (found, rest)) : StartsMarkup text := by
  obtain ⟨gap, before, last, equal, indented, filled, spaces, opens, ⟨content, bracketed⟩, -⟩ :=
    exists_of_parenthesized? matched
  refine ⟨⟨found.indent, gap, '(' :: before, indented, filled, spaces, .inr ⟨before, rfl, opens⟩⟩,
    content ++ '>' :: (last ++ ')' :: ';' :: rest), ?_⟩
  simp [MarkupOpening.text, equal, bracketed]

theorem silent_of_not_opensMarkup {form : Pattern ReturnStatement}
    (starts : ∀ {text found rest}, form.start? text = some (found, rest) → StartsMarkup text)
    {text : Text} (closed : ¬ OpensMarkup text) : Silent form text := by
  intro before after text_eq whole
  rw [Option.eq_none_iff_forall_ne_some]
  rintro ⟨found, rest⟩ matched
  obtain ⟨opening, behind, rfl⟩ := starts matched
  exact closed ⟨before, opening, behind, whole, text_eq⟩

/-- A text in which no markup is returned is kept. -/
theorem Converter.convertReturns_of_not_opensMarkup (converter : Converter) {text : Text}
    (closed : ¬ OpensMarkup text) : converter.convertReturns text = ⟨text, 0⟩ := by
  rw [converter.convertReturns_of_silent
      (silent_of_not_opensMarkup startsMarkup_of_parenthesized closed),
    converter.convertForm_silent (silent_of_not_opensMarkup startsMarkup_of_inline closed)]

/-! ## Masked texts -/

theorem startsMarkup_of_maskFrom {index : Nat} {pieces : List (Piece Expression)}
    (starts : StartsMarkup (maskFrom index pieces)) : StartsMarkup (written pieces) := by
  obtain ⟨opening, after, text_eq⟩ := starts
  have underscore : '_' ∉ opening.text :=
    opening.notMem_text (by decide) (by decide) (by decide) (by decide)
  rw [← spell_numbered] at text_eq
  obtain ⟨others, split, -⟩ := Placeholder.exists_of_spell_eq_append underscore text_eq
  obtain ⟨rest, equal⟩ := prefix_written_of_prefix_numbered ⟨others, split.symm⟩
  exact ⟨opening, rest, equal.symm⟩

theorem exists_startsMarkup_of_maskFrom {index : Nat} {pieces : List (Piece Expression)}
    {before after : Text} (split : maskFrom index pieces = before ++ '\n' :: after)
    (starts : StartsMarkup after) :
    ∃ before after, written pieces = before ++ '\n' :: after ∧ StartsMarkup after := by
  induction pieces generalizing index before with
  | nil => simp [maskFrom] at split
  | cons piece pieces induction =>
    cases piece with
    | char c =>
      cases before with
      | nil =>
        obtain ⟨rfl, rfl⟩ := List.cons.inj split
        exact ⟨[], written pieces, rfl, startsMarkup_of_maskFrom starts⟩
      | cons d before =>
        obtain ⟨front, behind, equal, later⟩ := induction (List.cons.inj split).2
        exact ⟨c :: front, behind, by rw [written_char, equal, List.cons_append], later⟩
    | item expression =>
      have within : '\n' ∉ Placeholder.token index := fun member =>
        absurd (isWord_of_mem_token member) (by decide)
      obtain ⟨between, -, masked⟩ := Text.exists_append_of_separator within split.symm
      obtain ⟨front, behind, equal, later⟩ := induction masked
      exact ⟨expression.source ++ front, behind, by rw [written_item, equal, List.append_assoc],
        later⟩

/-- Masking makes no return of markup. -/
theorem opensMarkup_of_mask {text : Text} (opens : OpensMarkup (mask text).text) :
    OpensMarkup text := by
  obtain ⟨before, opening, after, rfl | ⟨front, rfl⟩, split⟩ := opens
  · obtain ⟨opening, after, equal⟩ := startsMarkup_of_maskFrom ⟨opening, after, split⟩
    rw [written_pieces] at equal
    exact ⟨[], opening, after, .inl rfl, equal⟩
  · rw [List.append_assoc, List.singleton_append] at split
    obtain ⟨before, _, equal, opening, after, rfl⟩ :=
      exists_startsMarkup_of_maskFrom split ⟨opening, after, rfl⟩
    rw [written_pieces] at equal
    exact ⟨before ++ ['\n'], opening, after, .inr ⟨before, rfl⟩, by simp [equal]⟩

/-! ## Closed lines -/

theorem Text.exists_eq_append_newline {front before after : Text}
    (split : front ++ ['\n'] = before ++ after) (filled : after ≠ []) :
    ∃ line, after = line ++ ['\n'] := by
  obtain ⟨line, c, rfl⟩ := (List.eq_nil_or_concat after).resolve_left filled
  rw [List.concat_eq_append, ← List.append_assoc] at split
  obtain ⟨-, newline⟩ := List.append_inj' split rfl
  exact ⟨line, by rw [newline, List.concat_eq_append]⟩

/-- No return of markup begins on a line of the text, whatever stands behind the text. -/
def Closed (text : Text) : Prop :=
  ∀ before line rest, text = before ++ (line ++ ['\n']) → ¬ StartsMarkup (line ++ '\n' :: rest)

/-- The keyword of a return stands on its first line. -/
theorem StartsMarkup.exists_within {line rest : Text}
    (starts : StartsMarkup (line ++ '\n' :: rest)) :
    ∃ (opening : MarkupOpening) (behind tail : Text),
      line = opening.indent ++ (keyword ++ behind) ∧
      behind ++ '\n' :: rest = (opening.gap ++ opening.parenthesis) ++ '<' :: tail := by
  obtain ⟨opening, tail, text_eq⟩ := starts
  have within := newline_notMem_indent_keyword opening.indented
  have split : line ++ '\n' :: rest = (opening.indent ++ keyword) ++
      ((opening.gap ++ opening.parenthesis) ++ '<' :: tail) := by
    rw [text_eq]
    simp [MarkupOpening.text]
  obtain ⟨behind, rfl, equal⟩ := Text.exists_append_of_separator within split
  exact ⟨opening, behind, tail, List.append_assoc .., equal.symm⟩

theorem closed_of_no_keyword {text : Text} (absent : ¬ keyword <:+: text) :
    Closed (text ++ ['\n']) := by
  intro before line rest split starts
  obtain ⟨opening, behind, tail, rfl, -⟩ := starts.exists_within
  rw [← List.append_assoc, List.append_left_inj] at split
  exact absent ⟨before ++ opening.indent, behind, by simp [split]⟩

/-- A call is no markup: no bracket stands between the keyword and the dot of the call. -/
theorem closed_of_dot {front back : Text} (bracketless : '<' ∉ front)
    (absent : ¬ keyword <:+: back) : Closed (front ++ '.' :: (back ++ ['\n'])) := by
  intro before line rest split starts
  obtain ⟨opening, behind, tail, rfl, equal⟩ := starts.exists_within
  have occurs : front ++ '.' :: (back ++ ['\n']) =
      (before ++ opening.indent) ++ (keyword ++ (behind ++ ['\n'])) := by
    rw [split]
    simp
  rcases Text.append_cases_of_separator (by decide) occurs with
    ⟨between, front_eq, behind_eq⟩ | ⟨between, -, back_eq⟩
  · -- The dot stands behind the keyword and before the bracket.
    have goesOn : between ++ '.' :: (back ++ '\n' :: rest) =
        (opening.gap ++ opening.parenthesis) ++ '<' :: tail := by
      have whole := congrArg (· ++ rest) behind_eq
      simp only [List.append_assoc, List.cons_append, List.nil_append] at whole
      rw [← whole, equal]
    obtain ⟨others, rfl, bracket⟩ := Text.exists_append_of_separator
      (opening.notMem_gap (by decide) (by decide)) goesOn
    cases others with
    | nil => exact absurd (List.cons.inj bracket).1 (by decide)
    | cons c others =>
      obtain ⟨rfl, -⟩ := List.cons.inj bracket
      exact bracketless (by simp [front_eq])
  · have found : keyword <:+: back ++ ['\n'] :=
      ⟨between, behind ++ ['\n'], by rw [back_eq, List.append_assoc]⟩
    rw [foreign_keyword.append_cons_iff (by decide)] at found
    rcases found with inside | nothing
    · exact absent inside
    · exact foreign_keyword.filled (List.infix_nil.mp nothing)

/-- Behind closed lines, markup is returned only in the text that follows. -/
theorem Closed.opensMarkup_append {front text : Text} (closed : Closed (front ++ ['\n']))
    (opens : OpensMarkup (front ++ ['\n'] ++ text)) : OpensMarkup text := by
  obtain ⟨before, opening, after, whole, equal⟩ := opens
  rcases List.append_eq_append_iff.mp equal with ⟨middle, rfl, text_eq⟩ | ⟨middle, split, behind⟩
  · refine ⟨middle, opening, after, ?_, text_eq⟩
    by_cases empty : middle = []
    · exact .inl empty
    · obtain ⟨line, line_eq⟩ := whole.resolve_left (by simp)
      exact .inr (Text.exists_eq_append_newline line_eq.symm empty)
  · by_cases empty : middle = []
    · refine ⟨[], opening, after, .inl rfl, ?_⟩
      simpa [empty] using behind.symm
    · obtain ⟨line, rfl⟩ := Text.exists_eq_append_newline split empty
      rw [List.append_assoc, List.singleton_append] at behind
      exact absurd ⟨opening, after, behind.symm⟩ (closed before line text split)

/-- A pass keeps closed lines, whatever stands behind them. -/
theorem Closed.convertForm_append {form : Pattern ReturnStatement}
    (starts : ∀ {text found rest}, form.start? text = some (found, rest) → StartsMarkup text)
    {front : Text} (closed : Closed (front ++ ['\n'])) (converter : Converter) (rest : Text) :
    converter.convertForm form (front ++ ['\n'] ++ rest) =
      (converter.convertForm form rest).behind (front ++ ['\n']) := by
  refine converter.convertForm_quiet rest (.inr ⟨front, rfl⟩) fun before after split _ filled => ?_
  obtain ⟨line, rfl⟩ := Text.exists_eq_append_newline split filled
  rw [Option.eq_none_iff_forall_ne_some]
  rintro ⟨found, behind⟩ matched
  rw [List.append_assoc, List.singleton_append] at matched
  exact closed before line rest split (starts matched)

end JsxCalls
