import JsxCalls.Proofs.DraftPass

/-!
# Where a statement of either form stands

Both forms begin with the keyword at the start of a line, and their markup lies between `<` and `>`
with a semicolon at the end; a parenthesized statement needs a closing tag with `);` behind it. A
pass keeps every line at which no statement starts.
-/

namespace JsxCalls

namespace ReturnStatement

/-! ## The ends of parenthesized statements -/

/-- A closing tag that can end a parenthesized statement stands in the text. -/
def HoldsEnding (text : Text) : Prop :=
  ∃ front name gap rest, text = front ++ (Element.closingTag name ++ (gap ++ ')' :: ';' :: rest)) ∧
    name ≠ [] ∧ '>' ∉ name ∧ ∀ c ∈ gap, isSpace c = true

theorem exists_of_throughClosing? {text inside rest : Text}
    (found : throughClosing? text = some (inside, rest)) :
    ∃ front name gap, inside = front ++ Element.closingTag name ∧
      text = front ++ (Element.closingTag name ++ (gap ++ ')' :: ';' :: rest)) ∧ name ≠ [] ∧
      '>' ∉ name ∧ ∀ c ∈ gap, isSpace c = true := by
  induction text generalizing inside with
  | nil => simp [throughClosing?] at found
  | cons c text induction =>
    simp only [throughClosing?] at found
    split at found
    · rename_i here
      obtain ⟨name, gap, rfl, text_eq, conditions⟩ := closing?_eq_some_iff.mp (here.trans found)
      exact ⟨[], name, gap, rfl, text_eq, conditions⟩
    · obtain ⟨⟨inside', rest'⟩, later, equal⟩ := Option.map_eq_some_iff.mp found
      obtain ⟨rfl, rfl⟩ := Prod.mk.inj equal
      obtain ⟨front, name, gap, rfl, rfl, conditions⟩ := induction later
      exact ⟨c :: front, name, gap, rfl, rfl, conditions⟩

theorem isSome_throughClosing?_iff {text : Text} :
    (throughClosing? text).isSome = true ↔ HoldsEnding text := by
  rw [Option.isSome_iff_exists]
  constructor
  · rintro ⟨⟨inside, rest⟩, found⟩
    obtain ⟨front, name, gap, -, text_eq, conditions⟩ := exists_of_throughClosing? found
    exact ⟨front, name, gap, rest, text_eq, conditions⟩
  · rintro ⟨front, name, gap, rest, rfl, conditions⟩
    induction front with
    | nil =>
      have closed : closing? (Element.closingTag name ++ (gap ++ ')' :: ';' :: rest)) =
          some (Element.closingTag name, rest) :=
        closing?_eq_some_iff.mpr ⟨name, gap, rfl, rfl, conditions⟩
      refine ⟨(Element.closingTag name, rest), ?_⟩
      simp only [Element.closingTag, List.cons_append, List.nil_append] at closed ⊢
      simp only [throughClosing?, closed]
    | cons c front induction =>
      obtain ⟨result, later⟩ := induction
      rw [List.cons_append, throughClosing?]
      split
      · rename_i found _
        exact ⟨found, rfl⟩
      · exact ⟨_, by rw [later]; rfl⟩

instance decidableHoldsEnding (text : Text) : Decidable (HoldsEnding text) :=
  decidable_of_iff _ isSome_throughClosing?_iff

theorem holdsEnding_append_iff {front text : Text} (plain : '<' ∉ front) :
    HoldsEnding (front ++ text) ↔ HoldsEnding text := by
  constructor
  · rintro ⟨before, name, gap, rest, equal, conditions⟩
    obtain ⟨between, -, text_eq⟩ := Text.exists_append_of_separator plain equal.symm
    exact ⟨between, name, gap, rest, text_eq, conditions⟩
  · rintro ⟨before, name, gap, rest, rfl, conditions⟩
    exact ⟨front ++ before, name, gap, rest, by simp, conditions⟩

/-! ## What a form finds -/

/-- How a statement stands at the start of a text: the keyword, the markup and the semicolon, with
nothing but white space and a parenthesis between them. -/
structure Stands (found : ReturnStatement) (gap opening closing text rest : Text) : Prop where
  text_eq : text = found.indent ++ (keyword ++ (gap ++ (opening ++ (found.markup ++
    (closing ++ ';' :: rest)))))
  indented : ∀ c ∈ found.indent, isIndent c = true
  filled : gap ≠ []
  spaces : ∀ c ∈ gap, isSpace c = true
  opens : ∀ c ∈ opening, isSpace c = true ∨ c = '('
  bracketed : ∃ content, found.markup = '<' :: (content ++ ['>'])
  closes : ∀ c ∈ closing, isSpace c = true ∨ c = ')'

/-- The pattern is a form of return statements. -/
def IsForm (form : Pattern ReturnStatement) : Prop :=
  ∀ {text rest : Text} {found : ReturnStatement}, form.start? text = some (found, rest) →
    ∃ gap opening closing, found.Stands gap opening closing text rest

/-- A parenthesized statement has one parenthesis before its markup and one behind it. -/
theorem exists_of_parenthesized? {text rest : Text} {found : ReturnStatement}
    (matched : parenthesized? text = some (found, rest)) :
    ∃ gap before last, text = found.indent ++ (keyword ++ (gap ++ ('(' :: before ++ (found.markup ++
        ((last ++ [')']) ++ ';' :: rest))))) ∧
      (∀ c ∈ found.indent, isIndent c = true) ∧ gap ≠ [] ∧ (∀ c ∈ gap, isSpace c = true) ∧
      (∀ c ∈ before, isSpace c = true) ∧ (∃ content, found.markup = '<' :: (content ++ ['>'])) ∧
      ∀ c ∈ last, isSpace c = true := by
  simp only [parenthesized?, bind, Option.bind_eq_some_iff] at matched
  obtain ⟨⟨indent, behind⟩, headed, inside, opened, body, tagged, ⟨opening, content⟩, cut,
    ⟨kept, after⟩, closed, matched⟩ := matched
  simp only [Option.some.injEq, Prod.mk.injEq] at matched
  obtain ⟨rfl, rfl⟩ := matched
  obtain ⟨gap, text_eq, filled, indented, spaces⟩ := append_of_head? headed
  obtain ⟨rfl, -⟩ := Text.until?_eq_some_iff.mp cut
  obtain ⟨front, name, last, rfl, rfl, -, -, closes⟩ := exists_of_throughClosing? closed
  obtain ⟨before, rfl, opens⟩ := Text.exists_run_append (Text.after?_eq_some_iff.mp tagged)
  obtain rfl : behind = '(' :: (before ++ (['<'] ++ _)) := Text.after?_eq_some_iff.mp opened
  refine ⟨gap, before, last, ?_, indented, filled, spaces, opens,
    ⟨opening ++ '>' :: (front ++ '<' :: '/' :: name), ?_⟩, closes⟩
  · rw [text_eq]
    simp
  · simp [Element.closingTag]

theorem isForm_parenthesized : IsForm parenthesized := by
  intro text rest found matched
  obtain ⟨gap, before, last, text_eq, indented, filled, spaces, opens, bracketed, closes⟩ :=
    exists_of_parenthesized? matched
  refine ⟨gap, '(' :: before, last ++ [')'], text_eq, indented, filled, spaces, ?_, bracketed, ?_⟩
  · intro c member
    exact (List.mem_cons.mp member).elim .inr fun inside => .inl (opens c inside)
  · intro c member
    exact (List.mem_append.mp member).imp (closes c) List.mem_singleton.mp

theorem isForm_inline : IsForm inline := by
  intro text rest found matched
  change inline? text = some (found, rest) at matched
  simp only [inline?, bind, Option.bind_eq_some_iff] at matched
  obtain ⟨⟨indent, behind⟩, headed, body, opened, ⟨content, after⟩, cut, matched⟩ := matched
  obtain ⟨gap, text_eq, filled, indented, spaces⟩ := append_of_head? headed
  obtain ⟨rfl, -⟩ := Text.until?_eq_some_iff.mp cut
  split at matched
  · rename_i ends
    simp only [Option.some.injEq, Prod.mk.injEq] at matched
    obtain ⟨rfl, rfl⟩ := matched
    obtain ⟨front, rfl⟩ := List.getLast?_eq_some_iff.mp ends.2
    obtain rfl : behind = '<' :: _ := Text.after?_eq_some_iff.mp opened
    refine ⟨gap, [], [], ?_, indented, filled, spaces, by simp, ⟨front, rfl⟩, by simp⟩
    rw [text_eq]
    simp
  · simp at matched

/-- The indentation of a statement is all that stands before the keyword. -/
theorem IsForm.indent_eq {form : Pattern ReturnStatement} (isForm : IsForm form)
    {indent behind rest : Text} {found : ReturnStatement}
    (indented : ∀ c ∈ indent, isIndent c = true)
    (matched : form.start? (indent ++ (keyword ++ behind)) = some (found, rest)) :
    found.indent = indent := by
  obtain ⟨gap, opening, closing, stands⟩ := isForm matched
  have stops : ∀ text, Text.StopsRun isIndent (keyword ++ text) := fun text =>
    Text.stopsRun_cons (by decide) _
  have runs := congrArg (List.takeWhile isIndent) stands.text_eq
  rw [Text.takeWhile_run indented (stops _),
    Text.takeWhile_run stands.indented (stops _)] at runs
  exact runs.symm

end ReturnStatement

theorem Segment.render_statement_append (converter : Converter) (found : ReturnStatement)
    (rest : Text) :
    Segment.render converter (.statement found) ++ rest =
      found.indent ++ (ReturnStatement.keyword ++ ' ' :: (converter.convert (Text.trim found.markup)
        (found.indent ++ converter.style.indentUnit) ++ ';' :: rest)) := by
  simp [Segment.render]

/-! ## Lines at which nothing starts -/

theorem Text.WholeLines.append {front text : Text} (whole : WholeLines front)
    (more : WholeLines text) : WholeLines (front ++ text) := by
  rcases more with rfl | ⟨line, rfl⟩
  · rwa [List.append_nil]
  · exact .inr ⟨front ++ line, by simp⟩

/-- A line that is not the last ends with its line break. -/
theorem Text.exists_takeLine_eq {text : Text} (more : dropLine text ≠ []) :
    ∃ front, takeLine text = front ++ ['\n'] := by
  induction text with
  | nil => exact absurd rfl more
  | cons c text induction =>
    rw [dropLine] at more
    rw [takeLine]
    split
    · rename_i newline
      exact ⟨[], by simp [newline]⟩
    · rename_i within
      rw [if_neg within] at more
      obtain ⟨front, equal⟩ := induction more
      exact ⟨c :: front, by simp [equal]⟩

/-- A text of several lines is split at its first line break. -/
theorem Text.exists_eq_append_dropLine {text : Text} (more : dropLine text ≠ []) :
    ∃ line, takeLine text = line ++ ['\n'] ∧ text = line ++ '\n' :: dropLine text := by
  obtain ⟨line, equal⟩ := exists_takeLine_eq more
  have whole := takeLine_append_dropLine text
  rw [equal, List.append_assoc] at whole
  exact ⟨line, equal, whole.symm⟩

theorem Text.WholeLines.takeLine_append {text before after : Text} (start : WholeLines before)
    (split : Text.dropLine text = before ++ after) (filled : after ≠ []) :
    WholeLines (takeLine text ++ before) := by
  have more : Text.dropLine text ≠ [] := by
    rw [split]
    exact fun empty => filled (List.append_eq_nil_iff.mp empty).2
  exact .append (.inr (exists_takeLine_eq more)) start

/-- No statement of the form starts on any line of the text. -/
def Silent (form : Pattern ReturnStatement) (text : Text) : Prop :=
  ∀ before after, text = before ++ after → Text.WholeLines before → form.start? after = none

theorem Pattern.start?_nil {α : Type} (pattern : Pattern α) : pattern.start? [] = none := by
  rw [Option.eq_none_iff_forall_ne_some]
  rintro ⟨item, rest⟩ found
  exact absurd (pattern.shorter found) (Nat.not_lt_zero _)

theorem Silent.dropLine {form : Pattern ReturnStatement} {text : Text} (silent : Silent form text) :
    Silent form (Text.dropLine text) := by
  intro before after split start
  by_cases last : after = []
  · rw [last, form.start?_nil]
  · refine silent (Text.takeLine text ++ before) after ?_ (start.takeLine_append split last)
    rw [List.append_assoc, ← split, Text.takeLine_append_dropLine]

namespace Converter

variable (converter : Converter) {form : Pattern ReturnStatement}

/-- Lines at which nothing starts are kept, whatever follows them. -/
theorem convertForm_quiet {block : Text} (rest : Text) (whole : Text.WholeLines block)
    (quiet : ∀ before after, block = before ++ after → Text.WholeLines before → after ≠ [] →
      form.start? (after ++ rest) = none) :
    converter.convertForm form (block ++ rest) =
      (converter.convertForm form rest).behind block := by
  by_cases empty : block = []
  · subst empty
    rfl
  · obtain ⟨front, equal⟩ := whole.resolve_left empty
    have broken : '\n' ∈ block := by simp [equal]
    obtain ⟨taken, dropped⟩ := Text.takeLine_append broken rest
    have shorter : (Text.dropLine block).length < block.length := Text.length_dropLine_lt empty
    have later := convertForm_quiet rest whole.dropLine (by
      intro before after split start nonempty
      refine quiet (Text.takeLine block ++ before) after ?_ (start.takeLine_append split nonempty)
        nonempty
      rw [List.append_assoc, ← split, Text.takeLine_append_dropLine])
    rw [converter.convertForm_eq_resume (quiet [] block rfl (.inl rfl) empty), resume, taken,
      dropped, later, Converted.behind_behind, Text.takeLine_append_dropLine]
termination_by block.length

theorem convertForm_silent {text : Text} (silent : Silent form text) :
    converter.convertForm form text = ⟨text, 0⟩ := by
  by_cases empty : text = []
  · subst empty
    exact converter.convertForm_nil
  · have shorter : (Text.dropLine text).length < text.length := Text.length_dropLine_lt empty
    rw [converter.convertForm_eq_resume (silent [] text rfl (.inl rfl)), resume,
      convertForm_silent silent.dropLine, Converted.behind, Text.takeLine_append_dropLine]
termination_by text.length

/-- A pass reaches every line until it finds a statement. -/
theorem silent_of_count_eq_zero {text : Text}
    (nothing : (converter.convertForm form text).count = 0) : Silent form text := by
  have missed : form.start? text = none := by
    rw [Option.eq_none_iff_forall_ne_some]
    rintro ⟨found, rest⟩ matched
    rw [converter.convertForm_eq_resume_behind matched] at nothing
    exact absurd nothing (Nat.succ_ne_zero _)
  rintro before after split (rfl | ⟨front, equal⟩)
  · rwa [split] at missed
  · have broken : '\n' ∈ before := by simp [equal]
    have whole : Text.WholeLines before := .inr ⟨front, equal⟩
    have shorter : (Text.dropLine text).length < text.length :=
      Text.length_dropLine_lt (by simp [split, equal])
    rw [converter.convertForm_eq_resume missed] at nothing
    apply silent_of_count_eq_zero nothing (Text.dropLine before) after ?_ whole.dropLine
    rw [split]
    exact (Text.takeLine_append broken after).2
termination_by text.length

end Converter

end JsxCalls
