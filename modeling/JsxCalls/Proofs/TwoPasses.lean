import JsxCalls.Proofs.StatementForm

/-!
# The two passes, statement by statement

An inline statement reaches to the first semicolon and no further, so a text that ends with a
semicolon is converted apart from the text behind it. Every statement of the first pass is written
with a semicolon at its end. So the second pass treats each written statement together with the
lines before it, and apart from all that follows; and a text is converted from one parenthesized
statement to the next.
-/

namespace JsxCalls

open ReturnStatement

/-! ## Inline statements -/

/-- An inline statement consists of the keyword, white space, markup without a semicolon, and the
semicolon. -/
theorem ReturnStatement.inline?_eq_some_iff {text rest : Text} {found : ReturnStatement} :
    inline? text = some (found, rest) ↔ ∃ gap content,
      text = found.indent ++ (keyword ++ (gap ++ '<' :: (content ++ '>' :: ';' :: rest))) ∧
      (∀ c ∈ found.indent, isIndent c = true) ∧ gap ≠ [] ∧ (∀ c ∈ gap, isSpace c = true) ∧
      content ≠ [] ∧ ';' ∉ content ∧ found.markup = '<' :: (content ++ ['>']) := by
  constructor
  · intro matched
    simp only [inline?, bind, Option.bind_eq_some_iff] at matched
    obtain ⟨⟨indent, behind⟩, headed, body, opened, ⟨inside, after⟩, cut, matched⟩ := matched
    obtain ⟨gap, text_eq, filled, indented, spaces⟩ := append_of_head? headed
    obtain rfl : behind = '<' :: body := Text.after?_eq_some_iff.mp opened
    obtain ⟨rfl, outside⟩ := Text.until?_eq_some_iff.mp cut
    split at matched
    · rename_i ends
      simp only [Option.some.injEq, Prod.mk.injEq] at matched
      obtain ⟨rfl, rfl⟩ := matched
      obtain ⟨content, rfl⟩ := List.getLast?_eq_some_iff.mp ends.2
      refine ⟨gap, content, by simp [text_eq], indented, filled, spaces, ?_, ?_, rfl⟩
      · rintro rfl
        exact Nat.not_succ_le_self 1 ends.1
      · exact fun member => outside (List.mem_append_left _ member)
    · simp at matched
  · obtain ⟨indent, markup⟩ := found
    rintro ⟨gap, content, rfl, indented, filled, spaces, nonempty, outside, equal⟩
    obtain rfl : markup = '<' :: (content ++ ['>']) := equal
    have stops : Text.StopsRun isSpace ('<' :: (content ++ '>' :: ';' :: rest)) :=
      Text.stopsRun_cons (by decide) _
    have opened : Text.after? ['<'] ('<' :: (content ++ '>' :: ';' :: rest)) =
        some (content ++ '>' :: ';' :: rest) := Text.after?_eq_some_iff.mpr rfl
    have cut : Text.until? ';' (content ++ '>' :: ';' :: rest) = some (content ++ ['>'], rest) :=
      Text.until?_eq_some_iff.mpr ⟨by simp, by simp [outside]⟩
    have ends : 2 ≤ (content ++ ['>']).length ∧ (content ++ ['>']).getLast? = some '>' := by
      have := List.length_pos_iff.mpr nonempty
      refine ⟨?_, by simp⟩
      rw [List.length_append, List.length_singleton]
      omega
    simp only [inline?, head?_gap_append indented filled spaces stops, opened, cut,
      Option.bind_eq_bind, Option.bind_some, if_pos ends]

/-- An inline statement is found within a text that ends with a semicolon, or not at all. -/
theorem ReturnStatement.inline?_semicolon (front rest : Text) :
    inline? (front ++ ';' :: rest) =
      (inline? (front ++ [';'])).map fun result => (result.1, result.2 ++ rest) := by
  cases here : inline? (front ++ [';']) with
  | some result =>
    obtain ⟨found, behind⟩ := result
    obtain ⟨start, -, text, anywhere⟩ := exists_of_inline? here
    have whole := congrArg (· ++ rest) text
    simp only [List.append_assoc, List.cons_append, List.nil_append] at whole
    rw [whole]
    exact anywhere (behind ++ rest)
  | none =>
    rw [Option.map_none, Option.eq_none_iff_forall_ne_some]
    rintro ⟨found, behind⟩ matched
    obtain ⟨start, outside, text, anywhere⟩ := exists_of_inline? matched
    obtain ⟨between, rfl, split⟩ := Text.exists_append_of_separator outside text
    have early : ∃ kept, between ++ [';'] = ';' :: kept := by
      cases between with
      | nil => exact ⟨[], rfl⟩
      | cons c between =>
        obtain rfl : ';' = c := (List.cons.inj split).1
        exact ⟨between ++ [';'], rfl⟩
    obtain ⟨kept, equal⟩ := early
    rw [List.append_assoc, equal, anywhere kept] at here
    simp at here

/-! ## Texts that end with a semicolon -/

/-- A converted text and another one behind it. -/
def Converted.append (left right : Converted) : Converted :=
  ⟨left.text ++ right.text, left.count + right.count⟩

theorem Converted.behind_append (front : Text) (left right : Converted) :
    (left.behind front).append right = (left.append right).behind front := by
  simp [Converted.behind, Converted.append]

namespace Converter

variable (converter : Converter)

theorem resume_semicolon_of (front rest : Text)
    (lines : ∀ shorter : Text, shorter.length < front.length →
      converter.convertForm inline (shorter ++ ';' :: rest) =
        (converter.convertForm inline (shorter ++ [';'])).append (converter.resume inline rest)) :
    converter.resume inline (front ++ ';' :: rest) =
      (converter.resume inline (front ++ [';'])).append (converter.resume inline rest) := by
  induction front with
  | nil =>
    rw [List.nil_append, List.nil_append, converter.resume_cons (by decide),
      converter.resume_cons (by decide), Converted.behind_append]
    simp [Converted.append, Converted.behind, resume, Text.takeLine, Text.dropLine]
  | cons c front induction =>
    rw [List.cons_append, List.cons_append]
    by_cases newline : c = '\n'
    · rw [newline, converter.resume_newline, converter.resume_newline, Converted.behind_append,
        lines front (Nat.lt_succ_self _)]
    · rw [converter.resume_cons newline, converter.resume_cons newline, Converted.behind_append,
        induction fun shorter less => lines shorter (Nat.lt_succ_of_lt less)]

/-- Behind a semicolon the second pass goes on as if it had begun there within a line. -/
theorem convertForm_semicolon (front rest : Text) :
    converter.convertForm inline (front ++ ';' :: rest) =
      (converter.convertForm inline (front ++ [';'])).append (converter.resume inline rest) := by
  have lines : ∀ shorter : Text, shorter.length < front.length →
      converter.convertForm inline (shorter ++ ';' :: rest) =
        (converter.convertForm inline (shorter ++ [';'])).append (converter.resume inline rest) :=
    fun shorter _ => convertForm_semicolon shorter rest
  have same : inline.start? (front ++ ';' :: rest) =
      (inline.start? (front ++ [';'])).map fun result => (result.1, result.2 ++ rest) :=
    inline?_semicolon front rest
  cases here : inline.start? (front ++ [';']) with
  | none =>
    rw [here] at same
    rw [converter.convertForm_eq_resume same, converter.convertForm_eq_resume here,
      converter.resume_semicolon_of front rest lines]
  | some result =>
    obtain ⟨found, behind⟩ := result
    rw [here] at same
    -- What is left behind the statement is nothing, or ends with the same semicolon.
    have goes_on : converter.resume inline (behind ++ rest) =
        (converter.resume inline behind).append (converter.resume inline rest) := by
      obtain ⟨start, -, text, -⟩ := exists_of_inline? here
      rcases List.eq_nil_or_concat behind with rfl | ⟨between, last, rfl⟩
      · simp [Converted.append, resume, Converted.behind, Text.takeLine, Text.dropLine]
      · have ends : front ++ [';'] = (start ++ ';' :: between) ++ [last] := by simpa using text
        obtain ⟨rfl, last_eq⟩ := List.append_inj' ends rfl
        obtain rfl : ';' = last := List.singleton_inj.mp last_eq
        have shorter := converter.resume_semicolon_of between rest fun shorter less =>
          lines shorter (by
            simp only [List.length_append, List.length_cons]
            omega)
        simpa using shorter
    rw [converter.convertForm_eq_resume_behind same, converter.convertForm_eq_resume_behind here,
      goes_on]
    simp [Converted.append, Nat.add_right_comm]
termination_by front.length

end Converter

/-! ## From one statement to the next -/

/-- The first statement of a form in a text: no statement starts on the lines of the block before
it. -/
structure FirstStatement (form : Pattern ReturnStatement) (found : ReturnStatement)
    (block after rest : Text) : Prop where
  whole : Text.WholeLines block
  quiet : ∀ before middle, block = before ++ middle → Text.WholeLines before → middle ≠ [] →
    form.start? (middle ++ after) = none
  matched : form.start? after = some (found, rest)

variable {form : Pattern ReturnStatement}

theorem exists_firstStatement {block after rest : Text} {found : ReturnStatement}
    (whole : Text.WholeLines block) (matched : form.start? after = some (found, rest)) :
    ∃ found block' after' rest, block ++ after = block' ++ after' ∧
      FirstStatement form found block' after' rest := by
  by_cases quiet : ∀ before middle, block = before ++ middle → Text.WholeLines before →
      middle ≠ [] → form.start? (middle ++ after) = none
  · exact ⟨found, block, after, rest, rfl, whole, quiet, matched⟩
  · -- A statement starts earlier, and fewer lines stand before it.
    simp only [Classical.not_forall] at quiet
    obtain ⟨before, middle, rfl, start, filled, earlier⟩ := quiet
    obtain ⟨⟨found, rest⟩, earlier⟩ := Option.ne_none_iff_exists'.mp earlier
    have shorter : before.length < (before ++ middle).length := by
      have := List.length_pos_iff.mpr filled
      rw [List.length_append]
      omega
    rw [List.append_assoc]
    exact exists_firstStatement start earlier
termination_by block.length

/-- A text without statements is one case; otherwise the property is carried from the line behind a
statement over the statement and the lines before it. -/
@[elab_as_elim]
theorem statement_induction (form : Pattern ReturnStatement) {motive : Text → Prop}
    (silent : ∀ text, Silent form text → motive text)
    (step : ∀ found block after rest, FirstStatement form found block after rest →
      motive (Text.dropLine rest) → motive (block ++ after)) (text : Text) : motive text := by
  by_cases none : Silent form text
  · exact silent text none
  · simp only [Silent, Classical.not_forall] at none
    obtain ⟨before, after, rfl, whole, some⟩ := none
    obtain ⟨⟨found, rest⟩, matched⟩ := Option.ne_none_iff_exists'.mp some
    obtain ⟨found, block, after', rest, equal, first⟩ := exists_firstStatement whole matched
    have shorter : (Text.dropLine rest).length < (before ++ after).length := by
      have := form.shorter first.matched
      have := Text.length_dropLine_le rest
      rw [equal, List.length_append]
      omega
    rw [equal]
    exact step found block after' rest first (statement_induction form silent step _)
termination_by text.length

/-- A line that was kept is passed over by the next pass, if more lines stand behind it only where
they did before. -/
theorem Text.line_append (text later : Text) (last : dropLine text = [] → later = []) :
    takeLine (takeLine text ++ later) = takeLine text ∧
      dropLine (takeLine text ++ later) = later := by
  induction text with
  | nil =>
    rw [last rfl]
    exact ⟨rfl, rfl⟩
  | cons c text induction =>
    rw [takeLine]
    rw [dropLine] at last
    split
    · rename_i newline
      simp [takeLine, dropLine, newline]
    · rename_i within
      rw [if_neg within] at last
      simp [takeLine, dropLine, within, induction last]

theorem Segment.exists_render_eq (converter : Converter) (found : ReturnStatement) :
    ∃ value, Segment.render converter (.statement found) =
      (found.indent ++ (keyword ++ ' ' :: value)) ++ [';'] :=
  ⟨_, by rw [Segment.render]; simp only [List.append_assoc]; rfl⟩

namespace FirstStatement

variable {found : ReturnStatement} {block after rest : Text} (converter : Converter)

theorem convertForm_eq (first : FirstStatement form found block after rest) :
    converter.convertForm form (block ++ after) =
      ⟨block ++ (Segment.render converter (.statement found) ++ (converter.resume form rest).text),
        (converter.resume form rest).count + 1⟩ := by
  rw [converter.convertForm_quiet after first.whole first.quiet,
    converter.convertForm_eq_resume_behind first.matched, Converted.behind]

/-- The second pass treats a written statement with the lines before it, then passes over the rest
of the line, and then goes on as for a text of its own. -/
theorem convertReturns_eq (first : FirstStatement parenthesized found block after rest) :
    converter.convertReturns (block ++ after) =
      ((converter.convertForm inline (block ++ Segment.render converter (.statement found))).append
        ⟨Text.takeLine rest ++ (converter.convertReturns (Text.dropLine rest)).text,
          (converter.convertReturns (Text.dropLine rest)).count + 1⟩) := by
  obtain ⟨value, written⟩ := Segment.exists_render_eq converter found
  obtain ⟨taken, dropped⟩ := Text.line_append rest
    (converter.convertForm parenthesized (Text.dropLine rest)).text fun last => by
      rw [last, converter.convertForm_nil]
  have later : (converter.resume parenthesized rest).text = Text.takeLine rest ++
      (converter.convertForm parenthesized (Text.dropLine rest)).text := rfl
  have text : block ++ (Segment.render converter (.statement found) ++
      (converter.resume parenthesized rest).text) = (block ++ (found.indent ++ (keyword ++
        ' ' :: value))) ++ ';' :: (converter.resume parenthesized rest).text := by
    simp [written]
  have count : (converter.resume parenthesized rest).count =
      (converter.convertForm parenthesized (Text.dropLine rest)).count := rfl
  rw [Converter.convertReturns, first.convertForm_eq converter]
  dsimp only
  rw [text, converter.convertForm_semicolon, List.append_assoc block, ← written, later,
    Converter.resume, taken, dropped, count]
  simp only [Converted.append, Converted.behind, Converter.convertReturns, Converted.mk.injEq,
    true_and]
  omega

end FirstStatement

theorem Converter.convertReturns_of_silent (converter : Converter) {text : Text}
    (silent : Silent parenthesized text) :
    converter.convertReturns text = converter.convertForm inline text := by
  simp only [convertReturns, converter.convertForm_silent silent, Nat.zero_add]

end JsxCalls
