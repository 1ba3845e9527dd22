import JsxCalls.Lowering
import JsxCalls.Proofs.ReturnLines
import JsxCalls.Proofs.Span
import JsxCalls.Proofs.TwoPasses

/-!
# How often a return is counted

Every counted statement starts on a line with the keyword. Such a line of the source is counted
twice if its markup is no element: the first pass writes the markup as it is, and the second pass
may find it again. And an expression that is written out in a call may bring in lines of its own.
Nothing else is counted beyond the lines of the source.
-/

namespace JsxCalls

open ReturnStatement

/-! ## Statements of the second pass -/

/-- The text starts with an inline statement. -/
def startsInline (text : Text) : Bool :=
  (inline? text).isSome

theorem startsReturn_of_startsInline {text : Text} (found : startsInline text = true) :
    startsReturn text = true := by
  obtain ⟨⟨statement, rest⟩, matched⟩ := Option.isSome_iff_exists.mp found
  obtain ⟨gap, content, text_eq, indented, -⟩ := inline?_eq_some_iff.mp matched
  exact startsReturn_iff.mpr ⟨statement.indent, _, text_eq, indented⟩

theorem breaks_startsInline_le (text : Text) :
    breaks startsInline text ≤ breaks startsReturn text :=
  breaks_mono (fun _ found => startsReturn_of_startsInline found) text

theorem breaks_startsInline_append_cons_le {c : Char} (stop : isStop c = true) (left right : Text) :
    breaks startsInline (left ++ c :: right) ≤
      breaks startsReturn left + breaks startsInline (c :: right) := by
  induction left with
  | nil => exact Nat.le_add_left ..
  | cons d left induction =>
    refine breaks_cons_le 0 (breaks startsInline (c :: right)) (fun found => ?_) induction
    rw [← startsReturn_append_cons stop left right]
    exact startsReturn_of_startsInline found

theorem Converter.count_inline_le (converter : Converter) (text : Text) :
    (converter.convertForm inline text).count ≤ breaks startsInline ('\n' :: text) := by
  by_cases empty : text = []
  · rw [empty, converter.convertForm_nil]
    exact Nat.zero_le _
  · cases matched : inline.start? text with
    | none =>
      have shorter : (Text.dropLine text).length < text.length := Text.length_dropLine_lt empty
      have later := converter.count_inline_le (Text.dropLine text)
      have line := breaks_newline_dropLine_le startsInline rfl text
      rw [converter.convertForm_eq_resume matched]
      exact Nat.le_trans later (Nat.le_trans line (Nat.le_add_left ..))
    | some result =>
      obtain ⟨found, rest⟩ := result
      have shorter : (Text.dropLine rest).length < text.length :=
        Nat.lt_of_le_of_lt (Text.length_dropLine_le rest) (inline.shorter matched)
      have later := converter.count_inline_le (Text.dropLine rest)
      have line := breaks_newline_dropLine_le startsInline rfl rest
      have behind : rest <:+ text := by
        obtain ⟨gap, content, text_eq, -⟩ := inline?_eq_some_iff.mp matched
        exact ⟨found.indent ++ (keyword ++ (gap ++ '<' :: (content ++ ['>', ';']))),
          by simp [text_eq]⟩
      have inside : breaks startsInline rest ≤ breaks startsInline text :=
        breaks_le_of_suffix behind
      have starts : startsInline text = true := Option.isSome_iff_exists.mpr ⟨_, matched⟩
      rw [converter.convertForm_eq_resume_behind matched, breaks, if_pos ⟨rfl, starts⟩]
      change (converter.convertForm inline (Text.dropLine rest)).count + 1 ≤ _
      omega
termination_by text.length

/-- The lines before a written statement count at most once each. The statement itself counts at
most once, and so do the lines of its value. -/
theorem Converter.count_written_le (converter : Converter) {block indent : Text}
    (whole : Text.WholeLines block) (indented : ∀ c ∈ indent, isIndent c = true) (value : Text) :
    (converter.convertForm inline
        (block ++ (indent ++ (keyword ++ ' ' :: (value ++ [';']))))).count ≤
      returnLines block + breaks startsReturn value +
        (startsInline (indent ++ (keyword ++ ' ' :: (value ++ [';'])))).toNat := by
  have text : indent ++ (keyword ++ ' ' :: (value ++ [';'])) =
      (indent ++ keyword) ++ ' ' :: (value ++ [';']) := by simp
  have inside : breaks startsReturn (indent ++ (keyword ++ ' ' :: (value ++ [';']))) =
      breaks startsReturn value := by
    rw [text, breaks_line_append (newline_notMem_indent_keyword indented),
      breaks_cons_of_ne (by decide), breaks_append_singleton (by decide)]
  generalize indent ++ (keyword ++ ' ' :: (value ++ [';'])) = written at inside
  obtain ⟨lines, equal⟩ := whole.exists_newline_cons
  have count := converter.count_inline_le (block ++ written)
  have before : returnLines block = breaks startsReturn lines := by
    rw [returnLines, equal, breaks_append_singleton (by decide)]
  have split := breaks_startsInline_append_cons_le (c := '\n') (by decide) lines written
  have itself : breaks startsInline ('\n' :: written) ≤
      (startsInline written).toNat + breaks startsReturn written := by
    have others := breaks_startsInline_le written
    cases starts : startsInline written <;> simp [breaks, starts] <;> omega
  rw [← List.cons_append, equal, List.append_assoc, List.singleton_append] at count
  omega

/-! ## Counted again -/

/-- The statement in a segment. -/
def Segment.statement? : Segment → Option ReturnStatement
  | .kept _ => none
  | .statement found => some found

/-- The statements of a form that a pass finds in a text. -/
def Segment.statements (form : Pattern ReturnStatement) (text : Text) : List ReturnStatement :=
  (ofText form text).filterMap statement?

/-- How many statements the second pass may find in a statement of the first pass beyond the lines
that the statement had: itself, if its markup is no element, and otherwise the lines of the
expressions that are written out in the call. -/
def Converter.recount (converter : Converter) (found : ReturnStatement) : Nat :=
  match Element.parse? (Text.trim found.markup) with
  | none => (startsInline (Segment.render converter (.statement found))).toNat
  | some element => returnsInList converter.table element.attributes

/-- How many statements may be found again in a whole text. -/
def Converter.recounts (converter : Converter) (text : Text) : Nat :=
  ((Segment.statements parenthesized text).map converter.recount).sum

theorem Segment.statements_quiet {form : Pattern ReturnStatement} {block : Text} (rest : Text)
    (whole : Text.WholeLines block) (quiet : ∀ before after, block = before ++ after →
      Text.WholeLines before → after ≠ [] → form.start? (after ++ rest) = none) :
    statements form (block ++ rest) = statements form rest := by
  by_cases empty : block = []
  · rw [empty, List.nil_append]
  · obtain ⟨front, equal⟩ := whole.resolve_left empty
    have broken : '\n' ∈ block := by simp [equal]
    have dropped := (Text.takeLine_append broken rest).2
    have shorter : (Text.dropLine block).length < block.length := Text.length_dropLine_lt empty
    have later := statements_quiet rest whole.dropLine (by
      intro before after split start nonempty
      refine quiet (Text.takeLine block ++ before) after ?_ (start.takeLine_append split nonempty)
        nonempty
      rw [List.append_assoc, ← split, Text.takeLine_append_dropLine])
    rw [statements, ofText_of_none (by simp [empty]) (quiet [] block rfl (.inl rfl) empty), dropped,
      ← later]
    rfl
termination_by block.length

theorem FirstStatement.statements_eq {form : Pattern ReturnStatement} {found : ReturnStatement}
    {block after rest : Text} (first : FirstStatement form found block after rest) :
    Segment.statements form (block ++ after) =
      found :: Segment.statements form (Text.dropLine rest) := by
  rw [Segment.statements_quiet after first.whole first.quiet, Segment.statements,
    Segment.ofText_of_some first.matched]
  rfl

theorem Converter.breaks_convert_le (converter : Converter) (regular : converter.style.Regular)
    {found : ReturnStatement} (indented : ∀ c ∈ found.indent, isIndent c = true)
    (bracketed : ∃ content, found.markup = '<' :: (content ++ ['>'])) :
    breaks startsReturn (converter.convert (Text.trim found.markup)
        (found.indent ++ converter.style.indentUnit)) +
      (startsInline (Segment.render converter (.statement found))).toNat ≤
        breaks startsReturn found.markup + converter.recount found := by
  obtain ⟨content, markup_eq⟩ := bracketed
  have trimmed : Text.trim found.markup = found.markup := by rw [markup_eq, Text.trim_bracketed]
  have written := Segment.render_statement_append converter found []
  rw [List.append_nil] at written
  rw [Converter.recount]
  cases parsed : Element.parse? found.markup with
  | none =>
    have kept : converter.convert found.markup (found.indent ++ converter.style.indentUnit) =
        found.markup := by
      simp only [Converter.convert, trimmed, parsed]
    simp only [trimmed, parsed, kept]
    exact Nat.le_refl _
  | some element =>
    obtain ⟨readable, gap, source_eq, -⟩ := Element.exists_of_parse? parsed
    have called : converter.convert found.markup (found.indent ++ converter.style.indentUnit) =
        (converter.call element).render (found.indent ++ converter.style.indentUnit)
          converter.style.indentUnit := by
      simp only [Converter.convert, trimmed, parsed]
    have blank : ∀ c ∈ found.indent ++ converter.style.indentUnit, isSpace c = true := by
      intro c member
      exact (List.mem_append.mp member).elim (fun inside => isSpace_of_isIndent (indented c inside))
        (regular.unit c)
    have lines := converter.breaks_call_le regular readable blank
    have source := breaks_add_le element.source gap
    rw [← source_eq] at source
    have missed : startsInline (Segment.render converter (.statement found)) = false := by
      rw [written, trimmed, called, ElementCall.render_eq, startsInline, List.append_assoc,
        List.cons_append]
      exact congrArg Option.isSome (regular.inline?_receiver_eq_none indented _)
    simp only [trimmed, parsed, called, missed, Bool.toNat_false]
    omega

theorem FirstStatement.returnLines_le {found : ReturnStatement} {block after rest : Text}
    (first : FirstStatement parenthesized found block after rest) :
    returnLines block + (1 + breaks startsReturn found.markup + returnLines (Text.dropLine rest)) ≤
      returnLines (block ++ after) := by
  obtain ⟨gap, before, last, text_eq, indented, -⟩ := exists_of_parenthesized? first.matched
  have starts : startsReturn after = true :=
    startsReturn_iff.mpr ⟨found.indent, _, text_eq, indented⟩
  have text : after = (found.indent ++ (keyword ++ (gap ++ '(' :: before))) ++ (found.markup ++
      ((last ++ [')', ';']) ++ rest)) := by simp [text_eq]
  have later := breaks_newline_dropLine_le startsReturn rfl rest
  have parts : breaks startsReturn found.markup + breaks startsReturn rest ≤
      breaks startsReturn after := by
    have first := breaks_add_le found.markup ((last ++ [')', ';']) ++ rest)
    have second := breaks_add_le (last ++ [')', ';']) rest
    have third := breaks_add_le (found.indent ++ (keyword ++ (gap ++ '(' :: before)))
      (found.markup ++ ((last ++ [')', ';']) ++ rest))
    rw [← text] at third
    omega
  have line : returnLines after = 1 + breaks startsReturn after := by
    rw [returnLines, breaks, if_pos ⟨rfl, starts⟩]
  change returnLines (Text.dropLine rest) ≤ _ at later
  rw [returnLines_append first.whole, line]
  omega

theorem Converter.count_convertReturns_le (converter : Converter)
    (regular : converter.style.Regular) (text : Text) :
    (converter.convertReturns text).count ≤ returnLines text + converter.recounts text := by
  induction text using statement_induction parenthesized with
  | silent text silent =>
    have count := converter.count_inline_le text
    have lines := breaks_startsInline_le ('\n' :: text)
    rw [converter.convertReturns_of_silent silent]
    exact Nat.le_trans count (Nat.le_trans lines (Nat.le_add_right ..))
  | step found block after rest first induction =>
    obtain ⟨gap, before, last, -, indented, -, -, -, bracketed, -⟩ :=
      exists_of_parenthesized? first.matched
    have lines := first.returnLines_le
    have value := converter.breaks_convert_le regular indented bracketed
    have block_count := converter.count_written_le first.whole indented
      (converter.convert (Text.trim found.markup) (found.indent ++ converter.style.indentUnit))
    have written := Segment.render_statement_append converter found []
    rw [List.append_nil] at written
    rw [← written] at block_count
    rw [recounts, first.statements_eq, List.map_cons, List.sum_cons,
      first.convertReturns_eq converter]
    change _ + (_ + 1) ≤ _
    rw [recounts] at induction
    omega

/-! ## Masked sources -/

theorem startsReturn_of_maskFrom {index : Nat} {pieces : List (Piece Expression)}
    (starts : startsReturn (maskFrom index pieces) = true) :
    startsReturn (written pieces) = true := by
  obtain ⟨indent, behind, text_eq, indented⟩ := startsReturn_iff.mp starts
  have underscore : '_' ∉ indent ++ keyword := by
    rw [List.mem_append, not_or]
    exact ⟨fun member => absurd (indented _ member) (by decide), by decide⟩
  rw [← spell_numbered, ← List.append_assoc] at text_eq
  obtain ⟨others, split, -⟩ := Placeholder.exists_of_spell_eq_append underscore text_eq
  obtain ⟨rest, equal⟩ := prefix_written_of_prefix_numbered ⟨others, split.symm⟩
  exact startsReturn_iff.mpr ⟨indent, rest, by rw [← equal, List.append_assoc], indented⟩

theorem breaks_maskFrom_le (index : Nat) (pieces : List (Piece Expression)) :
    breaks startsReturn (maskFrom index pieces) ≤ breaks startsReturn (written pieces) := by
  induction pieces generalizing index with
  | nil => exact Nat.le_refl _
  | cons piece pieces induction =>
    cases piece with
    | char c =>
      rw [maskFrom, written_char]
      exact breaks_cons_le 0 0 startsReturn_of_maskFrom (induction index)
    | item expression =>
      have within : '\n' ∉ Placeholder.token index := fun member =>
        absurd (isWord_of_mem_token member) (by decide)
      have parts := breaks_add_le expression.source (written pieces)
      have later := induction (index + 1)
      rw [maskFrom, written_item, breaks_line_append within]
      omega

/-- Masking makes no line that starts with the keyword. -/
theorem returnLines_mask_le (source : Text) :
    returnLines (mask source).text ≤ returnLines source := by
  have lines := breaks_maskFrom_le 0 (.char '\n' :: Expression.pattern.pieces source)
  rwa [maskFrom, written_char, written_pieces] at lines

/-- No more statements are counted than there are lines that start with the keyword, apart from
those that are found again. -/
theorem count_le_returnLines {style : CallStyle} (regular : style.Regular) :
    (∀ table text, (Converter.convertReturns ⟨style, table⟩ text).count ≤
        returnLines text + Converter.recounts ⟨style, table⟩ text) ∧
      ∀ source, (lower style source).statements ≤ returnLines source +
        Converter.recounts ⟨style, some (mask source).table⟩ (mask source).text := by
  have count : ∀ table text, (Converter.convertReturns ⟨style, table⟩ text).count ≤
      returnLines text + Converter.recounts ⟨style, table⟩ text := fun table text =>
    Converter.count_convertReturns_le ⟨style, table⟩ regular text
  refine ⟨count, fun source => ?_⟩
  have masked := count (some (mask source).table) (mask source).text
  have lines := returnLines_mask_le source
  change (Converter.convertReturns ⟨style, some (mask source).table⟩ (mask source).text).count ≤ _
  omega

/-- A statement whose tags do not match. -/
def mismatchedReturn : Text :=
  "return (\n<a>x</b>\n);\n".toList

/-- Behind a mismatched statement, a statement with an expression that has a statement in it. -/
def nestedReturn : Text :=
  mismatchedReturn ++ "return (\n<p a=\x7b\nreturn <i>y</i>;\n\x7d>z</p>\n);\n".toList

theorem count_le_returnLines_nestedReturn :
    CallStyle.Regular {} ∧ (lower {} nestedReturn).statements = 4 ∧ returnLines nestedReturn = 3 ∧
      (lower {} nestedReturn).statements ≤ returnLines nestedReturn +
        Converter.recounts ⟨{}, some (mask nestedReturn).table⟩ (mask nestedReturn).text :=
  ⟨CallStyle.plain_default.toRegular, by decide +kernel, by decide +kernel,
    (count_le_returnLines CallStyle.plain_default.toRegular).2 nestedReturn⟩

/-- The one return of the text is counted by both passes. -/
theorem returnLines_lt_count_mismatchedReturn :
    CallStyle.Regular {} ∧ returnLines mismatchedReturn = 1 ∧
      Converter.convertReturns ⟨{}, none⟩ mismatchedReturn = ⟨"return <a>x</b>;\n".toList, 2⟩ := by
  refine ⟨CallStyle.plain_default.toRegular, ?_⟩
  decide +kernel

end JsxCalls
