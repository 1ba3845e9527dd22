import JsxCalls.Proofs.Carrying
import JsxCalls.Proofs.StatementForm

/-!
# What lowering conserves

A pass meets every placeholder whole, and writes it whole or writes the expression it stands for. So
no placeholder is left in a lowered source, whatever its statements and its markup look like. If no
statement is parenthesized, each expression moreover reaches the new source, and the expressions
keep their order.
-/

namespace JsxCalls

open Placeholder

/-! ## One pass -/

theorem not_mark_infix_keyword : ¬ mark <:+: ReturnStatement.keyword :=
  Text.not_infix_of_holds_eq_false (by decide +kernel)

theorem isWord_of_isIndent {c : Char} (indented : isIndent c = true) : isWord c = false :=
  isWord_of_isSpace (isSpace_of_isIndent indented)

/-- The lines of a call are indented with white space. -/
theorem CallStyle.Clear.isSpace_deeper {style : CallStyle} (clear : style.Clear) {indent : Text}
    (indented : ∀ c ∈ indent, isIndent c = true) :
    ∀ c ∈ indent ++ style.indentUnit, isSpace c = true := fun c member =>
  (List.mem_append.mp member).elim (fun inside => isSpace_of_isIndent (indented c inside))
    (clear.unit c)

namespace ReturnStatement.Stands

variable {found : ReturnStatement} {gap opening closing text rest : Text}
  (stands : found.Stands gap opening closing text rest)
include stands

theorem isJoint_opening : ∀ c ∈ opening, IsJoint c := fun c member =>
  isJoint_of_isSpace_or (by decide) (stands.opens c member)

theorem isJoint_closing : ∀ c ∈ closing, IsJoint c := fun c member =>
  isJoint_of_isSpace_or (by decide) (stands.closes c member)

/-- The placeholders of a statement are those of its markup. -/
theorem exists_spells {count : Nat} {numbers : List Nat} (spells : Spells count numbers text) :
    ∃ first second, numbers = first ++ second ∧ Spells count first found.markup ∧
      Spells count second rest := by
  obtain ⟨c, others, rfl⟩ := List.exists_cons_of_ne_nil stands.filled
  obtain ⟨blank, spaces⟩ := List.forall_mem_cons.mp stands.spaces
  rw [stands.text_eq, List.cons_append,
    spells_signs_append_iff fun d member => isWord_of_isIndent (stands.indented d member)] at spells
  obtain ⟨none, numbers, rfl, word, behind⟩ :=
    (spells_append_cons_iff (isWord_of_isSpace blank)).mp spells
  obtain rfl := word.eq_nil not_mark_infix_keyword
  rw [spells_signs_append_iff fun d member => isWord_of_isSpace (spaces d member),
    spells_signs_append_iff fun d member => (stands.isJoint_opening d member).1,
    ← List.append_assoc] at behind
  obtain ⟨first, second, rfl, markup, later⟩ := (spells_append_cons_iff (by decide)).mp behind
  rw [spells_append_signs_iff fun d member => (stands.isJoint_closing d member).1] at markup
  exact ⟨first, second, rfl, markup, later⟩

end ReturnStatement.Stands

section Pass

variable {table : ExpressionTable} (unmarked : table.Unmarked) {style : CallStyle}
  (clear : style.Clear)
include unmarked clear

theorem Spells.conveys_statement {found : ReturnStatement} {numbers others : List Nat}
    (indented : ∀ c ∈ found.indent, isIndent c = true)
    (spells : Spells table.entries.length numbers found.markup) {rest : Text} {openings : Nat}
    (later : Conveys table others openings rest) :
    Conveys table (numbers ++ others) (found.markup.count '<' + openings)
      (Segment.render ⟨style, some table⟩ (.statement found) ++ rest) := by
  have value := spells.trim.conveys_convert unmarked clear (clear.isSpace_deeper indented)
  have keyword : Carries table [] 0 ReturnStatement.keyword :=
    .of_unmarked not_mark_infix_keyword (by decide)
  have fewer : (Text.trim found.markup).count '<' ≤ found.markup.count '<' :=
    (Text.trim_infix found.markup).sublist.count_le '<'
  rw [Segment.render_statement_append]
  refine (value.append_cons (show IsJoint ';' by decide) later).map fun carries => ?_
  have whole := (keyword.append_cons (show IsJoint ' ' by decide) carries).joints_append
    fun c member => isJoint_of_isSpace (isSpace_of_isIndent (indented c member))
  exact whole.mono (by omega)

omit unmarked clear in
/-- Two lines are joined at a line break. -/
theorem Spells.conveys_resume (unmarked : table.Unmarked) {form : Pattern ReturnStatement}
    {numbers : List Nat} {text : Text} (spells : Spells table.entries.length numbers text)
    (later : ∀ {others}, Spells table.entries.length others (Text.dropLine text) →
      Conveys table others ((Text.dropLine text).count '<')
        (Converter.convertForm ⟨style, some table⟩ form (Text.dropLine text)).text) :
    Conveys table numbers (text.count '<')
      (Converter.resume ⟨style, some table⟩ form text).text := by
  by_cases last : Text.dropLine text = []
  · have whole := Text.takeLine_append_dropLine text
    rw [last, List.append_nil] at whole
    rw [Converter.resume, last, whole, Converter.convertForm_nil, Converted.behind, List.append_nil]
    exact .of_carries (spells.carries unmarked)
  · obtain ⟨line, taken, split⟩ := Text.exists_eq_append_dropLine last
    have counts := congrArg (List.count '<') split
    rw [List.count_append, List.count_cons_of_ne (by decide)] at counts
    rw [split] at spells
    obtain ⟨first, second, rfl, before, behind⟩ := (spells_append_cons_iff (by decide)).mp spells
    rw [Converter.resume, Converted.behind, taken, List.append_assoc, counts]
    exact Conveys.append_cons (by decide) (.of_carries (before.carries unmarked)) (later behind)

/-- A pass carries the expressions of the text over. -/
theorem Spells.conveys_convertForm {form : Pattern ReturnStatement}
    (isForm : ReturnStatement.IsForm form) {numbers : List Nat} {text : Text}
    (spells : Spells table.entries.length numbers text) :
    Conveys table numbers (text.count '<')
      (Converter.convertForm ⟨style, some table⟩ form text).text := by
  by_cases empty : text = []
  · subst empty
    rw [Converter.convertForm_nil]
    exact .of_carries (spells.carries unmarked)
  · cases matched : form.start? text with
    | none =>
      have shorter : (Text.dropLine text).length < text.length := Text.length_dropLine_lt empty
      rw [Converter.convertForm_eq_resume _ matched]
      exact spells.conveys_resume unmarked (Spells.conveys_convertForm isForm)
    | some result =>
      obtain ⟨found, rest⟩ := result
      have shorter : (Text.dropLine rest).length < text.length :=
        Nat.lt_of_le_of_lt (Text.length_dropLine_le rest) (form.shorter matched)
      obtain ⟨gap, opening, closing, stands⟩ := isForm matched
      obtain ⟨first, second, rfl, markup, behind⟩ := stands.exists_spells spells
      have fewer : found.markup.count '<' + rest.count '<' ≤ text.count '<' := by
        rw [stands.text_eq]
        simp only [List.count_append, List.count_cons]
        omega
      rw [Converter.convertForm_eq_resume_behind _ matched]
      exact (markup.conveys_statement unmarked clear stands.indented
        (behind.conveys_resume unmarked (Spells.conveys_convertForm isForm))).map
          fun carries => carries.mono fewer
termination_by text.length

end Pass

/-! ## Both passes -/

theorem numbersIn_numbered (index : Nat) (pieces : List (Piece Expression)) :
    numbersIn (numbered index pieces) = List.range' index (expressions pieces).length := by
  induction pieces generalizing index with
  | nil => rfl
  | cons piece pieces induction =>
    cases piece with
    | char c => exact induction index
    | item expression => simp [numbered, induction, List.range'_succ]

section Source

variable {source : Text} (unmarked : ¬ mark <:+: source)
include unmarked

/-- A masked source is spelled with one placeholder for each expression. -/
theorem spells_mask : Spells (mask source).table.entries.length
    (List.range (mask source).table.entries.length) (mask source).text := by
  refine ⟨fun number => List.mem_range.mp, numbered 0 (Expression.pattern.pieces source),
    spell_numbered 0 _, ?_, not_mark_infix_numbered unmarked⟩
  rw [numbersIn_numbered, entries_mask, List.range_eq_range']

/-- Both passes leave the placeholders whole. -/
theorem exists_spells_convertReturns {style : CallStyle} (clear : style.Clear) :
    ∃ numbers, Spells (mask source).table.entries.length numbers
      (Converter.convertReturns ⟨style, some (mask source).table⟩ (mask source).text).text := by
  have table := unmarked_table unmarked
  obtain ⟨_, first, -⟩ := (spells_mask unmarked).conveys_convertForm table clear
    ReturnStatement.isForm_parenthesized
  obtain ⟨kept, between, -⟩ := first.whole
  obtain ⟨_, second, -⟩ := between.conveys_convertForm table clear ReturnStatement.isForm_inline
  obtain ⟨numbers, spells, -⟩ := second.whole
  exact ⟨numbers, spells⟩

end Source

/-- No placeholder is left in a lowered source. -/
theorem not_mark_infix_lower {style : CallStyle} (clear : style.Clear) {source : Text}
    (unmarked : ¬ mark <:+: source) : ¬ mark <:+: (lower style source).output := by
  obtain ⟨numbers, spells⟩ := exists_spells_convertReturns unmarked clear
  exact spells.not_mark_infix_restore (unmarked_table unmarked)

/-- A source with nested and unbalanced braces, a statement that runs into the next one, and
expressions in place of a name and of a tag. -/
def unbalancedSource : Text :=
  "return (\n<A b=\x7b\x7bc\x7d\x7d d='\x7be\x7d' f=\x7b\x7d/>\n);\n".toList ++
    "return (\n  <b \x7bg\x7d-h=\x7d\x7bi\x7d>it's \x7b\x7b</b>\n);\n".toList ++
    "  return <\x7bk\x7d>;</\x7bk\x7d>;\n".toList

theorem not_mark_infix_lower_unbalancedSource :
    (mask unbalancedSource).table.entries.length = 7 ∧ (lower {} unbalancedSource).statements = 2 ∧
      ¬ mark <:+: (lower {} unbalancedSource).output := by
  refine ⟨by decide +kernel, by decide +kernel, ?_⟩
  exact not_mark_infix_lower CallStyle.plain_default.clear
    (Text.not_infix_of_holds_eq_false (by decide +kernel))

/-! ## One pass that converts -/

theorem ExpressionTable.map_bodyAt_range (table : ExpressionTable) :
    (List.range table.entries.length).map table.bodyAt = table.entries.map Expression.body := by
  apply List.ext_getElem
  · simp
  · intro index _ bound
    rw [List.length_map] at bound
    simp [bodyAt, get?, bound]

/-- Where no statement is parenthesized, every expression of a source stands in the lowered source,
without its braces and in the same order. -/
theorem inOrder_lower {style : CallStyle} (clear : style.Clear) {source : Text}
    (unmarked : ¬ mark <:+: source)
    (silent : Silent ReturnStatement.parenthesized (mask source).text) :
    InOrder ((mask source).table.entries.map Expression.body) (lower style source).output := by
  obtain ⟨carried, carries, -, all⟩ := (spells_mask unmarked).conveys_convertForm
    (unmarked_table unmarked) clear ReturnStatement.isForm_inline
  have ordered := carries.ordered
  rw [all List.nodup_range, ExpressionTable.map_bodyAt_range] at ordered
  simp only [lower, Converter.convertReturns, Converter.convertForm_silent _ silent]
  exact ordered

/-- A source with expressions in other text, as a value, within a quoted value, with nothing between
the braces, within a name, in the children and as a tag. -/
def scatteredSource : Text :=
  "f(\x7ba\x7d);\nreturn <p x=\x7b1;\x7d y=\"\x7bb\x7d'\" z=\x7b\x7dq\x7bc\x7d>".toList ++
    "it's \x7bd\x7d</p>;\nreturn <\x7be\x7d/>;\n".toList

theorem inOrder_lower_scatteredSource :
    (lower {} scatteredSource).statements = 2 ∧
      InOrder (["a", "1;", "b", "", "c", "d", "e"].map String.toList)
        (lower {} scatteredSource).output := by
  have silent : Silent ReturnStatement.parenthesized (mask scatteredSource).text :=
    Converter.silent_of_count_eq_zero ⟨{}, none⟩ (by decide +kernel)
  have entries : (mask scatteredSource).table.entries.map Expression.body =
      ["a", "1;", "b", "", "c", "d", "e"].map String.toList := by decide +kernel
  refine ⟨by decide +kernel, ?_⟩
  rw [← entries]
  exact inOrder_lower CallStyle.plain_default.clear
    (Text.not_infix_of_holds_eq_false (by decide +kernel)) silent

end JsxCalls
