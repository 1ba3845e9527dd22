import JsxCalls.Proofs.Markup
import JsxCalls.Proofs.Occurrence

/-!
# A pass over the lines of a text

A pass advances line by line. It keeps lines on which nothing starts, and it converts a statement
at the start of a line without looking at the text behind its last line. So the result for a text
is composed from the results for its blocks of whole lines.
-/

namespace JsxCalls

/-! ## Lines -/

namespace Text

/-- The text consists of whole lines, each with its line break. -/
def WholeLines (text : Text) : Prop :=
  text = [] ∨ ∃ front, text = front ++ ['\n']

theorem takeLine_append {block : Text} (broken : '\n' ∈ block) (rest : Text) :
    takeLine (block ++ rest) = takeLine block ∧
      dropLine (block ++ rest) = dropLine block ++ rest := by
  induction block with
  | nil => simp at broken
  | cons c block induction =>
    by_cases here : c = '\n'
    · simp [takeLine, dropLine, here]
    · have later : '\n' ∈ block := by
        rcases List.mem_cons.mp broken with equal | member
        · exact absurd equal.symm here
        · exact member
      simp [takeLine, dropLine, here, induction later]

theorem dropLine_append_of_notMem {line : Text} (within : '\n' ∉ line) (rest : Text) :
    dropLine (line ++ rest) = dropLine rest := by
  induction line with
  | nil => rfl
  | cons c line induction =>
    rw [List.mem_cons, not_or] at within
    rw [List.cons_append, dropLine, if_neg (Ne.symm within.1), induction within.2]

theorem dropLine_suffix (text : Text) : dropLine text <:+ text :=
  ⟨takeLine text, takeLine_append_dropLine text⟩

theorem WholeLines.dropLine {text : Text} (whole : WholeLines text) :
    WholeLines (dropLine text) := by
  rcases whole with rfl | ⟨front, rfl⟩
  · exact .inl rfl
  · induction front with
    | nil => exact .inl rfl
    | cons c front induction =>
      rw [List.cons_append, Text.dropLine]
      split
      · exact .inr ⟨front, rfl⟩
      · exact induction

end Text

namespace ReturnStatement

theorem newline_notMem_indent_keyword {indent : Text} (indented : ∀ c ∈ indent, isIndent c = true) :
    '\n' ∉ indent ++ keyword := by
  rw [List.mem_append, not_or]
  exact ⟨fun member => absurd (indented _ member) (by decide), by decide⟩

/-- No statement starts on a line that does not hold the keyword. -/
theorem head?_eq_none {block : Text} (broken : '\n' ∈ block) (absent : ¬ keyword <:+: block)
    (rest : Text) : head? (block ++ rest) = none := by
  rw [Option.eq_none_iff_forall_ne_some]
  rintro ⟨indent, behind⟩ found
  obtain ⟨gap, equal, -, indented, -⟩ := append_of_head? found
  rw [List.append_assoc] at equal
  rcases List.append_eq_append_iff.mp equal with ⟨middle, line_eq, -⟩ | ⟨middle, block_eq, -⟩
  · exact newline_notMem_indent_keyword indented (line_eq ▸ List.mem_append_left _ broken)
  · exact absent ⟨indent, middle, block_eq.symm⟩

theorem parenthesized?_of_head?_eq_none {text : Text} (none : head? text = none) :
    parenthesized? text = Option.none := by
  rw [parenthesized?, none]
  rfl

end ReturnStatement

/-! ## Steps of a pass -/

namespace Segment

variable {form : Pattern ReturnStatement} {text : Text}

theorem ofText_of_none (filled : text ≠ []) (missed : form.start? text = none) :
    ofText form text = .kept (Text.takeLine text) :: ofText form (Text.dropLine text) := by
  cases text with
  | nil => exact absurd rfl filled
  | cons c text =>
    rw [ofText]
    split
    · simp_all
    · rfl

theorem ofText_of_some {rest : Text} {found : ReturnStatement}
    (matched : form.start? text = some (found, rest)) :
    ofText form text =
      .statement found :: .kept (Text.takeLine rest) :: ofText form (Text.dropLine rest) := by
  cases text with
  | nil => exact absurd (form.shorter matched) (Nat.not_lt_zero _)
  | cons c text =>
    rw [ofText]
    split
    · simp_all
    · simp_all

end Segment

namespace Converter

variable (converter : Converter) {form : Pattern ReturnStatement}

@[simp]
theorem convertForm_nil : converter.convertForm form [] = ⟨[], 0⟩ := by
  simp [convertForm, Segment.ofText]

theorem convertForm_of_none {text : Text} (missed : form.start? text = none) :
    converter.convertForm form text =
      ⟨Text.takeLine text ++ (converter.convertForm form (Text.dropLine text)).text,
        (converter.convertForm form (Text.dropLine text)).count⟩ := by
  cases text with
  | nil => simp [Text.takeLine, Text.dropLine]
  | cons c text =>
    simp [convertForm, Segment.ofText_of_none (List.cons_ne_nil c text) missed, Segment.render,
      Segment.isStatement]

theorem convertForm_of_some {text rest : Text} {found : ReturnStatement}
    (matched : form.start? text = some (found, rest)) :
    converter.convertForm form text =
      ⟨Segment.render converter (.statement found) ++
          (Text.takeLine rest ++ (converter.convertForm form (Text.dropLine rest)).text),
        (converter.convertForm form (Text.dropLine rest)).count + 1⟩ := by
  simp [convertForm, Segment.ofText_of_some matched, Segment.render, List.countP_cons,
    Segment.isStatement]

/-- A statement that ends its line is converted apart from the lines behind it. -/
theorem convertForm_statement {text rest : Text} {found : ReturnStatement}
    (matched : form.start? text = some (found, '\n' :: rest)) :
    converter.convertForm form text =
      ⟨Segment.render converter (.statement found) ++
          '\n' :: (converter.convertForm form rest).text,
        (converter.convertForm form rest).count + 1⟩ := by
  rw [converter.convertForm_of_some matched]
  simp [Text.takeLine, Text.dropLine]

/-- Lines without the keyword are kept. -/
theorem convertForm_of_no_keyword
    (headed : ∀ text, ReturnStatement.head? text = none → form.start? text = none) {block : Text}
    (whole : Text.WholeLines block) (absent : ¬ ReturnStatement.keyword <:+: block) (rest : Text) :
    converter.convertForm form (block ++ rest) =
      ⟨block ++ (converter.convertForm form rest).text,
        (converter.convertForm form rest).count⟩ := by
  rcases whole with rfl | ⟨front, equal⟩
  · rfl
  · have broken : '\n' ∈ block := by simp [equal]
    have missed := headed _ (ReturnStatement.head?_eq_none broken absent rest)
    obtain ⟨taken, dropped⟩ := Text.takeLine_append broken rest
    have shorter : (Text.dropLine block).length < block.length :=
      Text.length_dropLine_lt (List.ne_nil_of_mem broken)
    have whole : Text.WholeLines block := .inr ⟨front, equal⟩
    have later := convertForm_of_no_keyword headed whole.dropLine
      (fun found => absent (found.trans (Text.dropLine_suffix block).isInfix)) rest
    rw [converter.convertForm_of_none missed, taken, dropped, later, ← List.append_assoc,
      Text.takeLine_append_dropLine]
termination_by block.length

/-- A block is kept if nothing starts on its first line and its other lines do not hold the
keyword. -/
theorem convertForm_kept
    (headed : ∀ text, ReturnStatement.head? text = none → form.start? text = none)
    {line tail rest : Text} (within : '\n' ∉ line) (ends : ∃ front, tail = front ++ ['\n'])
    (missed : form.start? (line ++ tail ++ rest) = none)
    (absent : ¬ ReturnStatement.keyword <:+: tail) :
    converter.convertForm form (line ++ tail ++ rest) =
      ⟨line ++ tail ++ (converter.convertForm form rest).text,
        (converter.convertForm form rest).count⟩ := by
  obtain ⟨front, rfl⟩ := ends
  have broken : '\n' ∈ line ++ (front ++ ['\n']) := by simp
  have whole : Text.WholeLines (front ++ ['\n']) := .inr ⟨front, rfl⟩
  obtain ⟨taken, dropped⟩ := Text.takeLine_append broken rest
  have later := converter.convertForm_of_no_keyword headed whole.dropLine
    (fun found => absent (found.trans (Text.dropLine_suffix _).isInfix)) rest
  rw [converter.convertForm_of_none missed, taken, dropped,
    Text.dropLine_append_of_notMem within, later, ← List.append_assoc,
    ← Text.dropLine_append_of_notMem within, Text.takeLine_append_dropLine]

end Converter

end JsxCalls
