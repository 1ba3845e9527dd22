import JsxCalls.Proofs.MaskedQuoting
import JsxCalls.Proofs.Program
import JsxCalls.Proofs.Settling
import JsxCalls.Proofs.TwoPasses

/-!
# The literal of the children

The children of an element are quoted while their expressions are masked, and the expressions come
back into the literal afterwards. So the third argument of the call is the literal that the children
themselves give only where no expression among them holds a bare quote.
-/

namespace JsxCalls

open Placeholder

/-! ## Calls with children -/

/-- What stands in a call before its children argument. -/
def ElementCall.beforeChildren (call : ElementCall) (indent unit : Text) : Text :=
  call.receiver ++ '.' :: ("createElement".toList ++ '(' :: '\n' :: (indent ++ (unit ++ '\'' ::
    (call.tag ++ '\'' :: ',' :: '\n' :: (indent ++ (unit ++ (call.props ++ ',' :: '\n' ::
      (indent ++ unit))))))))

/-- What stands in a call behind its children argument. -/
def ElementCall.behindChildren (indent : Text) : Text :=
  '\n' :: (indent ++ [')'])

theorem ElementCall.render_children {call : ElementCall} {children : Text}
    (given : call.children = some children) (indent unit : Text) :
    call.render indent unit =
      call.beforeChildren indent unit ++ (children ++ behindChildren indent) := by
  rw [call.render_eq, behindDot, given, beforeChildren, behindChildren]
  simp

/-- A statement that returns an element with children and without attributes. -/
def returnOf (indent tag children : Text) : Text :=
  indent ++ "return <".toList ++ tag ++ ">".toList ++ children ++ "</".toList ++ tag ++ ">;".toList

/-- The call for an element without attributes that has the given children argument. -/
def CallStyle.bareCall (style : CallStyle) (tag argument : Text) : ElementCall where
  receiver := style.receiver
  tag := tag
  props := "null".toList
  children := some argument

/-- The statement that returns a call with the given children argument, with expressions restored in
what stands before and behind the argument. -/
def CallStyle.returned (style : CallStyle) (table : ExpressionTable) (indent tag argument : Text) :
    Text :=
  indent ++ (ReturnStatement.keyword ++ ' ' ::
    ((table.restore ((style.bareCall tag []).beforeChildren (indent ++ style.indentUnit)
        style.indentUnit) ++
      (argument ++ table.restore (ElementCall.behindChildren (indent ++ style.indentUnit)))) ++
        [';']))

namespace ReturnStatement

/-- A single semicolon behind a tag ends no parenthesized statement. -/
theorem silent_parenthesized_of_tag {content : Text} (absent : ';' ∉ content) :
    Silent parenthesized (content ++ ['>', ';']) := by
  intro before after equal _
  rw [Option.eq_none_iff_forall_ne_some]
  rintro ⟨found, rest⟩ matched
  obtain ⟨gap, opening, last, after_eq, -⟩ := exists_of_parenthesized? matched
  obtain ⟨front, cut⟩ : ∃ front, content ++ ['>', ';'] = front ++ ')' :: ';' :: rest :=
    ⟨before ++ (found.indent ++ (keyword ++ (gap ++ ('(' :: opening ++ (found.markup ++ last))))),
      by rw [equal, after_eq]; simp⟩
  rcases List.eq_nil_or_concat rest with rfl | ⟨others, final, rfl⟩
  · exact absurd (List.append_inj' cut rfl).2 (by decide)
  · have ends : (content ++ ['>']) ++ [';'] = (front ++ ')' :: ';' :: others) ++ [final] := by
      simpa using cut
    have inside : ';' ∈ content ++ ['>'] := by
      rw [(List.append_inj' ends rfl).1]
      simp
    rcases List.mem_append.mp inside with inContent | inTag
    · exact absent inContent
    · exact absurd inTag (by decide)

end ReturnStatement

section ReturnOf

variable {style : CallStyle} {indent tag children : Text}

theorem mask_returnOf (indented : ∀ c ∈ indent, isIndent c = true)
    (wordly : ∀ c ∈ tag, isWord c = true) :
    mask (returnOf indent tag children) =
      ⟨indent ++ (ReturnStatement.keyword ++ ' ' ::
        (Element.source ⟨tag, [], some (mask children).text⟩ ++ [';'])),
        (mask children).table⟩ := by
  have inTag : ∀ brace, isWord brace = false → brace ∉ tag := fun brace other member => by
    simp [wordly brace member] at other
  have inIndent : ∀ brace, isIndent brace = false → brace ∉ indent := fun brace other member => by
    simp [indented brace member] at other
  have front_plain : '{' ∉ indent ++ (ReturnStatement.keyword ++ ' ' :: '<' :: (tag ++ ['>'])) := by
    have inKeyword : '{' ∉ ReturnStatement.keyword := by decide
    simp [inKeyword, inTag '{' (by decide), inIndent '{' (by decide)]
  have opening : '{' ∉ Element.closingTag tag ++ [';'] := by
    simp [Element.closingTag, inTag '{' (by decide)]
  have closing : '}' ∉ Element.closingTag tag ++ [';'] := by
    simp [Element.closingTag, inTag '}' (by decide)]
  have text : returnOf indent tag children =
      (indent ++ (ReturnStatement.keyword ++ ' ' :: '<' :: (tag ++ ['>']))) ++
        (children ++ (Element.closingTag tag ++ [';'])) := by
    have opened : "return <".toList = ReturnStatement.keyword ++ [' ', '<'] := by decide
    rw [returnOf, opened]
    simp [Element.closingTag]
  rw [text, mask_between front_plain opening closing]
  simp [Element.source, Element.ending]

end ReturnOf

/-- An element on a line of its own is converted by the second pass. -/
theorem Converter.convertReturns_element (converter : Converter) {indent : Text} {element : Element}
    (indented : ∀ c ∈ indent, isIndent c = true) (filled : element.tag ≠ [])
    (absent : ';' ∉ element.source) :
    (converter.convertReturns
        (indent ++ (ReturnStatement.keyword ++ ' ' :: (element.source ++ [';'])))).text =
      Segment.render converter (.statement ⟨indent, element.source⟩) := by
  have silent : Silent ReturnStatement.parenthesized
      (indent ++ (ReturnStatement.keyword ++ ' ' :: (element.source ++ [';']))) := by
    obtain ⟨content, source_eq, -⟩ := element.exists_source_eq
    have outside : ';' ∉ indent ++ (ReturnStatement.keyword ++ ' ' :: '<' :: content) := by
      have inIndent : ';' ∉ indent := fun member => absurd (indented _ member) (by decide)
      have inKeyword : ';' ∉ ReturnStatement.keyword := by decide
      rw [source_eq] at absent
      simp only [List.mem_cons, List.mem_append, not_or] at absent
      simp [inKeyword, inIndent, absent]
    have ends := ReturnStatement.silent_parenthesized_of_tag outside
    rw [source_eq]
    simpa using ends
  have matched : ReturnStatement.inline.start?
      (indent ++ (ReturnStatement.keyword ++ ' ' :: (element.source ++ [';']))) =
        some (⟨indent, element.source⟩, []) :=
    ReturnStatement.inline?_source indented filled absent
  rw [converter.convertReturns_of_silent silent, converter.convertForm_of_some matched]
  simp [Text.takeLine, Text.dropLine]

/-- Children whose braces delimit expressions, without other signs of markup outside of them. -/
structure OrdinaryChildren (children : Text) : Prop where
  visible : Text.trim children ≠ []
  unmarked : ¬ mark <:+: children
  plain : ∀ c, .char c ∈ Expression.pattern.pieces children → isSign c = false

namespace OrdinaryChildren

variable {children : Text} (ordinary : OrdinaryChildren children)
include ordinary

theorem isSign_of_mem_mask {c : Char} (member : c ∈ (mask children).text) : isSign c = false :=
  (mem_maskFrom_cases member).elim (ordinary.plain c) isSign_eq_false_of_isWord

theorem semicolon_notMem_source {tag : Text} (wordly : ∀ c ∈ tag, isWord c = true) :
    ';' ∉ Element.source ⟨tag, [], some (mask children).text⟩ := by
  have inTag : ';' ∉ tag := fun member => absurd (wordly _ member) (by decide)
  have inChildren : ';' ∉ (mask children).text := fun member =>
    absurd (ordinary.isSign_of_mem_mask member) (by decide)
  simp [Element.source, Element.ending, Element.closingTag, inTag, inChildren]

/-- The children argument of the masked children, restored. -/
theorem restore_argument : (mask children).table.restore
    (Text.escapeQuotes false (Text.trim (mask children).text)) =
      written (escapePieces false (Expression.pattern.pieces (Text.trim children))) := by
  have unmarked : ¬ mark <:+: Text.trim children := fun found =>
    ordinary.unmarked (found.trans (Text.trim_infix children))
  have restored := restore_escapeQuotes_mask unmarked
  rwa [mask_trim ordinary.visible] at restored

theorem call_eq (style : CallStyle) (table : ExpressionTable) (tag : Text) :
    Converter.call ⟨style, some table⟩ ⟨tag, [], some (mask children).text⟩ =
      style.bareCall tag (Text.singleQuoted (Text.trim (mask children).text)) := by
  have visible := text_mask_ne_nil ordinary.visible
  rw [mask_trim ordinary.visible] at visible
  have argued : childrenArgument (mask children).text =
      some (Text.singleQuoted (Text.trim (mask children).text)) :=
    childrenArgument_eq_some_iff.mpr ⟨visible, rfl⟩
  simp [Converter.call, CallStyle.bareCall, argued, propsOfList, Text.trim, Text.trimEnd,
    Text.dropEndWhile]

theorem output_returnOf (style : CallStyle) {indent tag : Text}
    (indented : ∀ c ∈ indent, isIndent c = true) (filled : tag ≠ [])
    (wordly : ∀ c ∈ tag, isWord c = true) :
    (lower style (returnOf indent tag children)).output =
      indent ++ (ReturnStatement.keyword ++ ' ' :: ((mask children).table.restore
        ((style.bareCall tag (Text.singleQuoted (Text.trim (mask children).text))).render
          (indent ++ style.indentUnit) style.indentUnit) ++ [';'])) := by
  have readable : Element.Readable ⟨tag, [], some (mask children).text⟩ :=
    ⟨filled, wordly, by simp [Text.StopsRun], by simp⟩
  simp only [lower, mask_returnOf indented wordly]
  rw [Converter.convertReturns_element _ indented filled (ordinary.semicolon_notMem_source wordly),
    ← List.append_nil (Segment.render _ _), ReturnStatement.restore_render _ style indented,
    Element.trim_source, Converter.convert_source _ readable, ordinary.call_eq,
    ExpressionTable.restore_nil]

end OrdinaryChildren

theorem ExpressionTable.restore_children (table : ExpressionTable) {call : ElementCall}
    {text : Text}
    (given : call.children = some (Text.singleQuoted text)) (indent unit : Text) :
    table.restore (call.render indent unit) =
      table.restore (call.beforeChildren indent unit) ++
        (('\'' :: (table.restore (Text.escapeQuotes false text) ++ ['\''])) ++
          table.restore (ElementCall.behindChildren indent)) := by
  have parts : call.render indent unit = call.beforeChildren indent unit ++ '\'' ::
      (Text.escapeQuotes false text ++ '\'' :: ElementCall.behindChildren indent) := by
    rw [ElementCall.render_children given, Text.singleQuoted]
    simp
  rw [parts, table.restore_append_cons (by decide), table.restore_append_cons (by decide)]
  simp

/-- A call without the mark is not touched when expressions are restored. -/
theorem CallStyle.Plain.not_mark_infix_bareCall {style : CallStyle} (plain : style.Plain)
    {indent tag : Text} (indented : ∀ c ∈ indent, isIndent c = true) (unmarked : ¬ mark <:+: tag) :
    ¬ mark <:+: (style.bareCall tag []).render (indent ++ style.indentUnit) style.indentUnit := by
  have unit_signs : ∀ c ∈ style.indentUnit, c.isAlpha = false := fun c member =>
    isAlpha_of_isSpace (plain.unit c member)
  have indent_signs : ∀ c ∈ indent ++ style.indentUnit, c.isAlpha = false := fun c member =>
    (List.mem_append.mp member).elim
      (fun inIndent => isAlpha_of_isSpace (isSpace_of_isIndent (indented c inIndent)))
      (unit_signs c)
  rw [ElementCall.render_eq, foreign_mark.append_cons_iff (by decide)]
  rintro (inReceiver | inside)
  · exact plain.unmarked inReceiver
  rcases foreign_mark.infix_of_behindDot indent_signs unit_signs inside with
    inTag | inProps | ⟨argument, given, inArgument⟩
  · exact unmarked inTag
  · exact foreign_mark.not_infix_callWord (show "null".toList ∈ callWords by decide) inProps
  · obtain rfl : [] = argument := Option.some.inj given
    exact mark_ne_nil (List.infix_nil.mp inArgument)

/-- In a style and with a tag that hold no mark, the statement is written as it stands. -/
theorem CallStyle.Plain.returned_eq {style : CallStyle} (plain : style.Plain)
    (table : ExpressionTable) {indent tag : Text} (indented : ∀ c ∈ indent, isIndent c = true)
    (unmarked : ¬ mark <:+: tag) (argument : Text) :
    style.returned table indent tag argument =
      indent ++ (ReturnStatement.keyword ++ ' ' ::
        ((style.bareCall tag argument).render (indent ++ style.indentUnit) style.indentUnit ++
          [';'])) := by
  have absent := plain.not_mark_infix_bareCall indented unmarked
  rw [ElementCall.render_children (rfl : (style.bareCall tag []).children = some []),
    List.nil_append] at absent
  have before := restoreFrom_eq_self
    (fun found => absent (List.infix_append_of_infix_left found)) 0 table.entries
  have behind := restoreFrom_eq_self
    (fun found => absent (List.infix_append_of_infix_right found)) 0 table.entries
  rw [CallStyle.returned, ExpressionTable.restore, before, ExpressionTable.restore, behind,
    ElementCall.render_children rfl]
  rfl

namespace OrdinaryChildren

variable {children : Text} (ordinary : OrdinaryChildren children)
include ordinary

theorem output_eq_returned (style : CallStyle) {indent tag : Text}
    (indented : ∀ c ∈ indent, isIndent c = true) (filled : tag ≠ [])
    (wordly : ∀ c ∈ tag, isWord c = true) :
    (lower style (returnOf indent tag children)).output =
      style.returned (mask children).table indent tag (quotedOutside (Text.trim children)) := by
  rw [ordinary.output_returnOf style indented filled wordly, ExpressionTable.restore_children _ rfl,
    ordinary.restore_argument]
  rfl

theorem childrenArgument_eq_iff :
    childrenArgument children = some (quotedOutside (Text.trim children)) ↔
      ∀ expression ∈ Expression.pattern.items children, Text.QuotesEscaped expression.body := by
  have items : Expression.pattern.items (Text.trim children) = Expression.pattern.items children :=
    congrArg (ExpressionTable.entries ∘ Masked.table) (mask_trim ordinary.visible)
  rw [childrenArgument_eq_some_iff, and_iff_right ordinary.visible, quotedOutside_eq_iff, items]

end OrdinaryChildren

/-- The third argument of the call is the literal of the trimmed children in which only the quotes
outside of expressions are escaped. This is the argument that the children give without masking
exactly if each quote in each expression is escaped by itself. -/
theorem lower_returnOf (style : CallStyle) {indent tag children : Text}
    (indented : ∀ c ∈ indent, isIndent c = true) (filled : tag ≠ [])
    (wordly : ∀ c ∈ tag, isWord c = true) (ordinary : OrdinaryChildren children) :
    (lower style (returnOf indent tag children)).output =
        style.returned (mask children).table indent tag (quotedOutside (Text.trim children)) ∧
      (style.Plain → ¬ mark <:+: tag → (lower style (returnOf indent tag children)).output =
        indent ++ (ReturnStatement.keyword ++ ' ' ::
          ((style.bareCall tag (quotedOutside (Text.trim children))).render
            (indent ++ style.indentUnit) style.indentUnit ++ [';']))) ∧
      (childrenArgument children = some (quotedOutside (Text.trim children)) ↔
        ∀ expression ∈ Expression.pattern.items children, Text.QuotesEscaped expression.body) := by
  have output := ordinary.output_eq_returned style indented filled wordly
  refine ⟨output, fun plain unmarked => ?_, ordinary.childrenArgument_eq_iff⟩
  rw [output, plain.returned_eq _ indented unmarked]

/-- Children with bare quotes outside of the expressions, escaped ones inside, and a backslash right
before an expression. -/
def quotingChildren : Text :=
  " it's \x7bf(\\'a\\') > 0\x7d\\\x7bb\x7d'\n".toList

theorem ordinaryChildren_of_mask {children : Text} (visible : Text.trim children ≠ [])
    (unmarked : Text.holds mark children = false)
    (plain : ((mask children).text.all fun c => !isSign c) = true) : OrdinaryChildren children where
  visible := visible
  unmarked := Text.not_infix_of_holds_eq_false unmarked
  plain c member := by simpa using List.all_eq_true.mp plain c (mem_maskFrom_of_char member 0)

theorem lower_returnOf_quotingChildren :
    OrdinaryChildren quotingChildren ∧
      (∀ expression ∈ Expression.pattern.items quotingChildren,
        Text.QuotesEscaped expression.body) ∧
      (lower {} (returnOf "\t".toList "b".toList quotingChildren)).output =
        "\treturn React.createElement(\n\t    'b',\n\t    null,\n".toList ++
          "\t    'it\\'s \x7bf(\\'a\\') > 0\x7d\\\x7bb\x7d\\''\n\t  );".toList := by
  have ordinary : OrdinaryChildren quotingChildren :=
    ordinaryChildren_of_mask (by decide) (by decide +kernel) (by decide +kernel)
  have escaped : ∀ expression ∈ Expression.pattern.items quotingChildren,
      Text.QuotesEscaped expression.body := by decide +kernel
  have indented : ∀ c ∈ "\t".toList, isIndent c = true := List.all_eq_true.mp (by decide)
  have wordly : ∀ c ∈ "b".toList, isWord c = true := List.all_eq_true.mp (by decide)
  obtain ⟨-, written, same⟩ := lower_returnOf {} indented (by decide) wordly ordinary
  obtain ⟨-, argument⟩ := childrenArgument_eq_some_iff.mp (same.mpr escaped)
  refine ⟨ordinary, escaped, ?_⟩
  rw [written CallStyle.plain_default (Text.not_infix_of_holds_eq_false (by decide)), argument]
  decide

/-- A quote in an expression is not escaped in the literal, though it is when the children are not
masked. -/
theorem lower_bareQuote :
    OrdinaryChildren "\x7bx'y\x7d".toList ∧
      childrenArgument "\x7bx'y\x7d".toList = some "'\x7bx\\'y\x7d'".toList ∧
      (lower {} (returnOf [] "b".toList "\x7bx'y\x7d".toList)).output =
        "return React.createElement(\n    'b',\n    null,\n    '\x7bx'y\x7d'\n  );".toList := by
  refine ⟨?_, by decide, by decide +kernel⟩
  exact ordinaryChildren_of_mask (by decide) (by decide) (by decide +kernel)

end JsxCalls
