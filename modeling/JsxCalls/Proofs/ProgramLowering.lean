import JsxCalls.Lowering
import JsxCalls.Proofs.MarkupOpening
import JsxCalls.Proofs.Program

/-!
# Lowering programs

A program is lowered item by item. The first pass converts the parenthesized statements and keeps
the others with their placeholders, the second converts these; neither looks at what was converted
before. The table has the expressions of all statements in order, so each statement finds its own.
-/

namespace JsxCalls

open Placeholder ReturnStatement

/-! ## One statement -/

namespace Statement

variable (statement : Statement)

theorem isSign_eq_false_of_mem_maskedList {index : Nat} {c : Char}
    (member : c ∈ statement.maskedList index) : isSign c = false := by
  rcases List.mem_append.mp member with inList | inGap
  · exact SpacedAttribute.isSign_eq_false_of_mem_listText inList
  · exact isSign_eq_false_of_isSpace (statement.spaces c inGap)

theorem stopsRun_maskedList (index : Nat) :
    Text.StopsRun isWord (statement.maskedList index) := by
  intro c first
  apply isWord_of_isSpace
  cases equal : statement.attributes with
  | nil =>
    have gap : statement.maskedList index = statement.gap := by
      rw [Returned.maskedList, equal]
      rfl
    exact statement.spaces c (List.mem_of_mem_head? (gap ▸ first))
  | cons entry entries =>
    obtain ⟨d, rest, gap⟩ := List.exists_cons_of_ne_nil entry.filled
    have same : d = c := by
      rw [Returned.maskedList, equal, SpacedAttribute.maskList, WrittenAttribute.listText,
        List.flatMap_cons, SpacedAttribute.mask, gap] at first
      exact Option.some.inj first
    exact same ▸ entry.spaces d (gap ▸ List.mem_cons_self)

theorem readable (index : Nat) :
    (statement.element (statement.maskedList index)).Readable where
  filled := statement.filled
  wordly := statement.wordly
  stops := statement.stopsRun_maskedList index
  inside member := absurd (statement.isSign_eq_false_of_mem_maskedList member) (by decide)

theorem semicolon_notMem (index : Nat) :
    ';' ∉ (statement.element (statement.maskedList index)).source := by
  have tag : ';' ∉ statement.tag := fun member =>
    absurd (statement.wordly _ member) (by decide)
  have list : ';' ∉ statement.maskedList index := fun member =>
    absurd (statement.isSign_eq_false_of_mem_maskedList member) (by decide)
  have ending : ';' ∉ Element.ending statement.tag statement.layout.content := by
    cases equal : statement.layout.content with
    | none => simp [Element.ending]
    | some content =>
      have content : ';' ∉ content := fun member =>
        absurd (statement.plain.content equal _ member) (by decide)
      simp [Element.ending, Element.closingTag, content, tag]
  simp [Element.source, Returned.element, tag, list, ending]

variable {table : ExpressionTable} {prior later : List Expression}

/-- The statement's markup becomes the call, with its expressions found in the table. -/
theorem render_segment (style : CallStyle)
    (known : table.entries =
      prior ++ (SpacedAttribute.embeddedIn statement.attributes ++ later)) :
    Segment.render ⟨style, some table⟩
        (.statement ⟨statement.indent,
          (statement.element (statement.maskedList prior.length)).source⟩) ++ ['\n'] =
      (Item.statement statement).lowered style := by
  have call : Converter.call ⟨style, some table⟩
      (statement.element (statement.maskedList prior.length)) = statement.call style := by
    have parsed := SpacedAttribute.parseAttributes_maskList statement.spaces known
    simp only [Converter.call, Statement.call, Returned.element, propsOfList_eq,
      Returned.maskedList, parsed]
  simp only [Segment.render, Element.trim_source,
    Converter.convert_source _ (statement.readable prior.length), call]
  simp [Item.lowered]

end Statement

/-! ## Recognising a statement -/

namespace Statement

variable (statement : Statement)

theorem parenthesized_start? (closed : statement.layout.isParenthesized = true) (index : Nat)
    (rest : Text) :
    parenthesized.start? (statement.indent ++ (keyword ++ ' ' ::
        (statement.text (statement.maskedList index) ++ rest))) =
      some (⟨statement.indent, (statement.element (statement.maskedList index)).source⟩, rest) := by
  obtain ⟨before, content, after, layout⟩ := Layout.exists_of_isParenthesized closed
  obtain ⟨opens, signs, closes⟩ : (Layout.parenthesized before content after).Plain :=
    layout ▸ statement.plain
  have element : statement.element (statement.maskedList index) =
      ⟨statement.tag, statement.maskedList index, some content⟩ := by
    rw [Returned.element, layout]
    rfl
  have text : statement.text (statement.maskedList index) ++ rest = '(' :: (before ++
      (Element.source ⟨statement.tag, statement.maskedList index, some content⟩ ++
        (after ++ ')' :: ';' :: rest))) := by
    simp [Returned.text, layout, Layout.opening, Layout.closing, element]
  have readable := statement.readable index
  have plain : '<' ∉ content := fun member => absurd (signs _ member) (by decide)
  rw [element] at readable ⊢
  rw [text]
  exact parenthesized?_source statement.indented readable plain opens closes

theorem parenthesized_start?_eq_none (unclosed : statement.layout.isParenthesized = false)
    (list rest : Text) :
    parenthesized.start? (statement.indent ++ (keyword ++ ' ' :: (statement.text list ++ rest))) =
      none := by
  have text : statement.text list ++ rest = '<' :: (statement.tag ++ (list ++
      (Element.ending statement.tag statement.layout.content ++
        (statement.layout.closing ++ rest)))) := by
    simp [Returned.text, Layout.opening_eq_nil unclosed, Returned.element, Element.source]
  have stops : Text.StopsRun isSpace (statement.text list ++ rest) := by
    intro c first
    rw [text] at first
    obtain rfl : '<' = c := Option.some.inj first
    decide
  have missed : Text.after? ['('] (statement.text list ++ rest) = none := by
    rw [text]
    rfl
  change parenthesized? _ = none
  simp [parenthesized?, head?_append statement.indented stops, missed]

theorem inline_start? (unclosed : statement.layout.isParenthesized = false) (index : Nat)
    (rest : Text) :
    inline.start? (statement.indent ++ (keyword ++ ' ' ::
        (statement.text (statement.maskedList index) ++ rest))) =
      some (⟨statement.indent, (statement.element (statement.maskedList index)).source⟩, rest) := by
  have text : statement.text (statement.maskedList index) ++ rest =
      (statement.element (statement.maskedList index)).source ++ ';' :: rest := by
    simp [Returned.text, Layout.opening_eq_nil unclosed]
  rw [text]
  exact inline?_source statement.indented statement.filled (statement.semicolon_notMem index)

end Statement

/-! ## Words in a lowered statement -/

theorem infix_of_infix_entry {word : Text} (foreign : Foreign word) {entry : SpacedAttribute}
    (found : word <:+: (entry.written.resolve none).entry) : word <:+: entry.source := by
  have inSource : word <:+: entry.written.name ∨ word <:+: entry.written.value.source := by
    rcases foreign.infix_of_entry found with inName | inValue
    · exact .inl inName
    · have constant : ¬ word <:+: "true".toList := foreign.not_infix_callWord (by decide)
      have quoted : ∀ (quote : Char) (text : Text), word <:+: Text.singleQuoted text →
          word <:+: '=' :: quote :: text ++ [quote] := by
        intro quote text found
        have inside := foreign.infix_of_singleQuoted found
        exact List.infix_append_of_infix_left (List.infix_cons (List.infix_cons inside))
      refine .inr ?_
      change word <:+: (entry.written.value.value none).render at inValue
      cases equal : entry.written.value with
      | braced body =>
        rw [equal, WrittenValue.value, AttributeValue.ofExpression] at inValue
        split at inValue
        · exact absurd inValue constant
        · exact List.infix_append_of_infix_left (List.infix_cons (List.infix_cons inValue))
      | doubleQuoted text => exact quoted '"' text (by rwa [equal] at inValue)
      | singleQuoted text => exact quoted '\'' text (by rwa [equal] at inValue)
      | masked token => exact (equal ▸ entry.plain : (WrittenValue.masked token).Plain).elim
      | absent => exact absurd (by rwa [equal] at inValue) constant
  apply List.infix_append_of_infix_right
  rcases inSource with inName | inValue
  · exact List.infix_append_of_infix_left inName
  · exact List.infix_append_of_infix_right inValue

namespace Statement

variable (statement : Statement) {word : Text} (foreign : Foreign word) {style : CallStyle}

theorem infix_text (list : Text) : statement.tag <:+: statement.text list ∧
    list <:+: statement.text list ∧
    ∀ content ∈ statement.layout.content, content <:+: statement.text list := by
  have text : statement.text list = (statement.layout.opening ++ ['<']) ++
      (statement.tag ++ (list ++ (Element.ending statement.tag statement.layout.content ++
        statement.layout.closing))) := by
    simp [Returned.text, Returned.element, Element.source]
  rw [text]
  refine ⟨List.infix_append_of_infix_right (List.prefix_append _ _).isInfix,
    List.infix_append_of_infix_right (List.infix_append_of_infix_right
      (List.prefix_append _ _).isInfix), ?_⟩
  intro content member
  rw [Option.mem_def.mp member]
  refine List.infix_append_of_infix_right (List.infix_append_of_infix_right
    (List.infix_append_of_infix_right (List.infix_append_of_infix_left ?_)))
  exact List.infix_cons (List.prefix_append _ _).isInfix

include foreign in
/-- A word stands behind the receiver of the call only if it stands in the markup. -/
theorem infix_of_infix_behindDot (unit : ∀ c ∈ style.indentUnit, isSpace c = true)
    (found : word <:+: (statement.call style).behindDot
      (statement.indent ++ style.indentUnit) style.indentUnit) :
    word <:+: statement.text statement.list := by
  have unit_signs : ∀ c ∈ style.indentUnit, c.isAlpha = false := fun c member =>
    isAlpha_of_isSpace (unit c member)
  have signs : ∀ c ∈ statement.indent ++ style.indentUnit, c.isAlpha = false := by
    intro c member
    rcases List.mem_append.mp member with inIndent | inUnit
    · exact isAlpha_of_isSpace (isSpace_of_isIndent (statement.indented c inIndent))
    · exact unit_signs c inUnit
  obtain ⟨inTag, inList, inContent⟩ := statement.infix_text statement.list
  rcases foreign.infix_of_behindDot signs unit_signs found with
    found | found | ⟨children, member, found⟩
  · exact found.trans inTag
  · obtain ⟨attr, member, found⟩ := foreign.exists_of_infix_renderProps found
    obtain ⟨entry, listed, rfl⟩ := List.mem_map.mp member
    have source : entry.source <:+: statement.attributes.flatMap SpacedAttribute.source := by
      obtain ⟨front, back, equal⟩ := List.append_of_mem listed
      exact ⟨front.flatMap SpacedAttribute.source, back.flatMap SpacedAttribute.source,
        by simp [equal]⟩
    have inside := (infix_of_infix_entry foreign found).trans source
    exact (List.infix_append_of_infix_left inside).trans inList
  · obtain ⟨content, some, argument⟩ := Option.bind_eq_some_iff.mp member
    rw [childrenArgument] at argument
    split at argument
    · simp at argument
    · obtain rfl := Option.some.inj argument
      have inside := (foreign.infix_of_singleQuoted found).trans (Text.trim_infix content)
      exact inside.trans (inContent content some)

end Statement

/-! ## The two passes -/

namespace Item

/-- The statement is converted by the first pass. -/
def isParenthesized : Item → Bool
  | inert .. => false
  | statement found => found.layout.isParenthesized

/-- The statement is converted by the second pass. -/
def isInline (item : Item) : Bool :=
  item.isStatement && !item.isParenthesized

/-- The item after the first pass, when the next expression has the given number. -/
def between (style : CallStyle) (index : Nat) : Item → Text
  | inert text _ => text ++ ['\n']
  | statement found =>
    if found.layout.isParenthesized then (statement found).lowered style
    else found.indent ++ (keyword ++ ' ' :: (found.text (found.maskedList index) ++ ['\n']))

theorem maskFrom_pieces (index : Nat) (item : Item) : maskFrom index item.pieces =
    match item with
    | inert text _ => text ++ ['\n']
    | statement found =>
      found.indent ++ (keyword ++ ' ' :: (found.text (found.maskedList index) ++ ['\n'])) := by
  cases item with
  | inert text absent => exact maskFrom_map_char _ _
  | statement found =>
    rw [pieces, maskFrom_append, maskFrom_map_char, expressions_map_char, maskFrom_append,
      Returned.maskFrom_pieces]
    simp [maskFrom]

theorem wholeLines_inert (text : Text) : Text.WholeLines (text ++ ['\n']) :=
  .inr ⟨text, rfl⟩

theorem not_keyword_infix_inert {text : Text} (absent : ¬ keyword <:+: text) :
    ¬ keyword <:+: text ++ ['\n'] := by
  rw [foreign_keyword.append_cons_iff (by decide)]
  rintro (found | found)
  · exact absent found
  · exact foreign_keyword.filled (List.infix_nil.mp found)

variable {style : CallStyle} {table : ExpressionTable} {prior later : List Expression}

theorem newline_notMem_line (found : Statement) {behind : Text} (within : '\n' ∉ behind) :
    '\n' ∉ found.indent ++ (keyword ++ ' ' :: behind) := by
  have indent : '\n' ∉ found.indent := fun member => absurd (found.indented _ member) (by decide)
  have word : '\n' ∉ keyword := by decide
  simp [indent, word, within]

theorem convertForm_parenthesized (item : Item)
    (known : table.entries = prior ++ (item.embedded ++ later)) (rest : Text) :
    Converter.convertForm ⟨style, some table⟩ parenthesized
        (maskFrom prior.length item.pieces ++ rest) =
      ⟨item.between style prior.length ++
          (Converter.convertForm ⟨style, some table⟩ parenthesized rest).text,
        (Converter.convertForm ⟨style, some table⟩ parenthesized rest).count +
          item.isParenthesized.toNat⟩ := by
  have headed : ∀ text, head? text = none → parenthesized.start? text = none := fun _ none =>
    parenthesized?_of_head?_eq_none none
  rw [maskFrom_pieces]
  cases item with
  | inert text absent =>
    exact Converter.convertForm_of_no_keyword _ headed (wholeLines_inert text)
      (not_keyword_infix_inert absent) rest
  | statement found =>
    cases closed : found.layout.isParenthesized with
    | true =>
      have step := Converter.convertForm_statement ⟨style, some table⟩
        (found.parenthesized_start? closed prior.length ('\n' :: rest))
      have call := found.render_segment style known
      rw [between, if_pos closed, isParenthesized, closed, ← call]
      simpa using step
    | false =>
      -- The first line has the keyword, but no parenthesis behind it.
      have within := newline_notMem_line found List.not_mem_nil
      have absent : ¬ keyword <:+: found.text (found.maskedList prior.length) ++ ['\n'] := by
        apply not_keyword_infix_inert
        rw [← Returned.maskFrom_pieces]
        intro inside
        have small : ∀ c ∈ keyword, c.isLower = true := List.all_eq_true.mp (by decide)
        have written := infix_written_of_infix_maskFrom foreign_keyword.filled small inside
        exact found.single (Returned.written_pieces _ ▸ written)
      have missed := found.parenthesized_start?_eq_none closed (found.maskedList prior.length)
        ('\n' :: rest)
      have step := Converter.convertForm_kept ⟨style, some table⟩ headed within ⟨_, rfl⟩
        (by simpa using missed) absent
      rw [between, if_neg (by simp [closed]), isParenthesized, closed]
      simpa using step

theorem exists_lowered_eq (style : CallStyle) (item : Item) :
    ∃ line, item.lowered style = line ++ ['\n'] := by
  cases item with
  | inert text absent => exact ⟨text, rfl⟩
  | statement found =>
    refine ⟨found.indent ++ (keyword ++ ' ' :: ((found.call style).render
      (found.indent ++ style.indentUnit) style.indentUnit ++ [';'])), ?_⟩
    simp [lowered]

/-- No markup is returned in a lowered item. -/
theorem closed_lowered (clear : style.Clear) (item : Item) : Closed (item.lowered style) := by
  cases item with
  | inert text absent => exact closed_of_no_keyword absent
  | statement found =>
    have indent : '<' ∉ found.indent := fun member => absurd (found.indented _ member) (by decide)
    have word : '<' ∉ keyword := by decide
    have bracketless : '<' ∉ found.indent ++ (keyword ++ ' ' :: style.receiver) := by
      simp [indent, word, clear.bracketless]
    have absent : ¬ keyword <:+: (found.call style).behindDot
        (found.indent ++ style.indentUnit) style.indentUnit ++ [';'] := by
      rw [foreign_keyword.append_cons_iff (by decide)]
      rintro (inside | nothing)
      · exact found.single (found.infix_of_infix_behindDot foreign_keyword clear.unit inside)
      · exact foreign_keyword.filled (List.infix_nil.mp nothing)
    have text : (statement found).lowered style =
        (found.indent ++ (keyword ++ ' ' :: style.receiver)) ++ '.' ::
          (((found.call style).behindDot (found.indent ++ style.indentUnit) style.indentUnit ++
            [';']) ++ ['\n']) := by
      simp [lowered, ElementCall.render_eq, Statement.call]
    rw [text]
    exact closed_of_dot bracketless absent

theorem between_of_isInline_eq_false {item : Item} (other : item.isInline = false) (index : Nat) :
    item.between style index = item.lowered style := by
  cases item with
  | inert text absent => rfl
  | statement found =>
    have closed : found.layout.isParenthesized = true := by
      simpa [isInline, isStatement, isParenthesized] using other
    rw [between, if_pos closed]

theorem convertForm_inline (clear : style.Clear) (item : Item)
    (known : table.entries = prior ++ (item.embedded ++ later)) (rest : Text) :
    Converter.convertForm ⟨style, some table⟩ inline (item.between style prior.length ++ rest) =
      ⟨item.lowered style ++ (Converter.convertForm ⟨style, some table⟩ inline rest).text,
        (Converter.convertForm ⟨style, some table⟩ inline rest).count +
          item.isInline.toNat⟩ := by
  cases waiting : item.isInline with
  | false =>
    -- The item is done already, and it holds nothing that a second pass could find.
    obtain ⟨line, equal⟩ := item.exists_lowered_eq style
    have closed := item.closed_lowered clear
    rw [between_of_isInline_eq_false waiting]
    rw [equal] at closed ⊢
    exact closed.convertForm_append startsMarkup_of_inline ⟨style, some table⟩ rest
  | true =>
    cases item with
    | inert text absent => simp [isInline, isStatement] at waiting
    | statement found =>
      have unclosed : found.layout.isParenthesized = false := by
        simpa [isInline, isStatement, isParenthesized] using waiting
      have step := Converter.convertForm_statement ⟨style, some table⟩
        (found.inline_start? unclosed prior.length ('\n' :: rest))
      have call := found.render_segment style known
      rw [between, if_neg (by simp [unclosed]), ← call]
      simpa using step

end Item

section Program

variable {style : CallStyle} {table : ExpressionTable} {prior : List Expression}

/-- The program after the first pass, when the next expression has the given number. -/
def betweenPasses (style : CallStyle) : Nat → List Item → Text
  | _, [] => []
  | index, item :: items =>
    item.between style index ++ betweenPasses style (index + item.embedded.length) items

theorem convertForm_parenthesized_program {program : List Item}
    (known : table.entries = prior ++ program.flatMap Item.embedded) :
    Converter.convertForm ⟨style, some table⟩ parenthesized
        (maskFrom prior.length (program.flatMap Item.pieces)) =
      ⟨betweenPasses style prior.length program, program.countP Item.isParenthesized⟩ := by
  induction program generalizing prior with
  | nil => exact Converter.convertForm_nil _
  | cons item items induction =>
    rw [List.flatMap_cons] at known
    have shifted : table.entries = (prior ++ item.embedded) ++ items.flatMap Item.embedded := by
      rw [known, List.append_assoc]
    have later := induction shifted
    rw [List.length_append] at later
    rw [List.flatMap_cons, maskFrom_append, Item.expressions_pieces,
      item.convertForm_parenthesized known, later, betweenPasses, List.countP_cons]
    cases item.isParenthesized <;> rfl

theorem convertForm_inline_program (clear : style.Clear) {program : List Item}
    (known : table.entries = prior ++ program.flatMap Item.embedded) :
    Converter.convertForm ⟨style, some table⟩ inline (betweenPasses style prior.length program) =
      ⟨program.flatMap (Item.lowered style),
        program.countP Item.isInline⟩ := by
  induction program generalizing prior with
  | nil => exact Converter.convertForm_nil _
  | cons item items induction =>
    rw [List.flatMap_cons] at known
    have shifted : table.entries = (prior ++ item.embedded) ++ items.flatMap Item.embedded := by
      rw [known, List.append_assoc]
    have later := induction shifted
    rw [List.length_append] at later
    rw [betweenPasses, Item.convertForm_inline clear item known, later, List.flatMap_cons,
      List.countP_cons]
    cases item.isInline <;> rfl

theorem countP_isStatement (program : List Item) :
    program.countP Item.isParenthesized + program.countP Item.isInline =
      program.countP Item.isStatement := by
  induction program with
  | nil => rfl
  | cons item items induction =>
    have included : item.isParenthesized = true → item.isStatement = true := by
      cases item with
      | inert text absent => simp [Item.isParenthesized]
      | statement found => exact fun _ => rfl
    cases parenthesized : item.isParenthesized with
    | true =>
      simp only [List.countP_cons, Item.isInline, parenthesized, included parenthesized]
      simp
      omega
    | false =>
      simp only [List.countP_cons, Item.isInline, parenthesized]
      simp
      omega

/-! ## Nothing is left to restore -/

theorem Item.infix_of_infix_lowered (clear : style.Clear) (item : Item)
    (found : mark <:+: item.lowered style) : mark <:+: written item.pieces := by
  cases item with
  | inert text absent => rwa [Item.pieces, written_map_char]
  | statement statement =>
    have signs : ∀ c ∈ statement.indent, c.isAlpha = false := fun c member =>
      isAlpha_of_isSpace (isSpace_of_isIndent (statement.indented c member))
    have word : ¬ mark <:+: keyword := by
      intro found
      have capital : 'P' ∈ keyword := found.mem (by decide)
      exact absurd capital (by decide)
    have last : ¬ mark <:+: ['\n'] := foreign_mark.not_infix_signs (by simp)
    rw [Item.lowered, ElementCall.render_eq, foreign_mark.signs_append_iff signs,
      foreign_mark.append_cons_iff (by decide), List.append_assoc, List.cons_append,
      foreign_mark.append_cons_iff (by decide), foreign_mark.append_cons_iff (by decide)] at found
    rcases found with inKeyword | inReceiver | inCall | inLast
    · exact absurd inKeyword word
    · exact absurd inReceiver clear.unmarked
    · have inside := statement.infix_of_infix_behindDot foreign_mark clear.unit inCall
      rw [← Returned.written_pieces] at inside
      rw [Item.pieces, written_append, written_append]
      exact List.infix_append_of_infix_right (List.infix_append_of_infix_left inside)
    · exact absurd inLast last

theorem not_mark_infix_lowered (clear : style.Clear) {program : List Item}
    (unmarked : ¬ mark <:+: programSource program) :
    ¬ mark <:+: program.flatMap (Item.lowered style) := by
  induction program with
  | nil => exact fun found => mark_ne_nil (List.infix_nil.mp found)
  | cons item items induction =>
    rw [programSource, List.flatMap_cons, written_append] at unmarked
    have later := induction fun found => unmarked (List.infix_append_of_infix_right found)
    obtain ⟨line, equal⟩ := item.exists_lowered_eq style
    rw [List.flatMap_cons, equal, List.append_assoc, List.singleton_append,
      foreign_mark.append_cons_iff (by decide)]
    rintro (here | there)
    · have inItem : mark <:+: item.lowered style := equal ▸ List.infix_append_of_infix_left here
      exact unmarked (List.infix_append_of_infix_left (item.infix_of_infix_lowered clear inItem))
    · exact later there

/-- A statement never stays as it was: markup begins with a bracket or a parenthesis, and a call
with a name or a dot. -/
theorem lowered_eq_source_iff (plain : style.Plain) (program : List Item) :
    program.flatMap (Item.lowered style) = programSource program ↔
      program.any Item.isStatement = false := by
  induction program with
  | nil => exact ⟨fun _ => rfl, fun _ => rfl⟩
  | cons item items induction =>
    rw [programSource, List.flatMap_cons, List.flatMap_cons, written_append, List.any_cons]
    cases item with
    | inert text absent =>
      rw [Item.pieces, written_map_char, Item.lowered, List.append_cancel_left_eq]
      exact induction
    | statement found =>
      obtain ⟨c, others, text, named⟩ := plain.toRegular.exists_cons
        ((found.call style).behindDot (found.indent ++ style.indentUnit) style.indentUnit ++
          ';' :: '\n' :: items.flatMap (Item.lowered style))
      have lowered : (Item.statement found).lowered style ++ items.flatMap (Item.lowered style) =
          found.indent ++ (keyword ++ ' ' :: c :: others) := by
        rw [← text]
        simp [Item.lowered, ElementCall.render_eq, Statement.call]
      obtain ⟨d, behind, opens, sign⟩ : ∃ d behind, found.text found.list = d :: behind ∧
          (d = '<' ∨ d = '(') := by
        cases layout : found.layout with
        | parenthesized before content after =>
          exact ⟨'(', _, by rw [Returned.text, layout]; rfl, .inr rfl⟩
        | selfClosing | inline =>
          exact ⟨'<', _, by rw [Returned.text, layout]; rfl, .inl rfl⟩
      have source : written (Item.statement found).pieces =
          found.indent ++ (keyword ++ ' ' :: d :: (behind ++ ['\n'])) := by
        rw [Item.pieces, written_append, written_map_char, written_append,
          Returned.written_pieces, opens]
        simp
      rw [lowered, source]
      refine iff_of_false (fun equal => ?_) (by simp [Item.isStatement])
      simp only [List.append_assoc, List.cons_append, List.append_cancel_left_eq, List.cons.injEq,
        true_and] at equal
      obtain ⟨rfl, -⟩ := equal
      rcases named with wordly | rfl
      · rcases sign with rfl | rfl <;> exact absurd wordly (by decide)
      · exact absurd sign (by decide)

end Program

/-! ## Whole programs -/

theorem expressions_program (program : List Item) :
    expressions (program.flatMap Item.pieces) = program.flatMap Item.embedded := by
  induction program with
  | nil => rfl
  | cons item items induction =>
    rw [List.flatMap_cons, expressions_append, Item.expressions_pieces, induction,
      List.flatMap_cons]

theorem braceless_of_item_mem {program : List Item} {expression : Expression}
    (member : .item expression ∈ program.flatMap Item.pieces) :
    ∀ c ∈ expression.body, isBrace c = false := by
  have listed : expression ∈ expressions (program.flatMap Item.pieces) :=
    List.mem_filterMap.mpr ⟨_, member, rfl⟩
  rw [expressions_program] at listed
  obtain ⟨item, -, inItem⟩ := List.mem_flatMap.mp listed
  cases item with
  | inert text absent => simp [Item.embedded] at inItem
  | statement found =>
    obtain ⟨entry, -, inValue⟩ := List.mem_flatMap.mp inItem
    have plain := entry.plain
    cases equal : entry.written.value with
    | braced body =>
      rw [equal] at plain inValue
      obtain rfl : expression = ⟨body⟩ := List.mem_singleton.mp inValue
      exact plain
    | doubleQuoted | singleQuoted | masked | absent =>
      simp [equal, WrittenValue.embedded] at inValue

theorem pieces_programSource {program : List Item}
    (spans : SpansFound (program.flatMap Item.pieces)) :
    Expression.pattern.pieces (programSource program) = program.flatMap Item.pieces :=
  pieces_written (fun _ => braceless_of_item_mem) spans

theorem entries_programSource {program : List Item}
    (spans : SpansFound (program.flatMap Item.pieces)) :
    (mask (programSource program)).table.entries = program.flatMap Item.embedded := by
  rw [entries_mask, pieces_programSource spans, expressions_program]

/-- The two passes lower a program item by item. -/
theorem convertReturns_program {style : CallStyle} (clear : style.Clear) {program : List Item}
    (spans : SpansFound (program.flatMap Item.pieces)) :
    Converter.convertReturns ⟨style, some (mask (programSource program)).table⟩
        (mask (programSource program)).text =
      ⟨program.flatMap (Item.lowered style), program.countP Item.isStatement⟩ := by
  have entries : (mask (programSource program)).table.entries =
      [] ++ program.flatMap Item.embedded := entries_programSource spans
  have text : (mask (programSource program)).text = maskFrom 0 (program.flatMap Item.pieces) := by
    rw [mask, pieces_programSource spans]
  have first : Converter.convertForm ⟨style, some (mask (programSource program)).table⟩
      parenthesized (mask (programSource program)).text =
        ⟨betweenPasses style 0 program, program.countP Item.isParenthesized⟩ :=
    text ▸ convertForm_parenthesized_program entries
  have second : Converter.convertForm ⟨style, some (mask (programSource program)).table⟩ inline
      (betweenPasses style 0 program) =
        ⟨program.flatMap (Item.lowered style), program.countP Item.isInline⟩ :=
    convertForm_inline_program clear entries
  rw [Converter.convertReturns, first]
  dsimp only
  rw [second, countP_isStatement]

theorem output_program {style : CallStyle} (clear : style.Clear) {program : List Item}
    (unmarked : ¬ mark <:+: programSource program)
    (spans : SpansFound (program.flatMap Item.pieces)) :
    (lower style (programSource program)).output = program.flatMap (Item.lowered style) := by
  simp only [lower, convertReturns_program clear spans]
  exact restoreFrom_eq_self (not_mark_infix_lowered clear unmarked) 0 _

/-- No markup is returned in a lowered program. -/
theorem not_opensMarkup_lowered {style : CallStyle} (clear : style.Clear) (program : List Item) :
    ¬ OpensMarkup (program.flatMap (Item.lowered style)) := by
  induction program with
  | nil =>
    rintro ⟨before, opening, after, -, equal⟩
    simp [MarkupOpening.text] at equal
  | cons item items induction =>
    obtain ⟨line, equal⟩ := item.exists_lowered_eq style
    have closed := item.closed_lowered clear
    rw [List.flatMap_cons]
    rw [equal] at closed ⊢
    exact fun opens => induction (closed.opensMarkup_append opens)

/-- A program is lowered item by item: each statement becomes the call that its markup describes,
and all other text stays as it is. -/
theorem lower_program {style : CallStyle} (plain : style.Plain) (program : List Item)
    (unmarked : ¬ mark <:+: programSource program)
    (spans : SpansFound (program.flatMap Item.pieces)) :
    lower style (programSource program) =
      { output := program.flatMap (Item.lowered style)
        statements := program.countP Item.isStatement
        expressions := (program.flatMap Item.embedded).length
        changed := program.any Item.isStatement } := by
  have output := output_program plain.clear unmarked spans
  have changed : decide (program.flatMap (Item.lowered style) ≠ programSource program) =
      program.any Item.isStatement := by
    rw [Bool.eq_iff_iff, decide_eq_true_iff, Ne, lowered_eq_source_iff plain program,
      Bool.not_eq_false]
  simp only [lower, convertReturns_program plain.clear spans] at output ⊢
  simp only [output, changed, entries_programSource spans]

/-- A button with attributes of every kind, in parentheses. -/
def buttonStatement : Statement where
  tag := "button".toList
  attributes := [
    { gap := " ".toList, written := ⟨"class".toList, .doubleQuoted "big 'n bold".toList⟩
      filled := by decide, spaces := List.all_eq_true.mp (by decide), plain := by decide
      named := .of_words ["class".toList] (by decide) (by decide) (by decide) },
    { gap := "\n\t".toList, written := ⟨"onClick".toList, .braced "() => go('<a>;')".toList⟩
      filled := by decide, spaces := List.all_eq_true.mp (by decide), plain := by decide
      named := .of_words ["onClick".toList] (by decide) (by decide) (by decide) },
    { gap := "  ".toList, written := ⟨"data-id".toList, .braced []⟩
      filled := by decide, spaces := List.all_eq_true.mp (by decide), plain := by decide
      named := .of_words ["data".toList, "id".toList] (by decide) (by decide) (by decide) }]
  gap := " ".toList
  layout := .parenthesized "\n    ".toList "\n  Don't\n".toList "\n  ".toList
  indent := "  ".toList
  indented := List.all_eq_true.mp (by decide)
  filled := by decide
  wordly := List.all_eq_true.mp (by decide)
  spaces := List.all_eq_true.mp (by decide)
  plain := by decide
  single := Text.not_infix_of_holds_eq_false (by decide +kernel)

/-- A rule that closes itself, on one line. -/
def ruleStatement : Statement where
  tag := "hr".toList
  attributes := [
    { gap := " ".toList, written := ⟨"hidden".toList, .absent⟩
      filled := by decide, spaces := List.all_eq_true.mp (by decide), plain := by decide
      named := .of_words ["hidden".toList] (by decide) (by decide) (by decide) },
    { gap := " ".toList, written := ⟨"style".toList, .braced "line".toList⟩
      filled := by decide, spaces := List.all_eq_true.mp (by decide), plain := by decide
      named := .of_words ["style".toList] (by decide) (by decide) (by decide) }]
  gap := []
  layout := .selfClosing
  indent := []
  indented := List.forall_mem_nil _
  filled := by decide
  wordly := List.all_eq_true.mp (by decide)
  spaces := List.forall_mem_nil _
  plain := trivial
  single := Text.not_infix_of_holds_eq_false (by decide +kernel)

/-- Two components, with braces around them that belong to no expression. -/
def twoComponents : List Item :=
  [.inert "const Button = () => \x7b".toList (Text.not_infix_of_holds_eq_false (by decide +kernel)),
    .statement buttonStatement,
    .inert "\x7d;\nfunction Rule(line) \x7b".toList
      (Text.not_infix_of_holds_eq_false (by decide +kernel)),
    .statement ruleStatement,
    .inert "\x7d".toList (Text.not_infix_of_holds_eq_false (by decide +kernel))]

theorem not_mark_infix_twoComponents : ¬ mark <:+: programSource twoComponents :=
  Text.not_infix_of_holds_eq_false (by decide +kernel)

theorem spansFound_twoComponents : SpansFound (twoComponents.flatMap Item.pieces) :=
  spansFound_of_pieces_eq (by decide +kernel)

theorem lower_twoComponents :
    programSource twoComponents =
        "const Button = () => \x7b\n  return (\n    <button class=\"big 'n bold\"\n\t".toList ++
          "onClick=\x7b() => go('<a>;')\x7d  data-id=\x7b\x7d >\n  Don't\n".toList ++
          "</button>\n  );\n\x7d;\nfunction Rule(line) \x7b\n".toList ++
          "return <hr hidden style=\x7bline\x7d/>;\n\x7d\n".toList ∧
      lower {} (programSource twoComponents) =
        { output :=
            "const Button = () => \x7b\n  return React.createElement(\n      'button',\n".toList ++
            "      \x7b className: 'big \\'n bold', onClick: () => go('<a>;'), ".toList ++
            "'data-id': true \x7d,\n      'Don\\'t'\n    );\n\x7d;\n".toList ++
            "function Rule(line) \x7b\nreturn React.createElement('hr', ".toList ++
            "\x7b hidden: true, style: line \x7d);\n\x7d\n".toList
          statements := 2
          expressions := 3
          changed := true } := by
  refine ⟨by decide +kernel, ?_⟩
  rw [lower_program CallStyle.plain_default twoComponents not_mark_infix_twoComponents
    spansFound_twoComponents]
  decide +kernel

end JsxCalls
