import JsxCalls.Proofs.Program
import JsxCalls.Proofs.StatementForm

/-!
# Parenthesized returns of elements that close themselves

A parenthesized statement ends with a closing tag, which an element that closes itself does not
have. So such a statement is no statement of either form, and is left as it is; unless a closing tag
that could end it stands anywhere behind it. Then all the text up to this tag is taken for the
markup of the statement.
-/

namespace JsxCalls

namespace ReturnStatement

/-! ## Before the markup -/

/-- Nothing but white space, the keyword and a parenthesis stands before the markup. -/
theorem Stands.notMem_before_markup {found : ReturnStatement} {gap opening closing text rest : Text}
    (stands : found.Stands gap opening closing text rest) {c : Char} (visible : isSpace c = false)
    (inner : c ∉ keyword) (different : c ≠ '(') :
    c ∉ found.indent ++ (keyword ++ (gap ++ opening)) := by
  intro member
  simp only [List.mem_append] at member
  rcases member with inIndent | inKeyword | inGap | inOpening
  · simp [isSpace_of_isIndent (stands.indented c inIndent)] at visible
  · exact inner inKeyword
  · simp [stands.spaces c inGap] at visible
  · rcases stands.opens c inOpening with space | equal
    · simp [space] at visible
    · exact different equal

/-- Neither a bracket nor a semicolon stands before the markup of a statement. -/
theorem IsForm.exists_before_markup {form : Pattern ReturnStatement} (isForm : IsForm form)
    {text rest : Text} {found : ReturnStatement} (matched : form.start? text = some (found, rest)) :
    ∃ front behind, text = front ++ '<' :: behind ∧ keyword <:+: front ∧ '<' ∉ front ∧
      ';' ∉ front := by
  obtain ⟨gap, opening, closing, stands⟩ := isForm matched
  obtain ⟨content, bracketed⟩ := stands.bracketed
  refine ⟨found.indent ++ (keyword ++ (gap ++ opening)), content ++ '>' :: (closing ++ ';' :: rest),
    ?_, ⟨found.indent, gap ++ opening, by simp⟩,
    stands.notMem_before_markup (by decide) (by decide) (by decide),
    stands.notMem_before_markup (by decide) (by decide) (by decide)⟩
  rw [stands.text_eq, bracketed]
  simp

variable {form : Pattern ReturnStatement} (isForm : IsForm form)
include isForm

theorem IsForm.start?_of_semicolon {block : Text} (plain : '<' ∉ block) (ends : ';' ∈ block)
    (rest : Text) : form.start? (block ++ rest) = none := by
  rw [Option.eq_none_iff_forall_ne_some]
  rintro ⟨found, behind⟩ matched
  obtain ⟨front, markup, equal, -, -, open_⟩ := isForm.exists_before_markup matched
  obtain ⟨between, rfl, -⟩ := Text.exists_append_of_separator plain equal.symm
  exact open_ (List.mem_append_left between ends)

theorem IsForm.start?_of_no_keyword {front : Text} (plain : '<' ∉ front)
    (absent : ¬ keyword <:+: front) (rest : Text) : form.start? (front ++ '<' :: rest) = none := by
  rw [Option.eq_none_iff_forall_ne_some]
  rintro ⟨found, behind⟩ matched
  obtain ⟨other, markup, equal, present, bracketless, -⟩ := isForm.exists_before_markup matched
  have here := Text.until?_eq_some_iff.mpr ⟨equal, bracketless⟩
  rw [Text.until?_eq_some_iff.mpr ⟨rfl, plain⟩] at here
  obtain ⟨rfl, -⟩ := Prod.mk.inj (Option.some.inj here)
  exact absent present

end ReturnStatement

/-! ## The statements -/

/-- A parenthesized return of an element that closes itself, with the line break behind it. -/
structure SelfClosingReturn where
  /-- The indentation of the line on which the statement starts. -/
  indent : Text
  /-- What stands between the parenthesis and the element. -/
  before : Text
  /-- The name of the element. -/
  tag : Text
  /-- The attribute list as written. -/
  attributes : Text
  /-- What stands between the element and the parenthesis. -/
  after : Text
  indented : ∀ c ∈ indent, isIndent c = true
  opens : ∀ c ∈ before, isSpace c = true
  filled : tag ≠ []
  wordly : ∀ c ∈ tag, isWord c = true
  spaced : ∀ c ∈ attributes.head?, isSpace c = true
  plain : ∀ c ∈ attributes, isSign c = false
  closes : ∀ c ∈ after, isSpace c = true

namespace SelfClosingReturn

open ReturnStatement

variable (statement : SelfClosingReturn)

/-- The element that is returned. -/
def element : Element :=
  ⟨statement.tag, statement.attributes, none⟩

/-- The statement as it is written. -/
def source : Text :=
  statement.indent ++ (keyword ++ ' ' :: '(' :: (statement.before ++
    (statement.element.source ++ (statement.after ++ [')', ';', '\n']))))

/-- What stands behind the bracket that opens the element. -/
def behindBracket : Text :=
  statement.tag ++ (statement.attributes ++ '/' :: '>' :: (statement.after ++ [')', ';', '\n']))

theorem source_eq : statement.source = statement.indent ++ (keyword ++ ' ' :: '(' ::
    (statement.before ++ '<' :: statement.behindBracket)) := by
  simp [source, behindBracket, element, Element.source, Element.ending]

theorem bracket_notMem_behindBracket : '<' ∉ statement.behindBracket := by
  have inTag : '<' ∉ statement.tag := fun member =>
    absurd (statement.wordly _ member) (by decide)
  have inList : '<' ∉ statement.attributes := fun member =>
    absurd (statement.plain _ member) (by decide)
  have inGap : '<' ∉ statement.after := fun member =>
    absurd (statement.closes _ member) (by decide)
  simp [behindBracket, inTag, inList, inGap]

theorem wholeLines_source : Text.WholeLines statement.source := by
  refine .inr ⟨statement.indent ++ (keyword ++ ' ' :: '(' :: (statement.before ++
    (statement.element.source ++ (statement.after ++ [')', ';'])))), ?_⟩
  simp [source]

/-- What is left of the statement at the start of a later line ends with its semicolon. -/
theorem semicolon_mem_of_suffix {front rest : Text} (filled : rest ≠ [])
    (equal : statement.behindBracket = front ++ rest) (broken : ∀ text, front ≠ text ++ [';']) :
    ';' ∈ rest := by
  let body := statement.tag ++ (statement.attributes ++ '/' :: '>' :: (statement.after ++ [')']))
  have ends : statement.behindBracket = (body ++ [';']) ++ ['\n'] := by
    simp [behindBracket, body]
  obtain ⟨kept, last, rfl⟩ := (List.eq_nil_or_concat rest).resolve_left filled
  rw [ends, List.concat_eq_append, ← List.append_assoc] at equal
  have same : body ++ [';'] = front ++ kept := List.append_inj_left' equal rfl
  rcases List.eq_nil_or_concat kept with rfl | ⟨others, c, rfl⟩
  · exact absurd (by simpa using same.symm) (broken body)
  · rw [List.concat_eq_append, ← List.append_assoc] at same
    obtain rfl : ';' = c := List.singleton_inj.mp (List.append_inj_right' same rfl)
    simp

/-- On no line but the first can a statement start. -/
theorem start?_of_line {form : Pattern ReturnStatement} (isForm : IsForm form) {rest : Text}
    (first : form.start? (statement.source ++ rest) = none) {before after : Text}
    (split : statement.source = before ++ after) (whole : Text.WholeLines before)
    (filled : after ≠ []) : form.start? (after ++ rest) = none := by
  rcases whole with rfl | ⟨front, rfl⟩
  · rwa [split] at first
  · let head := statement.indent ++ (keyword ++ [' ', '('])
    have text : (head ++ statement.before) ++ '<' :: statement.behindBracket =
        (front ++ ['\n']) ++ after := by
      rw [← split, source_eq]
      simp [head]
    rcases List.append_eq_append_iff.mp text with
      ⟨middle, front_eq, rest_eq⟩ | ⟨middle, head_eq, rfl⟩
    · cases middle with
      | nil =>
        obtain rfl : '<' :: statement.behindBracket = after := rest_eq
        have nothing : ¬ keyword <:+: [] := by decide
        exact isForm.start?_of_no_keyword List.not_mem_nil nothing _
      | cons c middle =>
        obtain ⟨rfl, behind_eq⟩ := List.cons.inj rest_eq
        have plain : '<' ∉ after := fun member =>
          statement.bracket_notMem_behindBracket (by simp [behind_eq, member])
        refine isForm.start?_of_semicolon plain
          (statement.semicolon_mem_of_suffix filled behind_eq ?_) rest
        -- The lines before it end with a line break and not with a semicolon.
        rintro kept rfl
        have last : front ++ ['\n'] = (head ++ statement.before ++ '<' :: kept) ++ [';'] := by
          simpa using front_eq
        exact absurd (List.append_inj_right' last rfl) (by decide)
    · have unbroken : '\n' ∉ head := by
        simpa [head] using newline_notMem_indent_keyword statement.indented
      rw [List.append_assoc front, List.singleton_append] at head_eq
      obtain ⟨between, -, before_eq⟩ := Text.exists_append_of_separator unbroken head_eq.symm
      have spaces : ∀ c ∈ middle, isSpace c = true := fun c member =>
        statement.opens c (by simp [before_eq, member])
      have plain : '<' ∉ middle := fun member => absurd (spaces _ member) (by decide)
      have absent : ¬ keyword <:+: middle := fun found =>
        absurd (spaces 'r' (found.mem (by decide))) (by decide)
      rw [List.append_assoc]
      exact isForm.start?_of_no_keyword plain absent _

/-! ## Texts behind a statement -/

variable (rest : Text)

theorem parenthesized?_source_append :
    parenthesized? (statement.source ++ rest) =
      (throughClosing? (statement.after ++ ')' :: ';' :: '\n' :: rest)).map fun found =>
        (⟨statement.indent, '<' :: (statement.tag ++ (statement.attributes ++ ['/'])) ++
          '>' :: found.1⟩, found.2) := by
  have inside : '>' ∉ statement.tag ++ (statement.attributes ++ ['/']) := by
    have inTag : '>' ∉ statement.tag := fun member =>
      absurd (statement.wordly _ member) (by decide)
    have inList : '>' ∉ statement.attributes := fun member =>
      absurd (statement.plain _ member) (by decide)
    simp [inTag, inList]
  rw [← parenthesized?_append statement.indented statement.opens inside]
  simp [source_eq, behindBracket]

theorem inline?_source_append : inline? (statement.source ++ rest) = none := by
  have text : statement.source ++ rest = statement.indent ++ (keyword ++ ' ' :: '(' ::
      (statement.before ++ '<' :: (statement.behindBracket ++ rest))) := by
    simp [source_eq]
  have stops : Text.StopsRun isSpace ('(' :: (statement.before ++
      '<' :: (statement.behindBracket ++ rest))) := by
    intro c first
    obtain rfl : '(' = c := Option.some.inj first
    decide
  rw [text]
  simp [inline?, head?_append statement.indented stops, Text.after?]

/-- A closing tag that could end the statement is looked for in all the text behind it. -/
theorem holdsEnding_after_iff :
    HoldsEnding (statement.after ++ ')' :: ';' :: '\n' :: rest) ↔ HoldsEnding rest := by
  have plain : '<' ∉ statement.after ++ [')', ';', '\n'] := by
    have inGap : '<' ∉ statement.after := fun member =>
      absurd (statement.closes _ member) (by decide)
    simp [inGap]
  have cut : HoldsEnding ((statement.after ++ [')', ';', '\n']) ++ rest) ↔ HoldsEnding rest :=
    holdsEnding_append_iff plain
  rwa [List.append_assoc] at cut

variable {rest} (converter : Converter)

theorem convertForm_parenthesized_append (absent : ¬ HoldsEnding rest) :
    converter.convertForm parenthesized (statement.source ++ rest) =
      (converter.convertForm parenthesized rest).behind statement.source := by
  have unclosed : throughClosing? (statement.after ++ ')' :: ';' :: '\n' :: rest) = none := by
    rwa [← statement.holdsEnding_after_iff, ← isSome_throughClosing?_iff,
      Option.not_isSome_iff_eq_none] at absent
  have first : parenthesized.start? (statement.source ++ rest) = none := by
    change parenthesized? _ = none
    rw [parenthesized?_source_append, unclosed]
    rfl
  exact converter.convertForm_quiet rest statement.wholeLines_source fun _ _ split whole filled =>
    statement.start?_of_line isForm_parenthesized first split whole filled

theorem convertForm_inline_append (rest : Text) :
    converter.convertForm inline (statement.source ++ rest) =
      (converter.convertForm inline rest).behind statement.source :=
  converter.convertForm_quiet rest statement.wholeLines_source fun _ _ split whole filled =>
    statement.start?_of_line isForm_inline (statement.inline?_source_append rest) split whole filled

/-- The statement is left as it is, if nothing behind it could end it. -/
theorem convertReturns_append (absent : ¬ HoldsEnding rest) :
    converter.convertReturns (statement.source ++ rest) =
      (converter.convertReturns rest).behind statement.source := by
  simp only [Converter.convertReturns, statement.convertForm_parenthesized_append converter absent,
    Converted.behind, convertForm_inline_append]

end SelfClosingReturn

/-! ## How converted statements begin -/

namespace Converter

open ReturnStatement

variable (converter : Converter)

/-- The value of a converted statement can begin with the character. -/
def OpensValue (c : Char) : Prop :=
  c = '<' ∨ c = '.' ∨ converter.style.receiver.head? = some c

theorem exists_convert_eq_cons (content indent : Text) :
    ∃ c others, converter.convert (Text.trim ('<' :: (content ++ ['>']))) indent = c :: others ∧
      converter.OpensValue c := by
  rw [convert, Text.trim_bracketed, Text.trim_bracketed]
  cases parsed : Element.parse? ('<' :: (content ++ ['>'])) with
  | none => exact ⟨'<', content ++ ['>'], rfl, .inl rfl⟩
  | some element =>
    have own : (converter.call element).receiver = converter.style.receiver := rfl
    simp only [ElementCall.render_eq, own, OpensValue]
    cases converter.style.receiver with
    | nil => exact ⟨'.', _, rfl, .inr (.inl rfl)⟩
    | cons c others => exact ⟨c, _, rfl, .inr (.inr rfl)⟩

variable {form : Pattern ReturnStatement}

theorem exists_resume_cons (c : Char) (text : Text) :
    ∃ others, (converter.resume form (c :: text)).text = c :: others := by
  by_cases newline : c = '\n'
  · subst newline
    exact ⟨_, congrArg Converted.text (converter.resume_newline text)⟩
  · exact ⟨_, congrArg Converted.text (converter.resume_cons newline text)⟩

variable (isForm : IsForm form)
include isForm

theorem exists_convertForm_of_some {text rest : Text} {found : ReturnStatement}
    (matched : form.start? text = some (found, rest)) :
    ∃ c others, (converter.convertForm form text).text =
      found.indent ++ (keyword ++ ' ' :: c :: others) ∧ converter.OpensValue c := by
  obtain ⟨gap, opening, closing, stands⟩ := isForm matched
  obtain ⟨content, bracketed⟩ := stands.bracketed
  obtain ⟨c, others, value, opens⟩ :=
    converter.exists_convert_eq_cons content (found.indent ++ converter.style.indentUnit)
  refine ⟨c, others ++ ';' :: (converter.resume form rest).text, ?_, opens⟩
  rw [converter.convertForm_eq_resume_behind matched, Converted.text,
    Segment.render_statement_append, bracketed, value, List.cons_append]

/-- A pass keeps how a line with the keyword begins, or converts the statement that starts on it. -/
theorem exists_convertForm_of_keyword {indent others : Text} {c : Char}
    (indented : ∀ d ∈ indent, isIndent d = true) (opens : converter.OpensValue c) :
    ∃ d behind, (converter.convertForm form (indent ++ (keyword ++ ' ' :: c :: others))).text =
      indent ++ (keyword ++ ' ' :: d :: behind) ∧ converter.OpensValue d := by
  cases matched : form.start? (indent ++ (keyword ++ ' ' :: c :: others)) with
  | none =>
    have within : '\n' ∉ indent ++ (keyword ++ [' ']) := by
      simpa using newline_notMem_indent_keyword indented
    have text : indent ++ (keyword ++ ' ' :: c :: others) =
        (indent ++ (keyword ++ [' '])) ++ c :: others := by simp
    obtain ⟨behind, equal⟩ : ∃ behind, (converter.resume form (c :: others)).text = c :: behind :=
      converter.exists_resume_cons c others
    refine ⟨c, behind, ?_, opens⟩
    rw [converter.convertForm_eq_resume matched, text, converter.resume_append within,
      Converted.behind, equal]
    simp
  | some result =>
    obtain ⟨found, rest⟩ := result
    have same := (isForm.indent_eq indented matched).symm
    rw [same]
    exact converter.exists_convertForm_of_some isForm (same ▸ matched)

end Converter

/-! ## Statements that reach further -/

/-- Two texts, one behind the other, are converted as if each stood alone. -/
def Converter.Undisturbed (converter : Converter) (front behind : Text) : Prop :=
  converter.convertReturns (front ++ behind) =
    ⟨(converter.convertReturns front).text ++ (converter.convertReturns behind).text,
      (converter.convertReturns front).count + (converter.convertReturns behind).count⟩

namespace SelfClosingReturn

open ReturnStatement

variable (statement : SelfClosingReturn) {rest : Text} (converter : Converter)

theorem convertReturns_source :
    converter.convertReturns statement.source = ⟨statement.source, 0⟩ := by
  have absent : ¬ HoldsEnding [] := by decide
  have alone := statement.convertReturns_append converter absent
  have nothing : converter.convertReturns [] = ⟨[], 0⟩ := by simp [Converter.convertReturns]
  rwa [nothing, Converted.behind, List.append_nil] at alone

/-- A statement that reaches a closing tag behind it loses its parenthesis. -/
theorem exists_convertReturns_eq (closed : HoldsEnding rest) :
    ∃ c others, (converter.convertReturns (statement.source ++ rest)).text =
      statement.indent ++ (keyword ++ ' ' :: c :: others) ∧ converter.OpensValue c := by
  rw [← statement.holdsEnding_after_iff, ← isSome_throughClosing?_iff,
    Option.isSome_iff_exists] at closed
  obtain ⟨result, found⟩ := closed
  have matched := statement.parenthesized?_source_append rest
  rw [found] at matched
  obtain ⟨c, others, first, opens⟩ :=
    converter.exists_convertForm_of_some isForm_parenthesized matched
  rw [Converter.convertReturns, first]
  exact converter.exists_convertForm_of_keyword isForm_inline statement.indented opens

/-- A parenthesized return of an element that closes itself leaves the text behind it alone exactly
if no closing tag in this text could end it. -/
theorem undisturbed_iff_not_holdsEnding (buffer : Text) :
    (¬ HoldsEnding buffer → ∀ converter : Converter,
        converter.Undisturbed statement.source buffer) ∧
      (HoldsEnding buffer → ∀ converter : Converter, converter.style.receiver.head? ≠ some '(' →
        ¬ converter.Undisturbed statement.source buffer) := by
  constructor
  · intro absent converter
    rw [Converter.Undisturbed, statement.convertReturns_append converter absent,
      convertReturns_source, Nat.zero_add]
    rfl
  · intro closed converter path undisturbed
    obtain ⟨c, others, text, opens⟩ := statement.exists_convertReturns_eq converter closed
    rw [undisturbed, convertReturns_source] at text
    have both : (statement.indent ++ (keyword ++ [' '])) ++ '(' :: (statement.before ++ '<' ::
        (statement.behindBracket ++ (converter.convertReturns buffer).text)) =
          (statement.indent ++ (keyword ++ [' '])) ++ c :: others := by
      simpa [source_eq] using text
    obtain ⟨rfl, -⟩ := List.cons.inj (List.append_cancel_left both)
    rcases opens with bracket | dot | first
    · exact absurd bracket (by decide)
    · exact absurd dot (by decide)
    · exact path first

/-- A return of an icon. -/
def iconReturn : SelfClosingReturn where
  indent := "\t\t".toList
  before := "\n\t\t\t".toList
  tag := "Icon".toList
  attributes := " name=\"cog\"".toList
  after := "\n\t\t".toList
  indented := List.all_eq_true.mp (by decide)
  opens := List.all_eq_true.mp (by decide)
  filled := by decide
  wordly := List.all_eq_true.mp (by decide)
  spaced := by
    intro c first
    obtain rfl : ' ' = c := Option.some.inj first
    decide
  plain := by
    have signs : (" name=\"cog\"".toList.all fun c => !isSign c) = true := by decide
    simpa using List.all_eq_true.mp signs
  closes := List.all_eq_true.mp (by decide)

/-- A return of a paragraph in parentheses. -/
def paragraphReturn : Text :=
  "return (\n<p>x</p>\n);\n".toList

theorem undisturbed_iconReturn :
    (¬ HoldsEnding "return <p>x</p>;\n".toList ∧
      Converter.Undisturbed ⟨{}, none⟩ iconReturn.source "return <p>x</p>;\n".toList) ∧
      HoldsEnding paragraphReturn ∧
      ¬ Converter.Undisturbed ⟨{}, none⟩ iconReturn.source paragraphReturn := by
  have absent : ¬ HoldsEnding "return <p>x</p>;\n".toList := by decide +kernel
  have present : HoldsEnding paragraphReturn := by decide +kernel
  refine ⟨⟨absent, ?_⟩, present, ?_⟩
  · exact (undisturbed_iff_not_holdsEnding iconReturn _).1 absent _
  · exact (undisturbed_iff_not_holdsEnding iconReturn _).2 present _ (by decide)

/-- The paragraph behind the icon is not converted, and the parentheses of both are torn apart. -/
theorem not_undisturbed_paragraphReturn :
    iconReturn.source = "\t\treturn (\n\t\t\t<Icon name=\"cog\"/>\n\t\t);\n".toList ∧
      Converter.convertReturns ⟨{}, none⟩ iconReturn.source = ⟨iconReturn.source, 0⟩ ∧
      Converter.convertReturns ⟨{}, none⟩ paragraphReturn =
        ⟨"return React.createElement(\n    'p',\n    null,\n    'x'\n  );\n".toList, 1⟩ ∧
      Converter.convertReturns ⟨{}, none⟩ (iconReturn.source ++ paragraphReturn) =
        ⟨"\t\treturn <Icon name=\"cog\"/>\n\t\t);\nreturn (\n<p>x</p>;\n".toList, 1⟩ ∧
      ¬ Converter.Undisturbed ⟨{}, none⟩ iconReturn.source paragraphReturn := by
  refine ⟨by decide +kernel, by decide +kernel, by decide +kernel, by decide +kernel, ?_⟩
  rw [Converter.Undisturbed]
  decide +kernel

end SelfClosingReturn

end JsxCalls
