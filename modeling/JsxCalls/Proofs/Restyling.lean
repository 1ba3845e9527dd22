import JsxCalls.Lowering
import JsxCalls.Proofs.CallWords
import JsxCalls.Proofs.TwoPasses

/-!
# What the style of calls decides

The style decides what the first pass writes, and the second pass reads it. But a piece of text
without a bracket and a semicolon can be exchanged before a sign: no statement starts in it, and a
statement that reaches over it ends where it did. All that depends on the style stands in such
pieces, so both passes find as many statements in any style.
-/

namespace JsxCalls

open ReturnStatement

/-! ## Signs that no statement passes over unseen -/

/-- The character stands in no part of a statement but its markup, and does not end the markup. -/
def isFence (c : Char) : Bool :=
  !isSpace c && c ∉ keyword && c ∉ ['<', '>', ';']

/-- The text has neither a bracket that opens markup nor a semicolon. -/
def Bland (text : Text) : Prop :=
  '<' ∉ text ∧ ';' ∉ text

theorem of_isFence {c : Char} (fence : isFence c = true) :
    isSpace c = false ∧ c ∉ keyword ∧ c ∉ ['<', '>', ';'] := by
  have parts : (isSpace c = false ∧ c ∉ keyword) ∧ c ∉ ['<', '>', ';'] := by
    simpa [isFence] using fence
  exact ⟨parts.1.1, parts.1.2, parts.2⟩

section Fence

variable {piece other back : Text} {c : Char} (fence : isFence c = true)
include fence

/-- A statement does not start behind the text before the piece. -/
theorem exists_opening_of_inline?_fence (bland : '<' ∉ piece) {front rest : Text}
    {found : ReturnStatement}
    (matched : inline? (front ++ (piece ++ c :: back)) = some (found, rest)) :
    ∃ gap content inside,
      front = found.indent ++ (keyword ++ (gap ++ '<' :: inside)) ∧
      (∀ c ∈ found.indent, isIndent c = true) ∧ gap ≠ [] ∧ (∀ c ∈ gap, isSpace c = true) ∧
      ';' ∉ content ∧ found.markup = '<' :: (content ++ ['>']) ∧ content ≠ [] ∧
      inside ++ (piece ++ c :: back) = (content ++ ['>']) ++ ';' :: rest := by
  obtain ⟨visible, letter, sign⟩ := of_isFence fence
  obtain ⟨gap, content, equal, indented, filled, spaces, nonempty, outside, markup_eq⟩ :=
    inline?_eq_some_iff.mp matched
  have absent : c ∉ found.indent ++ (keyword ++ (gap ++ ['<'])) := by
    simp only [List.mem_append, List.mem_singleton, not_or]
    refine ⟨fun member => ?_, letter, fun member => ?_, fun bracket => sign (by simp [bracket])⟩
    · simp [isSpace_of_isIndent (indented c member)] at visible
    · simp [spaces c member] at visible
  have split : (front ++ piece) ++ c :: back = (found.indent ++ (keyword ++ (gap ++ ['<']))) ++
      (content ++ '>' :: ';' :: rest) := by simpa using equal
  obtain ⟨between, start_eq, behind_eq⟩ := Text.exists_append_of_separator absent split
  have start : front ++ piece = (found.indent ++ (keyword ++ gap)) ++ '<' :: between := by
    simpa using start_eq
  rcases List.append_eq_append_iff.mp start with ⟨middle, -, piece_eq⟩ | ⟨middle, front_eq, split⟩
  · exact absurd (by simp [piece_eq]) bland
  · cases middle with
    | nil => exact absurd (by simp [← show _ = piece from split]) bland
    | cons first inside =>
      obtain ⟨rfl, rfl⟩ := List.cons.inj split
      refine ⟨gap, content, inside, by simpa using front_eq, indented, filled, spaces, outside,
        markup_eq, nonempty, ?_⟩
      simpa using behind_eq.symm

/-- A statement that is found before one piece is found before the other. It ends before the piece,
or at the same place behind it. -/
theorem inline?_exchange (bland : Bland piece) (plain : Bland other) {front rest : Text}
    {found : ReturnStatement}
    (matched : inline? (front ++ (piece ++ c :: back)) = some (found, rest)) :
    (∃ behind, behind.length < front.length ∧ rest = behind ++ (piece ++ c :: back) ∧
        inline? (front ++ (other ++ c :: back)) = some (found, behind ++ (other ++ c :: back))) ∨
      ∃ found', inline? (front ++ (other ++ c :: back)) = some (found', rest) := by
  obtain ⟨gap, content, inside, rfl, indented, filled, spaces, outside, markup_eq, nonempty,
    equal⟩ := exists_opening_of_inline?_fence fence bland.1 matched
  obtain ⟨-, -, sign⟩ := of_isFence fence
  have within : ';' ∉ piece ++ [c] := by
    rw [List.mem_append, not_or, List.mem_singleton]
    exact ⟨bland.2, fun semicolon => sign (by simp [← semicolon])⟩
  rcases List.append_eq_append_iff.mp equal with
    ⟨middle, content_eq, split⟩ | ⟨middle, inside_eq, split⟩
  · -- The semicolon stands behind the sign, and so does the bracket before it.
    obtain ⟨between, rfl, rfl⟩ := Text.exists_append_of_separator within
      (show middle ++ ';' :: rest = (piece ++ [c]) ++ back by simpa using split.symm)
    rcases List.eq_nil_or_concat between with rfl | ⟨kept, last, rfl⟩
    · have ends : content ++ ['>'] = (inside ++ piece) ++ [c] := by simpa using content_eq
      obtain rfl : '>' = c := List.singleton_inj.mp (List.append_inj_right' ends rfl)
      exact absurd (by simp) sign
    · have ends : content ++ ['>'] = (inside ++ (piece ++ c :: kept)) ++ [last] := by
        simpa using content_eq
      obtain rfl : '>' = last := List.singleton_inj.mp (List.append_inj_right' ends rfl)
      obtain rfl : content = inside ++ (piece ++ c :: kept) := List.append_inj_left' ends rfl
      refine .inr ⟨⟨found.indent, '<' :: (inside ++ (other ++ c :: kept) ++ ['>'])⟩,
        inline?_eq_some_iff.mpr ⟨gap, inside ++ (other ++ c :: kept), by simp, indented, filled,
          spaces, by simp, ?_, rfl⟩⟩
      simp only [List.mem_append, List.mem_cons, not_or] at outside ⊢
      exact ⟨outside.1, plain.2, outside.2.2⟩
  · cases middle with
    | nil =>
      obtain ⟨between, empty, -⟩ := Text.exists_append_of_separator within
        (show [] ++ ';' :: rest = (piece ++ [c]) ++ back by simpa using split)
      simp at empty
    | cons first behind =>
      obtain ⟨rfl, rest_eq⟩ := List.cons.inj split
      refine .inl ⟨behind, ?_, rest_eq, inline?_eq_some_iff.mpr ⟨gap, content, by simp [inside_eq],
        indented, filled, spaces, nonempty, outside, markup_eq⟩⟩
      simp only [inside_eq, List.length_append, List.length_cons]
      omega

theorem inline?_eq_none_exchange (bland : Bland piece) (plain : Bland other) {front : Text}
    (missed : inline? (front ++ (piece ++ c :: back)) = none) :
    inline? (front ++ (other ++ c :: back)) = none := by
  rw [Option.eq_none_iff_forall_ne_some]
  rintro ⟨found, rest⟩ matched
  rcases inline?_exchange fence plain bland matched with ⟨_, -, -, here⟩ | ⟨_, here⟩
  · simp [missed] at here
  · simp [missed] at here

/-! ## Exchanged pieces -/

variable (converter : Converter)

/-- Nothing is found in the piece itself. -/
theorem Converter.count_resume_fence (bland : '<' ∉ piece) :
    (converter.resume inline (piece ++ c :: back)).count =
      (converter.resume inline back).count := by
  have visible : c ≠ '\n' := by
    rintro rfl
    exact absurd fence (by decide)
  induction piece with
  | nil =>
    rw [List.nil_append, converter.resume_cons visible]
    rfl
  | cons first piece induction =>
    rw [List.mem_cons, not_or] at bland
    by_cases broken : first = '\n'
    · have missed : inline.start? (piece ++ c :: back) = none := by
        rw [Option.eq_none_iff_forall_ne_some]
        rintro ⟨found, rest⟩ matched
        obtain ⟨gap, content, inside, empty, -⟩ := exists_opening_of_inline?_fence fence bland.2
          (show inline? ([] ++ (piece ++ c :: back)) = some (found, rest) from matched)
        simp at empty
      rw [broken, List.cons_append, converter.resume_newline, ← induction bland.2,
        ← converter.convertForm_eq_resume missed]
      rfl
    · rw [List.cons_append, converter.resume_cons broken, ← induction bland.2]
      rfl

/-- As many statements are found with either piece, whatever stands before it. -/
theorem Converter.count_exchange (bland : Bland piece) (plain : Bland other) (front : Text) :
    (converter.convertForm inline (front ++ (piece ++ c :: back))).count =
      (converter.convertForm inline (front ++ (other ++ c :: back))).count := by
  have goes_on : ∀ behind : Text, behind.length ≤ front.length →
      (converter.resume inline (behind ++ (piece ++ c :: back))).count =
        (converter.resume inline (behind ++ (other ++ c :: back))).count := by
    intro behind shorter
    by_cases broken : '\n' ∈ behind
    · have less : (Text.dropLine behind).length < front.length :=
        Nat.lt_of_lt_of_le (Text.length_dropLine_lt (List.ne_nil_of_mem broken)) shorter
      have later := Converter.count_exchange bland plain (Text.dropLine behind)
      rw [resume, resume, (Text.takeLine_append broken _).2, (Text.takeLine_append broken _).2]
      exact later
    · rw [converter.resume_append broken, converter.resume_append broken]
      exact (converter.count_resume_fence fence bland.1).trans
        (converter.count_resume_fence fence plain.1).symm
  cases matched : inline? (front ++ (piece ++ c :: back)) with
  | none =>
    rw [converter.convertForm_eq_resume matched,
      converter.convertForm_eq_resume (inline?_eq_none_exchange fence bland plain matched)]
    exact goes_on front (Nat.le_refl _)
  | some result =>
    obtain ⟨found, rest⟩ := result
    rw [converter.convertForm_eq_resume_behind matched]
    rcases inline?_exchange fence bland plain matched with
      ⟨behind, shorter, rfl, here⟩ | ⟨found', here⟩
    · rw [converter.convertForm_eq_resume_behind here]
      exact congrArg (· + 1) (goes_on behind (Nat.le_of_lt shorter))
    · rw [converter.convertForm_eq_resume_behind here]
termination_by front.length

end Fence

/-! ## Written statements -/

/-- As many inline statements are found with either text, whatever stands before it. -/
def Interchangeable (left right : Text) : Prop :=
  ∀ (converter : Converter) (front : Text),
    (converter.convertForm inline (front ++ left)).count =
      (converter.convertForm inline (front ++ right)).count

namespace Interchangeable

variable {left right : Text}

theorem append (same : Interchangeable left right) (text : Text) :
    Interchangeable (text ++ left) (text ++ right) := by
  intro converter front
  rw [← List.append_assoc, ← List.append_assoc]
  exact same converter (front ++ text)

theorem cons (same : Interchangeable left right) (c : Char) :
    Interchangeable (c :: left) (c :: right) :=
  same.append [c]

theorem exchange {c : Char} (fence : isFence c = true) {piece other : Text} (bland : Bland piece)
    (plain : Bland other) (same : Interchangeable left right) :
    Interchangeable (piece ++ c :: left) (other ++ c :: right) := by
  intro converter front
  rw [converter.count_exchange fence bland plain front]
  exact (same.cons c).append other converter front

end Interchangeable

theorem bland_of_isSpace {text : Text} (spaces : ∀ c ∈ text, isSpace c = true) : Bland text :=
  ⟨fun member => absurd (spaces _ member) (by decide),
    fun member => absurd (spaces _ member) (by decide)⟩

theorem Bland.append {left right : Text} (first : Bland left) (second : Bland right) :
    Bland (left ++ right) := by
  simp only [Bland, List.mem_append, not_or]
  exact ⟨⟨first.1, second.1⟩, first.2, second.2⟩

theorem CallStyle.Regular.bland_receiver {style : CallStyle} (regular : style.Regular) :
    Bland style.receiver :=
  ⟨regular.notMem_receiver (by decide) (by decide), regular.notMem_receiver (by decide) (by decide)⟩

/-- The beginning of a line before an argument may be exchanged for another. -/
theorem Interchangeable.props (table : Option ExpressionTable) (list : Text)
    {line other left right : Text} (bland : Bland line) (plain : Bland other)
    (same : Interchangeable left right) :
    Interchangeable (line ++ (propsOfList table list ++ ',' :: left))
      (other ++ (propsOfList table list ++ ',' :: right)) := by
  rcases props_cases table list with word | ⟨text, opened⟩
  · -- The word has letters of the keyword, so only the comma behind it is a fence.
    have null : Bland "null".toList := ⟨by decide, by decide⟩
    rw [word, ← List.append_assoc, ← List.append_assoc]
    exact exchange (by decide) (bland.append null) (plain.append null) same
  · rw [opened, List.cons_append, List.cons_append]
    exact exchange (by decide) bland plain ((same.cons ',').append text)

theorem ElementCall.interchangeable_behindDot {call : ElementCall} {indent unit other deeper : Text}
    (blank : ∀ c ∈ indent, isSpace c = true) (spaces : ∀ c ∈ unit, isSpace c = true)
    (blanks : ∀ c ∈ other, isSpace c = true) (deeps : ∀ c ∈ deeper, isSpace c = true)
    (opened : ∃ table list, call.props = propsOfList table list)
    (quoted : ∀ children ∈ call.children, ∃ text, children = '\'' :: text) (rest : Text) :
    Interchangeable (call.behindDot indent unit ++ rest) (call.behindDot other deeper ++ rest) := by
  obtain ⟨receiver, tag, props, children⟩ := call
  obtain ⟨table, list, rfl⟩ := opened
  have newline : Bland ['\n'] := ⟨by decide, by decide⟩
  have line := newline.append ((bland_of_isSpace blank).append (bland_of_isSpace spaces))
  have line' := newline.append ((bland_of_isSpace blanks).append (bland_of_isSpace deeps))
  cases children with
  | none => exact fun _ _ => rfl
  | some children =>
    obtain ⟨text, rfl⟩ := quoted children rfl
    have last : Interchangeable ('\n' :: indent ++ ')' :: rest) ('\n' :: other ++ ')' :: rest) :=
      .exchange (by decide) (newline.append (bland_of_isSpace blank))
        (newline.append (bland_of_isSpace blanks)) fun _ _ => rfl
    have content := Interchangeable.exchange (c := '\'') (by decide) line line' (last.append text)
    have props := Interchangeable.props table list line line' content
    have name := Interchangeable.exchange (c := '\'') (by decide) line line'
      (((props.cons ',').cons '\'').append tag)
    simpa [behindDot] using (name.cons '(').append "createElement".toList

/-- A statement of the first pass is written interchangeably in any two styles. -/
theorem Segment.interchangeable_render {style other : CallStyle} (regular : style.Regular)
    (plain : other.Regular) (table : Option ExpressionTable) {found : ReturnStatement}
    (indented : ∀ c ∈ found.indent, isIndent c = true) :
    Interchangeable (Segment.render ⟨style, table⟩ (.statement found))
      (Segment.render ⟨other, table⟩ (.statement found)) := by
  have text : ∀ style, Segment.render ⟨style, table⟩ (.statement found) =
      found.indent ++ (keyword ++ ' ' :: (Converter.convert ⟨style, table⟩ (Text.trim found.markup)
        (found.indent ++ style.indentUnit) ++ [';'])) := by
    intro style
    simpa using Segment.render_statement_append ⟨style, table⟩ found []
  rw [text, text]
  refine ((Interchangeable.cons ?_ ' ').append keyword).append found.indent
  simp only [Converter.convert]
  cases Element.parse? (Text.trim (Text.trim found.markup)) with
  | none => exact fun _ _ => rfl
  | some element =>
    have deeper : ∀ {style : CallStyle}, style.Regular →
        ∀ c ∈ found.indent ++ style.indentUnit, isSpace c = true := fun regular c member =>
      (List.mem_append.mp member).elim (fun inside => isSpace_of_isIndent (indented c inside))
        (regular.unit c)
    have call := ElementCall.interchangeable_behindDot (deeper regular) regular.unit (deeper plain)
      plain.unit ⟨table, element.attributes, rfl⟩
      (Converter.exists_quoted_of_mem_children ⟨style, table⟩ element) [';']
    dsimp only
    rw [ElementCall.render_eq, ElementCall.render_eq, List.append_assoc, List.append_assoc]
    exact .exchange (by decide) regular.bland_receiver plain.bland_receiver call

/-! ## Both passes -/

theorem Converter.count_restyled {style other : CallStyle} (regular : style.Regular)
    (plain : other.Regular) (table : Option ExpressionTable) (text : Text) :
    (Converter.convertReturns ⟨style, table⟩ text).count =
      (Converter.convertReturns ⟨other, table⟩ text).count := by
  induction text using statement_induction parenthesized with
  | silent text silent =>
    rw [Converter.convertReturns_of_silent _ silent, Converter.convertReturns_of_silent _ silent]
    rfl
  | step found block after rest first induction =>
    obtain ⟨_, _, _, -, indented, -⟩ := exists_of_parenthesized? first.matched
    have written := Segment.interchangeable_render regular plain table indented ⟨style, table⟩ block
    rw [first.convertReturns_eq, first.convertReturns_eq]
    simp only [Converted.append, induction]
    exact congrArg (· + _) written

/-- Two styles of code never differ in what is recognised: as many statements are converted, with
any table, and as many expressions are masked. -/
theorem lower_restyled {style other : CallStyle} (regular : style.Regular) (plain : other.Regular) :
    (∀ table text, (Converter.convertReturns ⟨style, table⟩ text).count =
        (Converter.convertReturns ⟨other, table⟩ text).count) ∧
      ∀ source, (lower style source).statements = (lower other source).statements ∧
        (lower style source).expressions = (lower other source).expressions :=
  ⟨Converter.count_restyled regular plain, fun source =>
    ⟨Converter.count_restyled regular plain (some (mask source).table) (mask source).text, rfl⟩⟩

/-- A receiver with the letters of the keyword, and indentation that breaks lines. -/
def returningStyle : CallStyle :=
  { receiver := "return.h".toList, indentUnit := "\n\t".toList }

/-- A statement that is counted again, and one whose children and expression hold statements. -/
def restyledSource : Text :=
  "return (\n<a>x</b>\n);\n".toList ++
    "return (\n<p a=\x7b\nreturn <i>y</i>;\n\x7d>\nreturn <b>;</p>\n);\n".toList

theorem lower_restyled_restyledSource :
    CallStyle.Regular {} ∧ returningStyle.Regular ∧
      (lower {} restyledSource).output ≠ (lower returningStyle restyledSource).output ∧
      (lower {} restyledSource).statements = (lower returningStyle restyledSource).statements ∧
      (lower {} restyledSource).expressions =
        (lower returningStyle restyledSource).expressions := by
  have path : (returningStyle.receiver.all fun c => isWord c || c = '.') = true := by decide +kernel
  have regular : returningStyle.Regular :=
    ⟨by simpa using List.all_eq_true.mp path, List.all_eq_true.mp (by decide +kernel)⟩
  exact ⟨CallStyle.plain_default.toRegular, regular, by decide +kernel,
    (lower_restyled CallStyle.plain_default.toRegular regular).2 restyledSource⟩

end JsxCalls
