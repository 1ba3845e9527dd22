import JsxCalls.Proofs.MarkupOpening

/-!
# What conversion leaves untouched

A converted text differs from the text only in stretches that begin with a return of markup at the
start of a line and end with a semicolon. Each is written anew with the same indentation, the
keyword and a semicolon at the end. The second pass may find a statement that begins in kept text
and ends in a statement of the first pass: then the two stretches are one.
-/

namespace JsxCalls

open ReturnStatement

/-! ## Revised texts -/

/-- A stretch that begins with a return of markup, and what is written in its place. -/
structure Rewriting extends MarkupOpening where
  /-- What stands between the bracket and the last semicolon. -/
  markup : Text
  /-- What is written between the keyword and the last semicolon. -/
  value : Text

namespace Rewriting

/-- The stretch as it stands. -/
def old (rewriting : Rewriting) : Text :=
  rewriting.text ++ (rewriting.markup ++ [';'])

/-- The stretch as it is written anew. -/
def new (rewriting : Rewriting) : Text :=
  rewriting.indent ++ (keyword ++ ' ' :: (rewriting.value ++ [';']))

theorem old_ne_nil (rewriting : Rewriting) : rewriting.old ≠ [] := by
  simp [old]

theorem getLast?_new (rewriting : Rewriting) : rewriting.new.getLast? = some ';' := by
  simp [new, List.getLast?_append, List.getLast?_cons]

end Rewriting

/-- A text in which some stretches are written anew. -/
abbrev Revision := List (Piece Rewriting)

namespace Revision

def before (revision : Revision) : Text :=
  revision.flatMap (Piece.replaced Rewriting.old)

def after (revision : Revision) : Text :=
  revision.flatMap (Piece.replaced Rewriting.new)

/-- Every stretch begins at the start of a line. -/
def AtLines (revision : Revision) : Prop :=
  ∀ left rewriting right, revision = left ++ .item rewriting :: right →
    Text.WholeLines (before left)

@[simp]
theorem before_append (left right : Revision) :
    before (left ++ right) = before left ++ before right :=
  List.flatMap_append

@[simp]
theorem after_append (left right : Revision) :
    after (left ++ right) = after left ++ after right :=
  List.flatMap_append

@[simp]
theorem before_map_char (text : Text) : before (text.map .char) = text := by
  induction text with
  | nil => rfl
  | cons c text induction => exact congrArg (c :: ·) induction

@[simp]
theorem after_map_char (text : Text) : after (text.map .char) = text := by
  induction text with
  | nil => rfl
  | cons c text induction => exact congrArg (c :: ·) induction

theorem eq_nil_of_before_eq_nil {revision : Revision} (empty : before revision = []) :
    revision = [] := by
  cases revision with
  | nil => rfl
  | cons piece revision =>
    have first : piece.replaced Rewriting.old = [] := (List.append_eq_nil_iff.mp empty).1
    cases piece with
    | char c => exact absurd first (List.cons_ne_nil _ _)
    | item rewriting => exact absurd first rewriting.old_ne_nil

theorem AtLines.append {left right : Revision} (first : AtLines left) (second : AtLines right)
    (line : Text.WholeLines (before left) ∨ ∀ rewriting, .item rewriting ∉ right) :
    AtLines (left ++ right) := by
  intro front rewriting back split
  rcases List.append_eq_append_iff.mp split with
    ⟨middle, rfl, right_eq⟩ | ⟨middle, left_eq, back_eq⟩
  · have whole := line.resolve_right fun none => none rewriting (by simp [right_eq])
    rw [before_append]
    exact whole.append (second middle rewriting back right_eq)
  · cases middle with
    | nil =>
      obtain rfl : .item rewriting :: back = right := back_eq
      have whole := line.resolve_right fun none => none rewriting List.mem_cons_self
      rwa [left_eq, List.append_nil] at whole
    | cons piece middle =>
      obtain ⟨rfl, -⟩ := List.cons.inj back_eq
      exact first front rewriting middle left_eq

theorem atLines_map_char (text : Text) : AtLines (text.map .char) := by
  intro left rewriting right split
  have member : .item rewriting ∈ (text.map .char : Revision) := by simp [split]
  simp at member

end Revision

/-- The new text is the old one, except for stretches that are written anew: each begins with a
return of markup at the start of a line of the old text. -/
def Revises (old new : Text) : Prop :=
  ∃ revision : Revision, revision.before = old ∧ revision.after = new ∧ revision.AtLines

namespace Revises

variable {old new more later : Text}

theorem refl (text : Text) : Revises text text :=
  ⟨text.map .char, Revision.before_map_char text, Revision.after_map_char text,
    Revision.atLines_map_char text⟩

theorem append_text (revises : Revises old new) (text : Text) :
    Revises (old ++ text) (new ++ text) := by
  obtain ⟨revision, rfl, rfl, lines⟩ := revises
  refine ⟨revision ++ text.map .char, by simp, by simp,
    lines.append (Revision.atLines_map_char text) (.inr fun rewriting member => ?_)⟩
  simp at member

theorem append (first : Revises old new) (second : Revises more later)
    (line : Text.WholeLines old ∨ more = []) : Revises (old ++ more) (new ++ later) := by
  obtain ⟨left, rfl, rfl, lines⟩ := first
  obtain ⟨right, rfl, rfl, others⟩ := second
  refine ⟨left ++ right, by simp, by simp, lines.append others (line.imp_right fun empty => ?_)⟩
  rw [Revision.eq_nil_of_before_eq_nil empty]
  exact fun _ => List.not_mem_nil

theorem rewriting (rewriting : Rewriting) : Revises rewriting.old rewriting.new := by
  refine ⟨[.item rewriting], by simp [Revision.before, Piece.replaced],
    by simp [Revision.after, Piece.replaced], ?_⟩
  intro left other right split
  cases left with
  | nil => exact .inl rfl
  | cons piece left => simp at split

end Revises

/-! ## How a converted text begins and ends -/

namespace Converter

variable (converter : Converter) {form : Pattern ReturnStatement} (isForm : IsForm form)
include isForm

/-- A pass keeps the last character of a text. -/
theorem getLast?_convertForm (text : Text) :
    (converter.convertForm form text).text.getLast? = text.getLast? := by
  have goes_on : ∀ rest : Text,
      (converter.convertForm form (Text.dropLine rest)).text.getLast? =
        (Text.dropLine rest).getLast? →
      (converter.resume form rest).text.getLast? = rest.getLast? := by
    intro rest later
    rw [resume, Converted.behind, List.getLast?_append, later, ← List.getLast?_append,
      Text.takeLine_append_dropLine]
  by_cases empty : text = []
  · rw [empty, converter.convertForm_nil]
  · cases matched : form.start? text with
    | none =>
      have shorter : (Text.dropLine text).length < text.length := Text.length_dropLine_lt empty
      rw [converter.convertForm_eq_resume matched]
      exact goes_on text (getLast?_convertForm (Text.dropLine text))
    | some result =>
      obtain ⟨found, rest⟩ := result
      have shorter : (Text.dropLine rest).length < text.length :=
        Nat.lt_of_le_of_lt (Text.length_dropLine_le rest) (form.shorter matched)
      obtain ⟨gap, opening, closing, stands⟩ := isForm matched
      obtain ⟨value, written⟩ := Segment.exists_render_eq converter found
      rw [converter.convertForm_eq_resume_behind matched, Converted.text, List.getLast?_append,
        goes_on rest (getLast?_convertForm (Text.dropLine rest)), written, stands.text_eq]
      simp [List.getLast?_append, List.getLast?_cons]
termination_by text.length

/-- A pass keeps the beginning of a line with the keyword. -/
theorem exists_convertForm_keyword {indent : Text} (indented : ∀ c ∈ indent, isIndent c = true)
    (text : Text) :
    ∃ others, (converter.convertForm form (indent ++ (keyword ++ ' ' :: text))).text =
      indent ++ (keyword ++ ' ' :: others) := by
  cases matched : form.start? (indent ++ (keyword ++ ' ' :: text)) with
  | none =>
    have within : '\n' ∉ indent ++ (keyword ++ [' ']) := by
      simpa using newline_notMem_indent_keyword indented
    have split : indent ++ (keyword ++ ' ' :: text) = (indent ++ (keyword ++ [' '])) ++ text := by
      simp
    refine ⟨(converter.resume form text).text, ?_⟩
    rw [converter.convertForm_eq_resume matched, split, converter.resume_append within,
      Converted.behind]
    simp
  | some result =>
    obtain ⟨found, rest⟩ := result
    have same := isForm.indent_eq indented matched
    obtain ⟨value, written⟩ := Segment.exists_render_eq converter found
    refine ⟨value ++ ';' :: (converter.resume form rest).text, ?_⟩
    rw [converter.convertForm_eq_resume_behind matched, Converted.text, written, same]
    simp

end Converter

/-- A stretch may be written anew as any text that keeps its indentation, the keyword and the
semicolon. -/
theorem Revises.of_getLast? (opening : MarkupOpening) (markup others : Text)
    (ends : (opening.indent ++ (keyword ++ ' ' :: others)).getLast? = some ';') :
    Revises (opening.text ++ (markup ++ [';'])) (opening.indent ++ (keyword ++ ' ' :: others)) := by
  rcases List.eq_nil_or_concat others with rfl | ⟨value, last, rfl⟩
  · simp [List.getLast?_append] at ends
  · obtain rfl : last = ';' := by simpa [List.getLast?_append, List.getLast?_cons] using ends
    rw [List.concat_eq_append]
    exact .rewriting { opening with markup, value }

/-! ## The second pass up to a written statement -/

/-- What stands behind a block of lines when the second pass comes to it: nothing, or a statement
that the first pass has written at the start of a line. -/
inductive Ending (block : Text) : Text → Text → Prop
  | nothing : Ending block [] []
  | statement (whole : Text.WholeLines block) (rewriting : Rewriting) :
      Ending block rewriting.old rewriting.new

namespace Ending

variable {block old new : Text}

theorem dropLine (ending : Ending block old new) : Ending (Text.dropLine block) old new := by
  cases ending with
  | nothing => exact .nothing
  | statement whole rewriting => exact .statement whole.dropLine rewriting

theorem broken (ending : Ending block old new) (filled : block ≠ []) : '\n' ∈ block ∨ new = [] := by
  cases ending with
  | nothing => exact .inr rfl
  | statement whole rewriting =>
    obtain ⟨front, rfl⟩ := whole.resolve_left filled
    exact .inl (by simp)

/-- What is left of the block behind a semicolon still ends its last line. -/
theorem behind_semicolon {front behind : Text} (ending : Ending (front ++ ';' :: behind) old new) :
    Ending behind old new ∧ ('\n' ∈ behind ∨ new = []) := by
  cases ending with
  | nothing => exact ⟨.nothing, .inr rfl⟩
  | statement whole rewriting =>
    obtain ⟨line, equal⟩ := whole.resolve_left (by simp)
    rcases List.eq_nil_or_concat behind with rfl | ⟨kept, last, rfl⟩
    · exact absurd (List.singleton_inj.mp (List.append_inj_right' equal rfl)) (by decide)
    · have ends : (front ++ ';' :: kept) ++ [last] = line ++ ['\n'] := by simpa using equal
      obtain rfl : last = '\n' := List.singleton_inj.mp (List.append_inj_right' ends rfl)
      exact ⟨.statement (.inr ⟨kept, by simp⟩) rewriting, .inl (by simp)⟩

/-- Behind a revised text the pass goes on to the next line. -/
theorem revises_resume (ending : Ending block old new) (broken : '\n' ∈ block ∨ new = [])
    {front revised : Text} (first : Revises front revised) {converter : Converter}
    (later : Revises (Text.dropLine block ++ old)
      (converter.convertForm inline (Text.dropLine block ++ new)).text) :
    Revises (front ++ (block ++ old))
      (revised ++ (converter.resume inline (block ++ new)).text) := by
  have line : Text.takeLine (block ++ new) = Text.takeLine block ∧
      Text.dropLine (block ++ new) = Text.dropLine block ++ new := by
    rcases broken with inside | rfl
    · exact Text.takeLine_append inside new
    · simp
  have whole : Text.WholeLines (front ++ Text.takeLine block) ∨
      Text.dropLine block ++ old = [] := by
    by_cases last : Text.dropLine block = []
    · cases ending with
      | nothing => exact .inr (by simp [last])
      | statement whole rewriting =>
        have only := Text.takeLine_append_dropLine block
        rw [last, List.append_nil] at only
        have inside := broken.resolve_right (by simp [Rewriting.new])
        obtain ⟨start, equal⟩ := whole.resolve_left (List.ne_nil_of_mem inside)
        exact .inl (.inr ⟨front ++ start, by rw [only, equal, List.append_assoc]⟩)
    · obtain ⟨start, equal⟩ := Text.exists_takeLine_eq last
      exact .inl (.inr ⟨front ++ start, by rw [equal, List.append_assoc]⟩)
  have joined := (first.append_text (Text.takeLine block)).append later whole
  have old_eq : front ++ Text.takeLine block ++ (Text.dropLine block ++ old) =
      front ++ (block ++ old) := by
    rw [List.append_assoc, ← List.append_assoc (Text.takeLine block),
      Text.takeLine_append_dropLine]
  rw [old_eq, List.append_assoc] at joined
  rw [Converter.resume, Converted.behind, line.1, line.2]
  exact joined

end Ending

/-- The keyword, white space and a bracket at the start of a text are one before a line break. -/
theorem exists_opening_of_append {indent gap block behind rest : Text}
    (equal : block ++ behind = indent ++ (keyword ++ (gap ++ '<' :: rest)))
    (indented : ∀ c ∈ indent, isIndent c = true) (spaces : ∀ c ∈ gap, isSpace c = true)
    (broken : ∃ line, block = line ++ ['\n'])
    (visible : (behind.dropWhile isSpace).head? ≠ some '<') :
    ∃ inside, block = indent ++ (keyword ++ (gap ++ '<' :: inside)) ∧ rest = inside ++ behind := by
  obtain ⟨line, rfl⟩ := broken
  have split : line ++ ['\n'] ++ behind = (indent ++ (keyword ++ gap)) ++ '<' :: rest := by
    simpa using equal
  rcases List.append_eq_append_iff.mp split with
    ⟨middle, head_eq, behind_eq⟩ | ⟨middle, block_eq, rest_eq⟩
  · -- The line break is part of the gap, so the text behind the block begins with the bracket.
    have cut : line ++ '\n' :: middle = (indent ++ keyword) ++ gap := by
      simpa using head_eq.symm
    obtain ⟨between, -, gap_eq⟩ :=
      Text.exists_append_of_separator (newline_notMem_indent_keyword indented) cut
    have blank : ∀ c ∈ middle, isSpace c = true := fun c member =>
      spaces c (by simp [gap_eq, member])
    rw [behind_eq, Text.dropWhile_run blank (Text.stopsRun_cons (by decide) rest)] at visible
    exact absurd rfl visible
  · cases middle with
    | nil =>
      obtain rfl : '<' :: rest = behind := rest_eq
      rw [Text.dropWhile_eq_self (Text.stopsRun_cons (by decide) rest)] at visible
      exact absurd rfl visible
    | cons c inside =>
      obtain ⟨rfl, behind_eq⟩ := List.cons.inj rest_eq
      exact ⟨inside, by simpa using block_eq, behind_eq⟩

theorem Rewriting.head?_dropWhile_new (rewriting : Rewriting) :
    (rewriting.new.dropWhile isSpace).head? = some 'r' := by
  have stops : Text.StopsRun isSpace (keyword ++ ' ' :: (rewriting.value ++ [';'])) :=
    Text.stopsRun_cons (by decide) _
  rw [new, Text.dropWhile_run (fun c member => isSpace_of_isIndent (rewriting.indented c member))
    stops]
  rfl

theorem Ending.ne_semicolon {block old new : Text} (ending : Ending block old new) (rest : Text) :
    new ≠ ';' :: rest := by
  cases ending with
  | nothing => exact (List.cons_ne_nil _ _).symm
  | statement _ rewriting =>
    intro equal
    have first := rewriting.head?_dropWhile_new
    rw [equal, Text.dropWhile_eq_self (Text.stopsRun_cons (by decide) rest)] at first
    exact absurd first (by simp)

/-- A written statement that the second pass reads is one stretch again. -/
theorem Rewriting.revises_convertForm (converter : Converter) (rewriting : Rewriting) :
    Revises rewriting.old (converter.convertForm inline rewriting.new).text := by
  obtain ⟨others, text⟩ := converter.exists_convertForm_keyword isForm_inline
    rewriting.indented (rewriting.value ++ [';'])
  have last := converter.getLast?_convertForm isForm_inline rewriting.new
  rw [rewriting.getLast?_new, new, text] at last
  rw [new, text]
  exact .of_getLast? rewriting.toMarkupOpening rewriting.markup others last

/-- A statement that begins before a written one and ends in it is one stretch with it. -/
theorem Rewriting.revises_across (converter : Converter) (rewriting : Rewriting)
    {block rest : Text} {found : ReturnStatement} (broken : ∃ line, block = line ++ ['\n'])
    (matched : inline.start? (block ++ rewriting.new) = some (found, rest)) :
    Revises (block ++ rewriting.old)
      (converter.convertForm inline (block ++ rewriting.new)).text := by
  obtain ⟨gap, content, equal, indented, filled, spaces, -⟩ := inline?_eq_some_iff.mp matched
  obtain ⟨inside, block_eq, -⟩ := exists_opening_of_append equal indented spaces broken
    (by rw [rewriting.head?_dropWhile_new]; decide)
  obtain ⟨value, written⟩ := Segment.exists_render_eq converter found
  have goes_on := congrArg Converted.text (converter.convertForm_eq_resume_behind matched)
  have last := converter.getLast?_convertForm isForm_inline (block ++ rewriting.new)
  rw [List.getLast?_append, rewriting.getLast?_new, goes_on, written] at last
  have revised := Revises.of_getLast?
    ⟨found.indent, gap, [], indented, filled, spaces, .inl rfl⟩
    (inside ++ (rewriting.text ++ rewriting.markup))
    (value ++ ';' :: (converter.resume inline rest).text) (by simpa using last)
  rw [goes_on, written]
  simpa [old, MarkupOpening.text, block_eq] using revised

/-- The second pass revises a block of lines together with what stands behind it. -/
theorem Ending.revises (converter : Converter) {block old new : Text}
    (ending : Ending block old new) :
    Revises (block ++ old) (converter.convertForm inline (block ++ new)).text := by
  by_cases empty : block = []
  · subst empty
    cases ending with
    | nothing => exact (converter.convertForm_nil) ▸ Revises.refl []
    | statement _ rewriting =>
      rw [List.nil_append, List.nil_append]
      exact rewriting.revises_convertForm converter
  · cases matched : inline.start? (block ++ new) with
    | none =>
      have shorter : (Text.dropLine block).length < block.length := Text.length_dropLine_lt empty
      rw [converter.convertForm_eq_resume matched]
      exact ending.revises_resume (ending.broken empty) (.refl [])
        (ending.dropLine.revises converter)
    | some result =>
      obtain ⟨found, rest⟩ := result
      obtain ⟨gap, content, equal, indented, filled, spaces, -, -, -⟩ :=
        inline?_eq_some_iff.mp matched
      obtain ⟨value, written⟩ := Segment.exists_render_eq converter found
      let opening : MarkupOpening := ⟨found.indent, gap, [], indented, filled, spaces, .inl rfl⟩
      have text : block ++ new = (opening.text ++ (content ++ ['>'])) ++ ';' :: rest := by
        simpa [MarkupOpening.text, opening] using equal
      have goes_on := congrArg Converted.text (converter.convertForm_eq_resume_behind matched)
      rcases List.append_eq_append_iff.mp text with ⟨_, -, new_eq⟩ | ⟨middle, block_eq, rest_eq⟩
      · -- The statement ends in the one that the first pass has written.
        cases ending with
        | nothing => simp at new_eq
        | statement whole rewriting =>
          exact rewriting.revises_across converter (whole.resolve_left empty) matched
      · cases middle with
        | nil => exact absurd rest_eq.symm (ending.ne_semicolon rest)
        | cons c behind =>
          obtain ⟨rfl, rfl⟩ : ';' = c ∧ rest = behind ++ new := by simpa using rest_eq
          rw [block_eq] at ending
          obtain ⟨later, broken⟩ := ending.behind_semicolon
          have shorter : (Text.dropLine behind).length < block.length := by
            have := Text.length_dropLine_le behind
            simp only [block_eq, List.length_append, List.length_cons]
            omega
          have revised := later.revises_resume broken
            (.rewriting { opening with markup := content ++ ['>'], value })
            (later.dropLine.revises converter)
          rw [goes_on, written, block_eq]
          simpa [Rewriting.old, Rewriting.new, MarkupOpening.text, opening] using revised
termination_by block.length

/-! ## Both passes -/

theorem exists_rewriting_of_parenthesized? (converter : Converter) {text rest : Text}
    {found : ReturnStatement} (matched : parenthesized.start? text = some (found, rest)) :
    ∃ rewriting : Rewriting, text = rewriting.old ++ rest ∧
      rewriting.new = Segment.render converter (.statement found) := by
  obtain ⟨gap, before, last, text_eq, indented, filled, spaces, opens, ⟨content, bracketed⟩, -⟩ :=
    exists_of_parenthesized? matched
  obtain ⟨value, written⟩ := Segment.exists_render_eq converter found
  refine ⟨⟨⟨found.indent, gap, '(' :: before, indented, filled, spaces, .inr ⟨before, rfl, opens⟩⟩,
    content ++ '>' :: (last ++ [')']), value⟩, ?_, ?_⟩
  · simp [Rewriting.old, MarkupOpening.text, text_eq, bracketed]
  · simp [Rewriting.new, written]

theorem Converter.revises_convertReturns (converter : Converter) (text : Text) :
    Revises text (converter.convertReturns text).text := by
  induction text using statement_induction parenthesized with
  | silent text silent =>
    rw [converter.convertReturns_of_silent silent]
    have ending : Ending text [] [] := .nothing
    simpa using ending.revises converter
  | step found block after rest first induction =>
    obtain ⟨rewriting, after_eq, new_eq⟩ :=
      exists_rewriting_of_parenthesized? converter first.matched
    have statement := (Ending.statement first.whole rewriting).revises converter
    have line := statement.append_text (Text.takeLine rest)
    rw [first.convertReturns_eq converter, ← new_eq, Converted.append]
    have split : block ++ after =
        block ++ rewriting.old ++ Text.takeLine rest ++ Text.dropLine rest := by
      rw [after_eq, List.append_assoc _ (Text.takeLine rest), Text.takeLine_append_dropLine,
        List.append_assoc]
    rw [split, ← List.append_assoc]
    refine line.append induction ?_
    by_cases last : Text.dropLine rest = []
    · exact .inr last
    · obtain ⟨start, equal⟩ := Text.exists_takeLine_eq last
      exact .inl (.inr ⟨block ++ rewriting.old ++ start, by rw [equal, ← List.append_assoc]⟩)

/-- Text outside returns of markup is untouched. A text without such a return comes back as it is,
and no statement is counted. -/
theorem Converter.convertReturns_untouched (converter : Converter) (text : Text) :
    Revises text (converter.convertReturns text).text ∧
      (¬ OpensMarkup text → converter.convertReturns text = ⟨text, 0⟩) :=
  ⟨converter.revises_convertReturns text, converter.convertReturns_of_not_opensMarkup⟩

/-- A parenthesis without markup is no return of markup. -/
theorem Converter.convertReturns_untouched_total :
    ¬ OpensMarkup "  return (\n    total\n  );\nreturn 3;\n".toList ∧
      Converter.convertReturns ⟨{}, none⟩ "  return (\n    total\n  );\nreturn 3;\n".toList =
        ⟨"  return (\n    total\n  );\nreturn 3;\n".toList, 0⟩ := by
  have closed : ¬ OpensMarkup "  return (\n    total\n  );\nreturn 3;\n".toList := by
    rintro ⟨before, opening, after, -, equal⟩
    have bracket : '<' ∈ "  return (\n    total\n  );\nreturn 3;\n".toList := by
      rw [equal]
      simp [MarkupOpening.text]
    exact absurd bracket (by decide)
  exact ⟨closed, (Converter.convertReturns_untouched ⟨{}, none⟩ _).2 closed⟩

end JsxCalls
