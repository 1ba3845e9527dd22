import JsxCalls.Proofs.Conservation
import JsxCalls.Proofs.ProgramLowering

/-!
# Lowering again

A lowered source may still hold statements: a statement that ran into the next one is undone only in
part, and an expression that was masked before may be out in the open now. But every run that
changes something makes the source lighter: it has fewer opening brackets, or equally many and less
around them. So a source that is lowered again and again is settled in the end. What a run leaves as
it is can be read off the masked source. A lowered program is settled at once, since no markup is
returned in it any more.
-/

namespace JsxCalls

open Placeholder

/-! ## Lighter texts -/

namespace Text

/-- The weight of a text, in which blanks count least. -/
def weight : Text → Nat
  | [] => 0
  | c :: text => (if c = ' ' then 1 else 2) + weight text

@[simp]
theorem weight_nil : weight [] = 0 := rfl

@[simp]
theorem weight_cons (c : Char) (text : Text) :
    weight (c :: text) = (if c = ' ' then 1 else 2) + weight text := rfl

@[simp]
theorem weight_append (left right : Text) :
    weight (left ++ right) = weight left + weight right := by
  induction left with
  | nil => simp
  | cons c left induction => simp [induction, Nat.add_assoc]

theorem weight_pos {text : Text} (filled : text ≠ []) : 0 < weight text := by
  obtain ⟨c, rest, rfl⟩ := List.exists_cons_of_ne_nil filled
  rw [weight_cons]
  split <;> omega

theorem eq_nil_of_weight_eq_zero {text : Text} (light : weight text = 0) : text = [] := by
  cases text with
  | nil => rfl
  | cons c text => exact absurd light (Nat.ne_of_gt (weight_pos (List.cons_ne_nil c text)))

/-- A single blank is the lightest gap. -/
theorem eq_blank_of_weight_le {gap : Text} (filled : gap ≠ []) (light : weight gap ≤ 1) :
    gap = [' '] := by
  obtain ⟨c, rest, rfl⟩ := List.exists_cons_of_ne_nil filled
  rw [weight_cons] at light
  cases rest with
  | nil =>
    split at light
    · rename_i blank
      rw [blank]
    · omega
  | cons d rest =>
    have more := weight_pos (List.cons_ne_nil d rest)
    split at light <;> omega

/-- The text has fewer opening brackets, or equally many and less weight. -/
def Lighter (text other : Text) : Prop :=
  text.count '<' < other.count '<' ∨ text.count '<' = other.count '<' ∧ text.weight < other.weight

variable {text middle other : Text}

theorem Lighter.trans (first : Lighter text middle) (second : Lighter middle other) :
    Lighter text other := by
  unfold Lighter at *
  omega

theorem Lighter.ne (lighter : Lighter text other) : text ≠ other := by
  rintro rfl
  unfold Lighter at lighter
  omega

theorem Lighter.append_left (lighter : Lighter text other) (front : Text) :
    Lighter (front ++ text) (front ++ other) := by
  unfold Lighter at *
  simp only [List.count_append, weight_append]
  omega

end Text

/-! ## Texts that a pass keeps -/

/-- The statement as a converter writes it that leaves its markup as it is. -/
def ReturnStatement.written (found : ReturnStatement) : Text :=
  found.indent ++ (keyword ++ ' ' :: (found.markup ++ [';']))

/-- Every statement that is found is written as it stands: its markup is no element, and nothing
but a blank stands before it. -/
inductive Kept (form : Pattern ReturnStatement) : Text → Prop
  | nil : Kept form []
  | line {text : Text} (missed : form.start? text = none) (later : Kept form (Text.dropLine text)) :
      Kept form text
  | statement {found : ReturnStatement} {rest : Text}
      (matched : form.start? (found.written ++ rest) = some (found, rest))
      (unread : Element.parse? found.markup = none) (later : Kept form (Text.dropLine rest)) :
      Kept form (found.written ++ rest)

/-- Neither pass changes the masked text. -/
def Settled (text : Text) : Prop :=
  Kept ReturnStatement.parenthesized text ∧ Kept ReturnStatement.inline text

theorem Converter.render_of_unread (converter : Converter) {found : ReturnStatement}
    (bracketed : ∃ content, found.markup = '<' :: (content ++ ['>']))
    (unread : Element.parse? found.markup = none) :
    Segment.render converter (.statement found) = found.written := by
  obtain ⟨content, equal⟩ := bracketed
  rw [equal] at unread
  simp [Segment.render, convert, ReturnStatement.written, equal, Text.trim_bracketed, unread]

theorem Kept.convertForm_eq {form : Pattern ReturnStatement}
    (isForm : ReturnStatement.IsForm form) {text : Text} (kept : Kept form text)
    (converter : Converter) : (converter.convertForm form text).text = text := by
  induction kept with
  | nil => rw [converter.convertForm_nil]
  | @line text missed _ later =>
    rw [converter.convertForm_eq_resume missed, Converter.resume, Converted.behind, later,
      Text.takeLine_append_dropLine]
  | @statement found rest matched unread _ later =>
    obtain ⟨gap, opening, closing, stands⟩ := isForm matched
    rw [converter.convertForm_eq_resume_behind matched,
      converter.render_of_unread stands.bracketed unread, Converter.resume, Converted.behind, later,
      Text.takeLine_append_dropLine]

/-! ## One pass -/

namespace ReturnStatement

variable {found : ReturnStatement} (table : ExpressionTable)

theorem restore_keyword : table.restore keyword = keyword :=
  restoreFrom_eq_self not_mark_infix_keyword 0 table.entries

theorem Stands.restore_eq {gap opening closing text rest : Text}
    (stands : found.Stands gap opening closing text rest) :
    table.restore text = found.indent ++ (keyword ++ (gap ++ (opening ++
      (table.restore found.markup ++
      (closing ++ ';' :: table.restore rest))))) := by
  have opening_signs : ∀ c ∈ opening, isWord c = false := fun c member =>
    (stands.isJoint_opening c member).1
  have closing_signs : ∀ c ∈ closing, isWord c = false := fun c member =>
    (stands.isJoint_closing c member).1
  have indent_signs : ∀ c ∈ found.indent, isWord c = false := fun c member =>
    isWord_of_isIndent (stands.indented c member)
  have gap_signs : ∀ c ∈ gap, isWord c = false := fun c member =>
    isWord_of_isSpace (stands.spaces c member)
  -- The markup ends with a bracket, so it is restored apart from what follows.
  have apart : ∀ behind, table.restore (found.markup ++ behind) =
      table.restore found.markup ++ table.restore behind := by
    intro behind
    obtain ⟨content, bracketed⟩ := stands.bracketed
    have ends := table.restore_append_cons (show isWord '>' = false by decide) ('<' :: content) []
    have goesOn := table.restore_append_cons (show isWord '>' = false by decide) ('<' :: content)
      behind
    rw [table.restore_nil] at ends
    rw [bracketed, ← List.cons_append, ends, List.append_assoc, List.append_assoc]
    exact goesOn
  obtain ⟨blank, others, rfl⟩ := List.exists_cons_of_ne_nil stands.filled
  obtain ⟨sign, signs⟩ := List.forall_mem_cons.mp gap_signs
  rw [stands.text_eq, table.restore_signs_append indent_signs, List.cons_append,
    table.restore_append_cons sign, restore_keyword, table.restore_signs_append signs,
    table.restore_signs_append opening_signs, apart, table.restore_signs_append closing_signs,
    table.restore_cons (by decide), List.cons_append]

theorem restore_render (style : CallStyle) (indented : ∀ c ∈ found.indent, isIndent c = true)
    (rest : Text) :
    table.restore (Segment.render ⟨style, some table⟩ (.statement found) ++ rest) =
      found.indent ++ (keyword ++ ' ' :: (table.restore (Converter.convert ⟨style, some table⟩
        (Text.trim found.markup) (found.indent ++ style.indentUnit)) ++
          ';' :: table.restore rest)) := by
  rw [Segment.render_statement_append,
    table.restore_signs_append fun c member => isWord_of_isIndent (indented c member),
    table.restore_append_cons (by decide), restore_keyword, table.restore_append_cons (by decide)]

end ReturnStatement

/-- The new text is the old one, and this was kept; or it is lighter when both are restored. -/
def KeptOrLighter (table : ExpressionTable) (kept : Prop) (new old : Text) : Prop :=
  kept ∧ new = old ∨ Text.Lighter (table.restore new) (table.restore old)

section Pass

variable {table : ExpressionTable} (unmarked : table.Unmarked) {style : CallStyle}
  (clear : style.Clear)
include unmarked clear

/-- A call has fewer opening brackets than its element, also when the expressions are back. -/
theorem Spells.count_convert_lt {numbers : List Nat} {content : Text} {element : Element}
    (spells : Spells table.entries.length numbers ('<' :: (content ++ ['>'])))
    (parsed : Element.parse? ('<' :: (content ++ ['>'])) = some element) {indent : Text}
    (indented : ∀ c ∈ indent, isSpace c = true) :
    (table.restore (Converter.convert ⟨style, some table⟩ (Text.trim ('<' :: (content ++ ['>'])))
      indent)).count '<' < (table.restore ('<' :: (content ++ ['>']))).count '<' := by
  obtain ⟨readable, gap, equal, spaces⟩ := Element.exists_of_parse? parsed
  rw [spells.count_restore unmarked, Converter.convert, Text.trim_bracketed, Text.trim_bracketed,
    parsed]
  rw [equal] at spells ⊢
  rw [spells_append_signs_iff fun c member => isWord_of_isSpace (spaces c member)] at spells
  obtain ⟨openings, less, carried, carries, known, -⟩ :=
    readable.conveys unmarked clear spells indented
  have bounded := carries.bounded
  have fewer := table.openings_le known
  rw [List.count_append]
  dsimp only
  omega

omit unmarked clear in
/-- A pass that comes to a text within a line keeps it or makes it lighter. -/
theorem Spells.keptOrLighter_resume {form : Pattern ReturnStatement} {numbers : List Nat}
    {text : Text} (spells : Spells table.entries.length numbers text)
    (later : ∀ {others}, Spells table.entries.length others (Text.dropLine text) →
      KeptOrLighter table (Kept form (Text.dropLine text))
        (Converter.convertForm ⟨style, some table⟩ form (Text.dropLine text)).text
        (Text.dropLine text)) :
    KeptOrLighter table (Kept form (Text.dropLine text))
      (Converter.resume ⟨style, some table⟩ form text).text text := by
  have whole := Text.takeLine_append_dropLine text
  rw [Converter.resume, Converted.behind]
  by_cases last : Text.dropLine text = []
  · rw [last, List.append_nil] at whole
    rw [last, whole, Converter.convertForm_nil, List.append_nil]
    exact .inl ⟨.nil, rfl⟩
  · obtain ⟨line, taken, split⟩ := Text.exists_eq_append_dropLine last
    have restored := congrArg table.restore split
    rw [table.restore_append_cons (by decide)] at restored
    rw [split] at spells
    obtain ⟨first, second, -, -, behind⟩ := (spells_append_cons_iff (by decide)).mp spells
    rcases later behind with ⟨kept, same⟩ | lighter
    · rw [same, whole]
      exact .inl ⟨kept, rfl⟩
    · right
      have joined := lighter.append_left (table.restore line ++ ['\n'])
      rw [List.append_assoc, List.append_assoc] at joined
      rw [restored, taken, List.append_assoc, List.singleton_append,
        table.restore_append_cons (by decide)]
      exact joined

/-- A statement that becomes a call loses brackets. -/
theorem Spells.lighter_of_parsed {found : ReturnStatement} {gap opening closing text rest : Text}
    (stands : found.Stands gap opening closing text rest) {numbers : List Nat}
    (spells : Spells table.entries.length numbers found.markup) {element : Element}
    (parsed : Element.parse? found.markup = some element) {behind : Text}
    (fewer : (table.restore behind).count '<' ≤ (table.restore rest).count '<') :
    Text.Lighter (table.restore (Segment.render ⟨style, some table⟩ (.statement found) ++ behind))
      (table.restore text) := by
  obtain ⟨content, bracketed⟩ := stands.bracketed
  rw [bracketed] at spells parsed
  have less := spells.count_convert_lt unmarked clear parsed (clear.isSpace_deeper stands.indented)
  left
  rw [stands.restore_eq table,
    ReturnStatement.restore_render table style stands.indented, bracketed]
  simp (disch := decide) only [List.count_append, List.count_cons_of_ne]
  omega

omit unmarked clear in
/-- A statement whose markup is no element loses what stands around the markup, except one blank. -/
theorem keptOrLighter_of_unread {form : Pattern ReturnStatement} {found : ReturnStatement}
    {gap opening closing text rest : Text} (stands : found.Stands gap opening closing text rest)
    (matched : form.start? text = some (found, rest))
    (unread : Element.parse? found.markup = none) {behind : Text}
    (later : KeptOrLighter table (Kept form (Text.dropLine rest)) behind rest) :
    KeptOrLighter table (Kept form text)
      (Segment.render ⟨style, some table⟩ (.statement found) ++ behind) text := by
  have old := stands.restore_eq table
  have new := ReturnStatement.restore_render table style stands.indented behind
  have value : Converter.convert ⟨style, some table⟩ (Text.trim found.markup)
      (found.indent ++ style.indentUnit) = found.markup := by
    obtain ⟨content, bracketed⟩ := stands.bracketed
    rw [bracketed] at unread ⊢
    simp [Converter.convert, Text.trim_bracketed, unread]
  rw [value] at new
  have bracketless : gap.count '<' = 0 ∧ opening.count '<' = 0 ∧ closing.count '<' = 0 := by
    simp only [List.count_eq_zero]
    exact ⟨fun member => (isJoint_of_isSpace (stands.spaces _ member)).2 rfl,
      fun member => (stands.isJoint_opening _ member).2 rfl,
      fun member => (stands.isJoint_closing _ member).2 rfl⟩
  have blank := Text.weight_pos stands.filled
  rcases later with ⟨kept, rfl⟩ | lighter
  · by_cases canonical : gap = [' '] ∧ opening = [] ∧ closing = []
    · obtain ⟨rfl, rfl, rfl⟩ := canonical
      have text_eq : text = found.written ++ behind := by
        rw [stands.text_eq]
        simp [ReturnStatement.written]
      rw [Converter.render_of_unread _ stands.bracketed unread, text_eq]
      rw [text_eq] at matched
      exact .inl ⟨.statement matched unread kept, rfl⟩
    · have heavier : 1 < gap.weight + opening.weight + closing.weight := by
        refine Nat.lt_of_not_le fun light => canonical ⟨?_, ?_, ?_⟩
        · exact Text.eq_blank_of_weight_le stands.filled (by omega)
        · exact Text.eq_nil_of_weight_eq_zero (by omega)
        · exact Text.eq_nil_of_weight_eq_zero (by omega)
      refine .inr (.inr ?_)
      rw [old, new]
      simp (disch := decide) only [List.count_append, List.count_cons_of_ne, Text.weight_append,
        Text.weight_cons, if_pos, if_neg]
      omega
  · right
    unfold Text.Lighter at lighter ⊢
    rw [old, new]
    simp (disch := decide) only [List.count_append, List.count_cons_of_ne, Text.weight_append,
      Text.weight_cons, if_pos, if_neg]
    omega

/-- A pass keeps a text, or it makes it lighter. -/
theorem Spells.keptOrLighter_convertForm {form : Pattern ReturnStatement}
    (isForm : ReturnStatement.IsForm form) {numbers : List Nat} {text : Text}
    (spells : Spells table.entries.length numbers text) :
    KeptOrLighter table (Kept form text)
      (Converter.convertForm ⟨style, some table⟩ form text).text text := by
  by_cases empty : text = []
  · subst empty
    exact .inl ⟨.nil, by rw [Converter.convertForm_nil]⟩
  · cases matched : form.start? text with
    | none =>
      have shorter : (Text.dropLine text).length < text.length := Text.length_dropLine_lt empty
      rw [Converter.convertForm_eq_resume _ matched]
      exact (spells.keptOrLighter_resume (Spells.keptOrLighter_convertForm isForm)).imp_left
        fun ⟨kept, same⟩ => ⟨.line matched kept, same⟩
    | some result =>
      obtain ⟨found, rest⟩ := result
      have shorter : (Text.dropLine rest).length < text.length :=
        Nat.lt_of_le_of_lt (Text.length_dropLine_le rest) (form.shorter matched)
      obtain ⟨gap, opening, closing, stands⟩ := isForm matched
      obtain ⟨first, second, -, markup, behind⟩ := stands.exists_spells spells
      have later : KeptOrLighter table (Kept form (Text.dropLine rest))
          (Converter.resume ⟨style, some table⟩ form rest).text rest :=
        behind.keptOrLighter_resume (Spells.keptOrLighter_convertForm isForm)
      rw [Converter.convertForm_eq_resume_behind _ matched]
      cases parsed : Element.parse? found.markup with
      | none => exact keptOrLighter_of_unread stands matched parsed later
      | some element =>
        right
        apply markup.lighter_of_parsed unmarked clear stands parsed
        rcases later with ⟨-, same⟩ | lighter
        · exact Nat.le_of_eq (by rw [same])
        · exact lighter.elim Nat.le_of_lt fun equal => Nat.le_of_eq equal.1
termination_by text.length

end Pass

/-! ## Runs -/

section Run

variable {style : CallStyle} (clear : style.Clear) {source : Text} (unmarked : ¬ mark <:+: source)
include unmarked

theorem restore_mask_of_unmarked : (mask source).table.restore (mask source).text = source := by
  rw [restore_mask_iff]
  apply not_collides
  intro digit _ found
  rw [List.nil_append, written_pieces] at found
  exact unmarked ((List.prefix_append mark ['_', digit]).isInfix.trans found)

theorem output_of_settled (settled : Settled (mask source).text) :
    (lower style source).output = source := by
  obtain ⟨first, second⟩ := settled
  simp only [lower, Converter.convertReturns,
    first.convertForm_eq ReturnStatement.isForm_parenthesized,
    second.convertForm_eq ReturnStatement.isForm_inline]
  exact restore_mask_of_unmarked unmarked

/-- A source in which no markup is returned is left as it is, however calls are written. -/
theorem output_of_not_opensMarkup (closed : ¬ OpensMarkup source) :
    (lower style source).output = source := by
  have kept := fun converter : Converter =>
    converter.convertReturns_of_not_opensMarkup fun opens => closed (opensMarkup_of_mask opens)
  simp only [lower, kept]
  exact restore_mask_of_unmarked unmarked

include clear

/-- One run leaves a settled source as it is, and makes any other source lighter. -/
theorem settled_or_lighter :
    Settled (mask source).text ∨ Text.Lighter (lower style source).output source := by
  have table := unmarked_table unmarked
  have masked := spells_mask unmarked
  have restored := restore_mask_of_unmarked unmarked
  obtain ⟨_, carries, -⟩ := masked.conveys_convertForm table clear
    ReturnStatement.isForm_parenthesized
  obtain ⟨kept, between, -⟩ := carries.whole
  have first := masked.keptOrLighter_convertForm table clear ReturnStatement.isForm_parenthesized
  have second := between.keptOrLighter_convertForm table clear ReturnStatement.isForm_inline
  simp only [lower, Converter.convertReturns]
  rcases first with ⟨calm, same⟩ | lighter
  · rw [same] at second ⊢
    rcases second with ⟨calmToo, -⟩ | lighter
    · exact .inl ⟨calm, calmToo⟩
    · rw [restored] at lighter
      exact .inr lighter
  · right
    rw [restored] at lighter
    rcases second with ⟨-, same⟩ | further
    · rwa [same]
    · exact further.trans lighter

/-- A run changes nothing exactly if the source is settled. -/
theorem changed_eq_false_iff :
    (lower style source).changed = false ↔ Settled (mask source).text := by
  rw [lower_unchanged_iff]
  constructor
  · intro same
    exact (settled_or_lighter clear unmarked).resolve_right fun lighter => lighter.ne same
  · exact output_of_settled unmarked

theorem unmarked_output : ¬ mark <:+: (lower style source).output := by
  obtain ⟨numbers, spells⟩ := exists_spells_convertReturns unmarked clear
  exact spells.not_mark_infix_restore (unmarked_table unmarked)

end Run

/-- The source after so many runs. -/
def lowerTimes (style : CallStyle) : Nat → Text → Text
  | 0, source => source
  | runs + 1, source => lowerTimes style runs (lower style source).output

/-- The runs come to an end: each one that changes the source makes it lighter. -/
theorem exists_lowerTimes_unchanged {style : CallStyle} (clear : style.Clear) (source : Text)
    (unmarked : ¬ mark <:+: source) :
    ∃ runs, (lower style (lowerTimes style runs source)).changed = false := by
  rcases settled_or_lighter clear unmarked with settled | lighter
  · exact ⟨0, (changed_eq_false_iff clear unmarked).mpr settled⟩
  · obtain ⟨runs, unchanged⟩ := exists_lowerTimes_unchanged clear (lower style source).output
      (unmarked_output clear unmarked)
    exact ⟨runs + 1, unchanged⟩
termination_by (source.count '<', source.weight)
decreasing_by
  rcases lighter with fewer | ⟨same, less⟩
  · exact Prod.Lex.left _ _ fewer
  · rw [same]
    exact Prod.Lex.right _ less

theorem lowerTimes_eq_self {style : CallStyle} {source : Text}
    (kept : (lower style source).output = source) (runs : Nat) :
    lowerTimes style runs source = source := by
  induction runs with
  | zero => rfl
  | succ runs induction => rw [lowerTimes, kept, induction]

/-- A second run leaves a lowered program as it is. -/
theorem unchanged_again_program {style : CallStyle} (clear : style.Clear) {program : List Item}
    (unmarked : ¬ mark <:+: programSource program)
    (spans : SpansFound (program.flatMap Item.pieces)) :
    (lower style (lower style (programSource program)).output).changed = false := by
  have closed : ¬ OpensMarkup (lower style (programSource program)).output := by
    rw [output_program clear unmarked spans]
    exact not_opensMarkup_lowered clear program
  rw [lower_unchanged_iff]
  exact output_of_not_opensMarkup (unmarked_output clear unmarked) closed

/-- A source in which no markup is returned is never changed. If calls are written in a way that no
source can be confused by, a second run leaves a lowered source as it is exactly if this is settled,
as a lowered program always is; and whatever the source is, after some number of runs nothing
changes any more. -/
theorem lower_again (style : CallStyle) {source : Text} (unmarked : ¬ mark <:+: source) :
    (¬ OpensMarkup source → ∀ runs, lowerTimes style runs source = source) ∧
      (style.Clear →
        ((lower style (lower style source).output).changed = false ↔
          Settled (mask (lower style source).output).text) ∧
        (∀ program, source = programSource program → SpansFound (program.flatMap Item.pieces) →
          (lower style (lower style source).output).changed = false) ∧
        ∃ runs, (lower style (lowerTimes style runs source)).changed = false) := by
  refine ⟨fun closed => lowerTimes_eq_self (output_of_not_opensMarkup unmarked closed),
    fun clear => ⟨changed_eq_false_iff clear (unmarked_output clear unmarked), ?_,
      exists_lowerTimes_unchanged clear source unmarked⟩⟩
  rintro program rfl spans
  exact unchanged_again_program clear unmarked spans

/-- A statement that closes itself, a parenthesized one and a constant. -/
def pageSource : Text :=
  "return (\n<A/>\n);\nreturn (\n<p>x</p>\n);\nconst y = (\n<b>z</b>\n);\n".toList

/-- A statement with an expression and a quote. -/
def paragraphSource : Text :=
  "return <p a=\x7bb\x7d>it's</p>;\n".toList

/-- Calls with a receiver that is no path of names. -/
def bracketedStyle : CallStyle :=
  { receiver := "(0, h)".toList }

theorem lower_again_pageSource :
    Settled (mask (lower {} paragraphSource).output).text ∧
      ¬ Settled (mask (lower {} pageSource).output).text ∧
      (∃ runs, (lower {} (lowerTimes {} runs pageSource)).changed = false) ∧
      (lower bracketedStyle (lower bracketedStyle (programSource twoComponents)).output).changed =
        false := by
  have paragraph : ¬ mark <:+: paragraphSource :=
    Text.not_infix_of_holds_eq_false (by decide +kernel)
  have page : ¬ mark <:+: pageSource := Text.not_infix_of_holds_eq_false (by decide +kernel)
  have clear : bracketedStyle.Clear :=
    ⟨by decide, Text.not_infix_of_holds_eq_false (by decide), List.all_eq_true.mp (by decide)⟩
  obtain ⟨settled, -⟩ := (lower_again {} paragraph).2 CallStyle.plain_default.clear
  obtain ⟨unsettled, -, ends⟩ := (lower_again {} page).2 CallStyle.plain_default.clear
  obtain ⟨-, program, -⟩ := (lower_again bracketedStyle not_mark_infix_twoComponents).2 clear
  refine ⟨settled.mp (by decide +kernel), ?_, ends,
    program twoComponents rfl spansFound_twoComponents⟩
  rw [← unsettled]
  decide +kernel

/-- The first run takes the paragraph for a part of the statement before it, and the second run
converts it. -/
theorem changed_again_pageSource :
    (lower {} pageSource).output =
        "return <A/>\n);\nreturn (\n<p>x</p>;\nconst y = (\n<b>z</b>\n);\n".toList ∧
      (lower {} pageSource).statements = 1 ∧
      lower {} (lower {} pageSource).output =
        { output :=
            "return <A/>\n);\nreturn React.createElement(\n    'p',\n    null,\n".toList ++
              "    'x'\n  );\nconst y = (\n<b>z</b>;\n".toList
          statements := 2
          expressions := 0
          changed := true } := by
  decide +kernel

end JsxCalls
