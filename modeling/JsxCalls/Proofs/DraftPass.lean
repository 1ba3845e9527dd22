import JsxCalls.Proofs.Draft
import JsxCalls.Proofs.Pass

/-!
# The second pass over a draft

The second pass reads the text that the first pass has written, with the bodies of expressions in
it. If every statement that it could find consists of characters of the draft, the bodies are
skipped: a body may have line breaks of its own, but no statement starts at them, and the pass comes
to the same line of the draft again behind it.
-/

namespace JsxCalls

open ReturnStatement

/-! ## Inline statements -/

/-- An inline statement reaches to the first semicolon, and is found whatever follows it. -/
theorem ReturnStatement.exists_of_inline? {text rest : Text} {found : ReturnStatement}
    (matched : inline? text = some (found, rest)) :
    ∃ front, ';' ∉ front ∧ text = front ++ ';' :: rest ∧
      ∀ behind, inline? (front ++ ';' :: behind) = some (found, behind) := by
  simp only [inline?, bind, Option.bind_eq_some_iff] at matched
  obtain ⟨⟨indent, behind⟩, headed, body, opened, ⟨content, after⟩, cut, matched⟩ := matched
  obtain ⟨gap, text_eq, filled, indented, spaces⟩ := append_of_head? headed
  obtain rfl := Text.after?_eq_some_iff.mp opened
  obtain ⟨rfl, inside⟩ := Text.until?_eq_some_iff.mp cut
  split at matched
  · rename_i ends
    simp only [Option.some.injEq, Prod.mk.injEq] at matched
    obtain ⟨rfl, rfl⟩ := matched
    refine ⟨indent ++ (keyword ++ (gap ++ '<' :: content)), ?_, by simp [text_eq], ?_⟩
    · have inIndent : ';' ∉ indent := fun member => absurd (indented _ member) (by decide)
      have inGap : ';' ∉ gap := fun member => absurd (spaces _ member) (by decide)
      have inKeyword : ';' ∉ keyword := by decide
      simp [inIndent, inGap, inKeyword, inside]
    · intro behind
      have stops : Text.StopsRun isSpace ('<' :: (content ++ ';' :: behind)) := by
        intro c first
        obtain rfl : '<' = c := Option.some.inj first
        decide
      have headed := head?_gap_append indented filled spaces stops
      have opened : Text.after? ['<'] ('<' :: (content ++ ';' :: behind)) =
          some (content ++ ';' :: behind) := Text.after?_eq_some_iff.mpr rfl
      have cut : Text.until? ';' (content ++ ';' :: behind) = some (content, behind) :=
        Text.until?_eq_some_iff.mpr ⟨rfl, inside⟩
      have text : indent ++ (keyword ++ (gap ++ '<' :: content)) ++ ';' :: behind =
          indent ++ (keyword ++ (gap ++ '<' :: (content ++ ';' :: behind))) := by simp
      rw [text]
      simp only [inline?, headed, opened, cut, Option.bind_eq_bind, Option.bind_some, if_pos ends]
  · simp at matched

/-! ## Going on within a line -/

/-- A converted text behind a text that was kept. -/
def Converted.behind (front : Text) (converted : Converted) : Converted :=
  ⟨front ++ converted.text, converted.count⟩

@[simp]
theorem Converted.behind_nil (converted : Converted) : converted.behind [] = converted := rfl

@[simp]
theorem Converted.behind_behind (front next : Text) (converted : Converted) :
    (converted.behind next).behind front = converted.behind (front ++ next) := by
  simp [Converted.behind]

namespace Converter

variable (converter : Converter) {form : Pattern ReturnStatement}

/-- What a pass does with a text that it reaches within a line. -/
def resume (form : Pattern ReturnStatement) (text : Text) : Converted :=
  (converter.convertForm form (Text.dropLine text)).behind (Text.takeLine text)

theorem resume_newline (text : Text) :
    converter.resume form ('\n' :: text) = (converter.convertForm form text).behind ['\n'] := by
  simp [resume, Text.takeLine, Text.dropLine]

theorem resume_cons {c : Char} (within : c ≠ '\n') (text : Text) :
    converter.resume form (c :: text) = (converter.resume form text).behind [c] := by
  simp [resume, Text.takeLine, Text.dropLine, within]

theorem resume_append {front : Text} (within : '\n' ∉ front) (text : Text) :
    converter.resume form (front ++ text) = (converter.resume form text).behind front := by
  induction front with
  | nil => rfl
  | cons c front induction =>
    rw [List.mem_cons, not_or] at within
    rw [List.cons_append, converter.resume_cons (Ne.symm within.1), induction within.2,
      Converted.behind_behind, List.singleton_append]

theorem convertForm_eq_resume {text : Text} (missed : form.start? text = none) :
    converter.convertForm form text = converter.resume form text :=
  converter.convertForm_of_none missed

theorem convertForm_eq_resume_behind {text rest : Text} {found : ReturnStatement}
    (matched : form.start? text = some (found, rest)) :
    converter.convertForm form text =
      ⟨Segment.render converter (.statement found) ++ (converter.resume form rest).text,
        (converter.resume form rest).count + 1⟩ :=
  converter.convertForm_of_some matched

end Converter

/-! ## Lines of a draft -/

namespace Draft

/-- The draft up to its first line break outside the bodies. -/
def takeLine : Draft → Draft
  | [] => []
  | .char c :: draft => if c = '\n' then [.char c] else .char c :: takeLine draft
  | .item frame :: draft => .item frame :: takeLine draft

def dropLine : Draft → Draft
  | [] => []
  | .char c :: draft => if c = '\n' then draft else dropLine draft
  | .item _ :: draft => dropLine draft

theorem takeLine_append_dropLine (draft : Draft) : takeLine draft ++ dropLine draft = draft := by
  induction draft with
  | nil => rfl
  | cons piece draft induction =>
    cases piece with
    | char c =>
      rw [takeLine, dropLine]
      split
      · rfl
      · rw [List.cons_append, induction]
    | item frame => rw [takeLine, dropLine, List.cons_append, induction]

theorem length_dropLine_lt {draft : Draft} (filled : draft ≠ []) :
    (dropLine draft).length < draft.length := by
  have taken : takeLine draft ≠ [] := by
    cases draft with
    | nil => exact absurd rfl filled
    | cons piece draft =>
      cases piece with
      | char c => rw [takeLine]; split <;> exact List.cons_ne_nil _ _
      | item frame => exact List.cons_ne_nil _ _
  have lengths := congrArg List.length (takeLine_append_dropLine draft)
  rw [List.length_append] at lengths
  have := List.length_pos_iff.mpr taken
  omega

theorem exists_takeLine_eq {draft : Draft} (filled : dropLine draft ≠ []) :
    ∃ front, takeLine draft = front ++ [.char '\n'] := by
  induction draft with
  | nil => exact absurd rfl filled
  | cons piece draft induction =>
    cases piece with
    | char c =>
      rw [dropLine] at filled
      rw [takeLine]
      split
      · rename_i here
        exact ⟨[], by rw [here]; rfl⟩
      · rename_i within
        rw [if_neg within] at filled
        obtain ⟨front, equal⟩ := induction filled
        exact ⟨.char c :: front, by rw [equal]; rfl⟩
    | item frame =>
      obtain ⟨front, equal⟩ := induction filled
      exact ⟨.item frame :: front, by rw [takeLine, equal]; rfl⟩

/-! ## Statements apart from the bodies -/

/-- Every inline statement at the start of a line consists of characters of the draft. -/
def Apart (table : ExpressionTable) (draft : Draft) : Prop :=
  ∀ (before statement rest : Text) (found : ReturnStatement),
    fill table draft = before ++ (statement ++ rest) → Text.WholeLines before →
    inline? (statement ++ rest) = some (found, rest) →
    ∃ front back, draft = front ++ (statement.map .char ++ back) ∧ fill table front = before

variable {table : ExpressionTable} {draft left right : Draft}

theorem Apart.of_append (apart : Apart table (left ++ right))
    (whole : Text.WholeLines (fill table left)) : Apart table right := by
  intro before statement rest found equal start matched
  have whole' : Text.WholeLines (fill table left ++ before) := by
    rcases start with rfl | ⟨front, rfl⟩
    · rwa [List.append_nil]
    · exact .inr ⟨fill table left ++ front, by simp⟩
  have text : fill table (left ++ right) = (fill table left ++ before) ++ (statement ++ rest) := by
    rw [fill_append, equal, List.append_assoc]
  obtain ⟨front, back, split, front_eq⟩ := apart _ _ _ _ text whole' matched
  have shorter : (fill table left).length ≤ (fill table front).length := by
    rw [front_eq, List.length_append]
    omega
  obtain ⟨middle, rfl, right_eq⟩ := exists_of_append_eq split shorter
  rw [fill_append, List.append_cancel_left_eq] at front_eq
  exact ⟨middle, back, right_eq, front_eq⟩

theorem Apart.dropLine (apart : Apart table (left ++ right)) : Apart table (dropLine right) := by
  by_cases empty : Draft.dropLine right = []
  · rw [empty]
    intro before statement rest found equal start matched
    have nothing : statement ++ rest = [] := (List.append_eq_nil_iff.mp equal.symm).2
    have missed : inline? [] = none := rfl
    rw [nothing, missed] at matched
    simp at matched
  · obtain ⟨front, line⟩ := exists_takeLine_eq empty
    have split : left ++ right = (left ++ takeLine right) ++ Draft.dropLine right := by
      rw [List.append_assoc, takeLine_append_dropLine]
    rw [split] at apart
    apply apart.of_append
    exact .inr ⟨fill table (left ++ front), by simp [line]⟩

/-- No statement starts at a line break within a body. -/
theorem Apart.inline?_eq_none {frame : Frame} (apart : Apart table (left ++ .item frame :: right))
    {front rest : Text} (body : table.bodyAt frame.index = front ++ '\n' :: rest) :
    inline? (rest ++ frame.closing :: fill table right) = none := by
  rw [Option.eq_none_iff_forall_ne_some]
  rintro ⟨found, behind⟩ matched
  obtain ⟨start, -, split, -⟩ := exists_of_inline? matched
  let before : Text := fill table left ++ frame.opening :: (front ++ ['\n'])
  have text : fill table (left ++ .item frame :: right) =
      before ++ ((start ++ [';']) ++ behind) := by
    have line : (start ++ [';']) ++ behind = rest ++ frame.closing :: fill table right := by
      simp [split]
    rw [line]
    simp [before, Frame.text, body]
  have whole : Text.WholeLines before :=
    .inr ⟨fill table left ++ frame.opening :: front, by simp [before]⟩
  rw [split] at matched
  obtain ⟨kept, back, cut, kept_eq⟩ := apart _ _ _ _ text whole (by simpa using matched)
  have longer : (fill table left).length ≤ (fill table kept).length := by
    rw [kept_eq]
    simp only [before, List.length_append]
    omega
  obtain ⟨middle, rfl, tail⟩ := exists_of_append_eq cut longer
  have inside : fill table middle = frame.opening :: (front ++ ['\n']) := by
    rw [fill_append] at kept_eq
    exact List.append_cancel_left kept_eq
  -- The text before the statement would end within the frame.
  cases middle with
  | nil => simp at inside
  | cons piece middle =>
    obtain rfl : .item frame = piece := (List.cons.inj tail).1
    have lengths := congrArg List.length inside
    simp only [fill_item, Frame.text, body, List.length_append, List.length_cons] at lengths
    omega

end Draft

/-! ## The pass -/

section Pass

variable (converter : Converter) {table : ExpressionTable}

/-- The rest of a body is kept, line by line. -/
theorem resume_body {left right : Draft} {frame : Frame}
    (apart : Draft.Apart table (left ++ .item frame :: right)) {front rest : Text}
    (body : table.bodyAt frame.index = front ++ rest) :
    converter.resume inline (rest ++ frame.closing :: Draft.fill table right) =
      (converter.resume inline (Draft.fill table right)).behind (rest ++ [frame.closing]) := by
  induction rest generalizing front with
  | nil => exact converter.resume_cons frame.closes.2 _
  | cons c rest induction =>
    have shifted : table.bodyAt frame.index = (front ++ [c]) ++ rest := by simp [body]
    have later := induction shifted
    by_cases newline : c = '\n'
    · subst newline
      have missed : inline.start? (rest ++ frame.closing :: Draft.fill table right) = none :=
        apart.inline?_eq_none body
      rw [List.cons_append, converter.resume_newline, converter.convertForm_eq_resume missed, later,
        Converted.behind_behind]
      rfl
    · rw [List.cons_append, converter.resume_cons newline, later, Converted.behind_behind]
      rfl

/-- Within a line, the pass goes on to the next line of the draft. -/
theorem resume_fill {left right : Draft} (apart : Draft.Apart table (left ++ right)) :
    converter.resume inline (Draft.fill table right) =
      (converter.convertForm inline (Draft.fill table right.dropLine)).behind
        (Draft.fill table right.takeLine) := by
  induction right generalizing left with
  | nil => rfl
  | cons piece right induction =>
    have shifted : Draft.Apart table ((left ++ [piece]) ++ right) := by
      rwa [List.append_assoc, List.singleton_append]
    have later := induction shifted
    cases piece with
    | char c =>
      by_cases newline : c = '\n'
      · subst newline
        exact converter.resume_newline _
      · rw [Draft.fill_char, converter.resume_cons newline, later, Converted.behind_behind,
          Draft.takeLine, Draft.dropLine, if_neg newline, if_neg newline]
        rfl
    | item frame =>
      have text : Draft.fill table (.item frame :: right) = frame.opening ::
          (table.bodyAt frame.index ++ frame.closing :: Draft.fill table right) := by
        simp [Frame.text]
      rw [text, converter.resume_cons frame.opens.2,
        resume_body converter apart (List.nil_append _).symm, later, Converted.behind_behind,
        Converted.behind_behind, Draft.takeLine, Draft.dropLine, Draft.fill_item]
      rfl

/-- The draft begins with an inline statement. -/
def Draft.StartsWith (found : ReturnStatement) (draft rest : Draft) : Prop :=
  ∃ statement : Text, draft = statement.map .char ++ rest ∧ inline? statement = some (found, [])

theorem Draft.StartsWith.inline? {draft rest : Draft} {found : ReturnStatement}
    (starts : draft.StartsWith found rest) (table : ExpressionTable) :
    ReturnStatement.inline? (fill table draft) = some (found, fill table rest) := by
  obtain ⟨statement, rfl, matched⟩ := starts
  obtain ⟨front, -, rfl, anywhere⟩ := exists_of_inline? matched
  rw [fill_append, fill_map_char, List.append_assoc]
  exact anywhere _

theorem Draft.Apart.exists_startsWith {draft : Draft} (apart : Apart table draft) {rest : Text}
    {found : ReturnStatement} (matched : inline? (fill table draft) = some (found, rest)) :
    ∃ back, draft.StartsWith found back := by
  obtain ⟨front, -, text, anywhere⟩ := exists_of_inline? matched
  have split : fill table draft = [] ++ ((front ++ [';']) ++ rest) := by simp [text]
  obtain ⟨kept, back, equal, empty⟩ := apart [] _ _ found split (.inl rfl)
    (by simpa using anywhere rest)
  obtain rfl := eq_nil_of_fill_eq_nil empty
  exact ⟨back, front ++ [';'], equal, anywhere []⟩

/-- Tables that agree are filled into one draft by the second pass too, and it finds the same
number of statements. -/
theorem exists_convertForm_fill (style : CallStyle) (model : ExpressionTable) (draft : Draft) :
    ∃ (converted : Draft) (count : Nat), ∀ table, model.Alike table → draft.Apart table →
      Converter.convertForm ⟨style, some table⟩ inline (draft.fill table) =
        ⟨converted.fill table, count⟩ := by
  by_cases starts : ∃ found back, draft.StartsWith found back
  · obtain ⟨found, back, starts⟩ := starts
    have shorter : back.dropLine.length < draft.length := by
      obtain ⟨statement, rfl, matched⟩ := starts
      obtain ⟨front, -, rfl, -⟩ := exists_of_inline? matched
      have dropped := congrArg List.length (Draft.takeLine_append_dropLine back)
      simp only [List.length_append, List.length_map, List.length_cons] at dropped ⊢
      omega
    obtain ⟨converted, count, later⟩ := exists_convertForm_fill style model back.dropLine
    refine ⟨(Segment.statement found).draft model style ++ (back.takeLine ++ converted),
      count + 1, ?_⟩
    intro table alike apart
    have matched : inline.start? (draft.fill table) = some (found, back.fill table) :=
      starts.inline? table
    obtain ⟨statement, rfl, -⟩ := starts
    rw [Converter.convertForm_eq_resume_behind _ matched, resume_fill _ apart,
      later table alike apart.dropLine, Draft.fill_append, Draft.fill_append,
      Segment.fill_draft alike]
    rfl
  · by_cases empty : draft = []
    · subst empty
      exact ⟨[], 0, fun table _ _ => Converter.convertForm_nil _⟩
    · have shorter := Draft.length_dropLine_lt empty
      obtain ⟨converted, count, later⟩ := exists_convertForm_fill style model draft.dropLine
      refine ⟨draft.takeLine ++ converted, count, ?_⟩
      intro table alike apart
      have missed : inline.start? (draft.fill table) = none := by
        rw [Option.eq_none_iff_forall_ne_some]
        rintro ⟨found, rest⟩ matched
        exact starts ⟨found, apart.exists_startsWith matched⟩
      have whole : Draft.Apart table ([] ++ draft) := apart
      rw [Converter.convertForm_eq_resume _ missed, resume_fill _ whole,
        later table alike whole.dropLine, Draft.fill_append]
      rfl
termination_by draft.length

end Pass

end JsxCalls
