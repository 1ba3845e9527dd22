import JsxCalls.Proofs.Opacity

/-!
# Exposed expressions

The first pass writes the body of an expression out if it is the value of an attribute in a
parenthesized statement. The second pass then reads the body as source text. With a body of many
inline statements, more of them are converted than the source has statements, so exactly the sources
without an exposed body are lowered like all their siblings.
-/

namespace JsxCalls

open Placeholder ReturnStatement

/-! ## Lines that are all converted -/

/-- Lines with an inline statement each. -/
def statementLines (count : Nat) : Text :=
  (List.replicate count "return <b>;\n".toList).flatten

theorem statementLines_succ (count : Nat) :
    statementLines (count + 1) = "return <b>".toList ++ ';' :: '\n' :: statementLines count := by
  rw [statementLines, List.replicate_succ, List.flatten_cons]
  rfl

variable (converter : Converter)

theorem le_count_statementLines (count : Nat) (back : Text) :
    count ≤ (converter.convertForm inline (statementLines count ++ back)).count := by
  induction count with
  | zero => exact Nat.zero_le _
  | succ count induction =>
    have read : inline? "return <b>;".toList = some (⟨[], "<b>".toList⟩, []) := by decide
    obtain ⟨front, -, text, anywhere⟩ := exists_of_inline? read
    have front_eq : "return <b>".toList = front := by
      have both : "return <b>".toList ++ [';'] = front ++ [';'] := text
      exact List.append_cancel_right both
    have matched : inline.start? (statementLines (count + 1) ++ back) =
        some (⟨[], "<b>".toList⟩, '\n' :: (statementLines count ++ back)) := by
      rw [statementLines_succ, front_eq, List.append_assoc]
      exact anywhere _
    rw [converter.convertForm_statement matched]
    exact Nat.succ_le_succ induction

/-- A pass that reaches a text within a line goes on behind a line break of the text before a given
one, or behind that one. -/
theorem resume_append_cases {form : Pattern ReturnStatement} (front rest : Text) :
    (∃ kept, converter.resume form (front ++ '\n' :: rest) =
        (converter.convertForm form rest).behind kept) ∨
      ∃ kept shorter, shorter.length < front.length ∧
        converter.resume form (front ++ '\n' :: rest) =
          (converter.convertForm form (shorter ++ '\n' :: rest)).behind kept := by
  induction front with
  | nil => exact .inl ⟨_, converter.resume_newline rest⟩
  | cons c front induction =>
    by_cases newline : c = '\n'
    · subst newline
      exact .inr ⟨_, front, Nat.lt_succ_self _, converter.resume_newline _⟩
    · rw [List.cons_append, converter.resume_cons newline]
      rcases induction with ⟨kept, equal⟩ | ⟨kept, shorter, less, equal⟩
      · exact .inl ⟨_, by rw [equal, Converted.behind_behind]⟩
      · exact .inr ⟨_, shorter, Nat.lt_succ_of_lt less, by rw [equal, Converted.behind_behind]⟩

/-- Whatever stands before the lines, it can take at most one of their statements. -/
theorem le_count_append_statementLines (front : Text) (count : Nat) (back : Text) :
    count ≤ (converter.convertForm inline
      (front ++ '\n' :: (statementLines count ++ back))).count + 1 := by
  have goes_on : ∀ text : Text, text.length ≤ front.length →
      (∀ shorter : Text, shorter.length < front.length → count ≤ (converter.convertForm inline
        (shorter ++ '\n' :: (statementLines count ++ back))).count + 1) →
      count ≤ (converter.resume inline
        (text ++ '\n' :: (statementLines count ++ back))).count + 1 := by
    intro text bound induction
    rcases resume_append_cases converter text (statementLines count ++ back) with
      ⟨kept, equal⟩ | ⟨kept, shorter, less, equal⟩
    · have lines := le_count_statementLines converter count back
      rw [equal]
      exact Nat.le_succ_of_le lines
    · rw [equal]
      exact induction shorter (Nat.lt_of_lt_of_le less bound)
  have induction : ∀ shorter : Text, shorter.length < front.length →
      count ≤ (converter.convertForm inline
        (shorter ++ '\n' :: (statementLines count ++ back))).count + 1 :=
    fun shorter _ => le_count_append_statementLines shorter count back
  cases matched : inline.start? (front ++ '\n' :: (statementLines count ++ back)) with
  | none =>
    rw [converter.convertForm_eq_resume matched]
    exact goes_on front (Nat.le_refl _) induction
  | some result =>
    obtain ⟨found, rest⟩ := result
    have step := congrArg Converted.count (converter.convertForm_eq_resume_behind matched)
    obtain ⟨start, outside, text, -⟩ := exists_of_inline? matched
    rw [step]
    -- The statement ends before the lines, or with the first of them.
    rcases List.append_eq_append_iff.mp text with
      ⟨middle, start_eq, split⟩ | ⟨middle, front_eq, split⟩
    · cases count with
      | zero => exact Nat.zero_le _
      | succ count =>
        have cut : Text.until? ';' ('\n' :: (statementLines (count + 1) ++ back)) =
            some ('\n' :: "return <b>".toList, '\n' :: (statementLines count ++ back)) := by
          rw [Text.until?_eq_some_iff, statementLines_succ]
          exact ⟨by simp, by decide⟩
        have cut' : Text.until? ';' ('\n' :: (statementLines (count + 1) ++ back)) =
            some (middle, rest) :=
          Text.until?_eq_some_iff.mpr ⟨split, fun member => outside (by simp [start_eq, member])⟩
        obtain ⟨-, rfl⟩ := Prod.mk.inj (Option.some.inj (cut.symm.trans cut'))
        have lines := le_count_statementLines converter count back
        rw [converter.resume_newline]
        exact Nat.succ_le_succ (Nat.le_succ_of_le lines)
    · cases middle with
      | nil => simp at split
      | cons c middle =>
        obtain ⟨rfl, rest_eq⟩ := List.cons.inj split
        rw [rest_eq]
        refine Nat.le_succ_of_le (goes_on middle ?_ induction)
        simp only [front_eq, List.length_append, List.length_cons]
        omega
termination_by front.length

/-! ## Changing the body of one expression -/

theorem exists_split_of_getElem? {pieces : List (Piece Expression)} {index : Nat}
    {expression : Expression} (entry : (expressions pieces)[index]? = some expression) :
    ∃ left right, pieces = left ++ .item expression :: right ∧
      (expressions left).length = index := by
  induction pieces generalizing index with
  | nil => simp at entry
  | cons piece pieces induction =>
    cases piece with
    | char c =>
      obtain ⟨left, right, rfl, length⟩ := induction entry
      exact ⟨.char c :: left, right, rfl, length⟩
    | item first =>
      cases index with
      | zero =>
        obtain rfl : first = expression := by simpa using entry
        exact ⟨[], pieces, rfl, rfl⟩
      | succ index =>
        obtain ⟨left, right, rfl, length⟩ := induction (by simpa using entry)
        exact ⟨.item first :: left, right, rfl, by simp [length]⟩

/-- The last pieces of a source are the pieces of its end. -/
theorem pieces_written_of_append_eq {left right : List (Piece Expression)} {source : Text}
    (pieces : Expression.pattern.pieces source = left ++ right) :
    Expression.pattern.pieces (written right) = right := by
  induction left generalizing source with
  | nil =>
    rw [List.nil_append] at pieces
    rw [← pieces, written_pieces]
  | cons piece left induction =>
    cases source with
    | nil => simp [Pattern.pieces] at pieces
    | cons c source =>
      cases matched : Expression.pattern.start? (c :: source) with
      | none =>
        rw [Pattern.pieces_of_none matched] at pieces
        exact induction (List.cons.inj pieces).2
      | some found =>
        rw [Pattern.pieces_of_some matched] at pieces
        exact induction (List.cons.inj pieces).2

/-- Another body in the place of an expression's own leaves all other pieces as they are. -/
theorem pieces_written_replace {left right : List (Piece Expression)} {source : Text}
    {expression other : Expression}
    (pieces : Expression.pattern.pieces source = left ++ .item expression :: right)
    (plain : ∀ c ∈ other.body, isBrace c = false) :
    Expression.pattern.pieces (written (left ++ .item other :: right)) =
      left ++ .item other :: right := by
  have ending : Expression.pattern.pieces source = (left ++ [.item expression]) ++ right := by
    rw [pieces, List.append_assoc, List.singleton_append]
  have tail := pieces_written_of_append_eq ending
  have whole : source = written left ++ (expression.source ++ written right) := by
    rw [← written_pieces source, pieces, written_append, written_item]
  have listed : expression ∈ expressions (Expression.pattern.pieces source) := by simp [pieces]
  have spans := Expression.pieces_span (braceless_of_mem_expressions listed) (written left)
    (written right)
  rw [← whole, pieces, tail] at spans
  rw [written_append, written_item, Expression.pieces_span plain, tail,
    ← List.append_cancel_right spans]

theorem exists_sibling {source : Text} (unmarked : ¬ mark <:+: source) {index : Nat}
    (exposed : (mask source).table.bodyAt index ≠ []) {body : Text} (filled : body ≠ [])
    (plain : ∀ c ∈ body, isBrace c = false) (clean : ¬ mark <:+: body) :
    ∃ other, Sibling source other ∧ (mask other).table.bodyAt index = body := by
  cases entry : (mask source).table.get? index with
  | none => simp [ExpressionTable.bodyAt, entry] at exposed
  | some expression =>
    have nonempty : expression.body ≠ [] := by simpa [ExpressionTable.bodyAt, entry] using exposed
    rw [ExpressionTable.get?, entries_mask] at entry
    obtain ⟨left, right, pieces, length⟩ := exists_split_of_getElem? entry
    let other : Text := written (left ++ .item ⟨body⟩ :: right)
    have changed : Expression.pattern.pieces other = left ++ .item ⟨body⟩ :: right :=
      pieces_written_replace pieces plain
    have entries : (mask other).table.entries =
        expressions left ++ ⟨body⟩ :: expressions right := by
      rw [entries_mask, changed, expressions_append, expressions_item]
    have before : (mask source).table.entries =
        expressions left ++ expression :: expressions right := by
      rw [entries_mask, pieces, expressions_append, expressions_item]
    have whole : source = written left ++ (expression.source ++ written right) := by
      rw [← written_pieces source, pieces, written_append, written_item]
    refine ⟨other, ⟨?_, ?_, ?_⟩, ?_⟩
    · have opening : '{' ∉ mark := by decide
      have closing : '}' ∉ mark := by decide
      have text : other = written left ++ '{' :: (body ++ '}' :: written right) := by
        simp [other, Expression.source]
      rw [text, Text.infix_append_cons_iff opening, Text.infix_append_cons_iff closing]
      rw [whole] at unmarked
      rintro (inLeft | inBody | inRight)
      · exact unmarked (List.infix_append_of_infix_left inLeft)
      · exact clean inBody
      · exact unmarked (List.infix_append_of_infix_right (List.infix_append_of_infix_right inRight))
    · simp only [mask, changed, pieces, maskFrom_append, maskFrom]
    · intro number
      simp only [ExpressionTable.get?, entries, before]
      rcases Nat.lt_trichotomy number (expressions left).length with less | rfl | greater
      · rw [List.getElem?_append_left less, List.getElem?_append_left less]
      · have different : expression ≠ ⟨[]⟩ := fun equal => nonempty (congrArg Expression.body equal)
        simp [filled, different]
      · obtain ⟨offset, rfl⟩ := Nat.exists_eq_add_of_lt greater
        rw [List.getElem?_append_right (by omega), List.getElem?_append_right (by omega)]
        simp [Nat.add_assoc]
    · rw [ExpressionTable.bodyAt, ExpressionTable.get?, entries, ← length]
      simp

/-! ## Exposed bodies -/

/-- The first pass writes the body with the given number out: it is not empty, and it is the value
of an attribute in a parenthesized statement. -/
def Exposes (source : Text) (index : Nat) : Prop :=
  ∃ found element, .statement found ∈ Segment.ofText parenthesized (mask source).text ∧
    Element.parse? (Text.trim (Text.trim found.markup)) = some element ∧
    ∃ written ∈ WrittenAttribute.pattern.items element.attributes,
      written.value.slot? (mask source).table = some index

theorem holds_firstDraft_iff (style : CallStyle) (source : Text) (index : Nat) :
    (firstDraft style source).Holds index ↔ Exposes source index := by
  constructor
  · rintro ⟨frame, member, rfl⟩
    obtain ⟨segment, listed, inside⟩ := List.mem_flatMap.mp member
    obtain ⟨found, element, rfl, parsed, slot⟩ :=
      (Segment.holds_draft_iff _ style segment frame.index).mp ⟨frame, inside, rfl⟩
    exact ⟨found, element, listed, parsed, slot⟩
  · rintro ⟨found, element, listed, parsed, slot⟩
    obtain ⟨frame, inside, equal⟩ :=
      (Segment.holds_draft_iff _ style (.statement found) index).mpr
        ⟨found, element, rfl, parsed, slot⟩
    exact ⟨frame, List.mem_flatMap.mpr ⟨_, listed, inside⟩, equal⟩

theorem Exposes.bodyAt_ne_nil {source : Text} {index : Nat} (exposed : Exposes source index) :
    (mask source).table.bodyAt index ≠ [] := by
  obtain ⟨-, -, -, -, written, -, slot⟩ := exposed
  exact (WrittenValue.value_of_slot?_eq_some slot).2

theorem Draft.apart_of_not_holds {draft : Draft} (none : ∀ index, ¬ draft.Holds index)
    (table : ExpressionTable) : draft.Apart table := by
  obtain ⟨text, rfl⟩ := exists_map_char_of_not_holds none
  intro before statement rest found equal _ _
  rw [fill_map_char] at equal
  exact ⟨before.map .char, rest.map .char, by simp [equal], fill_map_char table before⟩

theorem braceless_statementLines (count : Nat) :
    ∀ c ∈ '\n' :: statementLines count, isBrace c = false := by
  have line : ("return <b>;\n".toList.all fun c => !isBrace c) = true := by decide
  intro c member
  rcases List.mem_cons.mp member with rfl | member
  · decide
  · obtain ⟨_, replicated, inside⟩ := List.mem_flatten.mp member
    rw [List.eq_of_mem_replicate replicated] at inside
    simpa using List.all_eq_true.mp line c inside

theorem not_mark_infix_statementLines (count : Nat) :
    ¬ mark <:+: '\n' :: statementLines count := by
  intro found
  have capital : 'P' ∈ '\n' :: statementLines count := found.mem (by decide)
  rcases List.mem_cons.mp capital with equal | member
  · exact absurd equal (by decide)
  · obtain ⟨_, replicated, inside⟩ := List.mem_flatten.mp member
    rw [List.eq_of_mem_replicate replicated] at inside
    exact absurd inside (by decide)

/-- A sibling with enough statements in an exposed body has more of them converted. -/
theorem exists_sibling_lt {source : Text} (unmarked : ¬ mark <:+: source) {index : Nat}
    (exposed : Exposes source index) (style : CallStyle) (bound : Nat) :
    ∃ other, Sibling source other ∧ bound < (lower style other).statements := by
  obtain ⟨other, sibling, body⟩ := exists_sibling unmarked exposed.bodyAt_ne_nil
    (List.cons_ne_nil _ _) (braceless_statementLines (bound + 2))
    (not_mark_infix_statementLines (bound + 2))
  refine ⟨other, sibling, ?_⟩
  have holds := (holds_firstDraft_iff style source index).mpr exposed
  obtain ⟨front, back, text⟩ : (mask other).table.bodyAt index <:+:
      (firstDraft style source).fill (mask other).table := holds.infix_fill
  rw [body, List.append_assoc, List.cons_append] at text
  have lines := le_count_append_statementLines ⟨style, some (mask other).table⟩
    front (bound + 2) back
  rw [text] at lines
  simp only [lower, Converter.convertReturns, firstPass_eq_of_sibling unmarked sibling]
  omega

/-- A source is lowered along one template with each of its siblings exactly if it exposes no body.
If it does, this still holds of siblings in which the second pass stays apart from the bodies. -/
theorem sameRecognition_iff (style : CallStyle) (source : Text) (unmarked : ¬ mark <:+: source) :
    ((∀ other, Sibling source other → SameRecognition style source other) ↔
        ∀ index, ¬ Exposes source index) ∧
      ∀ other, Sibling source other → StatementsApart style source → StatementsApart style other →
        SameRecognition style source other := by
  have apart : ∀ other, Sibling source other → StatementsApart style source →
      StatementsApart style other → SameRecognition style source other := fun other sibling =>
    sameRecognition_of_apart unmarked sibling
  refine ⟨⟨fun same index exposed => ?_, fun hidden other sibling => ?_⟩, apart⟩
  · obtain ⟨other, sibling, more⟩ :=
      exists_sibling_lt unmarked exposed style (lower style source).statements
    have equal := (same other sibling).1
    omega
  · have none : ∀ index, ¬ (firstDraft style source).Holds index := fun index holds =>
      hidden index ((holds_firstDraft_iff style source index).mp holds)
    apply apart other sibling
    · exact Draft.apart_of_not_holds none _
    · rw [StatementsApart, firstDraft_eq_of_sibling unmarked sibling]
      exact Draft.apart_of_not_holds none _

/-- A link with the two given bodies in its attributes. -/
def linkSource (target action : Text) : Text :=
  "return (\n  <a href=\x7b".toList ++ target ++ "\x7d onClick=\x7b".toList ++ action ++
    "\x7d>go</a>\n);\n".toList

/-- The second pass finds nothing in the bodies, although they have line breaks, semicolons and
brackets. -/
theorem sameRecognition_linkSource :
    ¬ mark <:+: linkSource "x".toList "f".toList ∧
      Sibling (linkSource "x".toList "f".toList)
        (linkSource "a > b;\nreturn c".toList "() => go('<b>;')".toList) ∧
      StatementsApart {} (linkSource "x".toList "f".toList) ∧
      StatementsApart {} (linkSource "a > b;\nreturn c".toList "() => go('<b>;')".toList) ∧
      SameRecognition {} (linkSource "x".toList "f".toList)
        (linkSource "a > b;\nreturn c".toList "() => go('<b>;')".toList) := by
  have nowhere : ∀ {table : ExpressionTable} {draft : Draft},
      (∀ place ≤ (draft.fill table).length, inline? ((draft.fill table).drop place) = none) →
        draft.Apart table := by
    intro table draft none before statement rest found equal _ matched
    have bound : before.length ≤ (draft.fill table).length := by
      rw [equal, List.length_append]
      omega
    have missed := none before.length bound
    rw [equal, List.drop_left, matched] at missed
    simp at missed
  have unmarked : ¬ mark <:+: linkSource "x".toList "f".toList :=
    Text.not_infix_of_holds_eq_false (by decide +kernel)
  have sibling : Sibling (linkSource "x".toList "f".toList)
      (linkSource "a > b;\nreturn c".toList "() => go('<b>;')".toList) := by
    refine ⟨Text.not_infix_of_holds_eq_false (by decide +kernel), by decide +kernel, ?_⟩
    have entries : (mask (linkSource "x".toList "f".toList)).table =
        ⟨[⟨"x".toList⟩, ⟨"f".toList⟩]⟩ := by decide +kernel
    have others : (mask (linkSource "a > b;\nreturn c".toList "() => go('<b>;')".toList)).table =
        ⟨[⟨"a > b;\nreturn c".toList⟩, ⟨"() => go('<b>;')".toList⟩]⟩ := by decide +kernel
    rw [entries, others]
    rintro (_ | _ | index) <;> simp [ExpressionTable.get?]
  have apart : StatementsApart {} (linkSource "x".toList "f".toList) :=
    nowhere (by decide +kernel)
  have otherApart :
      StatementsApart {} (linkSource "a > b;\nreturn c".toList "() => go('<b>;')".toList) :=
    nowhere (by decide +kernel)
  exact ⟨unmarked, sibling, apart, otherApart,
    (sameRecognition_iff {} _ unmarked).2 _ sibling apart otherApart⟩

/-- A box with the given body in its attribute. -/
def boxSource (body : Text) : Text :=
  "return (\n<div a=\x7b".toList ++ body ++ "\x7d>t</div>\n);\n".toList

/-- A statement in the body of an exposed expression is converted. -/
theorem not_sameRecognition_of_statement_in_body :
    Sibling (boxSource "x".toList) (boxSource "\nreturn <b>x</b>;\n".toList) ∧
      (lower {} (boxSource "x".toList)).statements = 1 ∧
      (lower {} (boxSource "\nreturn <b>x</b>;\n".toList)).statements = 2 ∧
      ¬ SameRecognition {} (boxSource "x".toList) (boxSource "\nreturn <b>x</b>;\n".toList) := by
  have entries : (mask (boxSource "x".toList)).table = ⟨[⟨"x".toList⟩]⟩ := by decide +kernel
  have others : (mask (boxSource "\nreturn <b>x</b>;\n".toList)).table =
      ⟨[⟨"\nreturn <b>x</b>;\n".toList⟩]⟩ := by decide +kernel
  have one : (lower {} (boxSource "x".toList)).statements = 1 := by decide +kernel
  have two : (lower {} (boxSource "\nreturn <b>x</b>;\n".toList)).statements = 2 := by
    decide +kernel
  refine ⟨⟨Text.not_infix_of_holds_eq_false (by decide +kernel), by decide +kernel, ?_⟩,
    one, two, ?_⟩
  · rw [entries, others]
    rintro (_ | index) <;> simp [ExpressionTable.get?]
  · rintro ⟨same, -⟩
    rw [one, two] at same
    exact absurd same (by decide)

end JsxCalls
