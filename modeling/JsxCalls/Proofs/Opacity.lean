import JsxCalls.Proofs.DraftPass
import JsxCalls.Proofs.Span

/-!
# How far the contents of expressions matter

Two sources that differ only in the bodies of their expressions are masked to the same text. They
are lowered along one template, as long as the second pass meets no body that the first pass has
written out. Bodies that it can meet are not opaque: a source with such a body always has a
counterpart with more statements.
-/

namespace JsxCalls

open Placeholder

/-! ## Restoring a filled draft -/

/-- No body has the mark of placeholders. -/
def ExpressionTable.Unmarked (table : ExpressionTable) : Prop :=
  ∀ index, ¬ mark <:+: table.bodyAt index

theorem IsSeal.notMem_token {c : Char} (closed : IsSeal c) (index : Nat) : c ∉ token index := by
  intro member
  have wordly := isWord_of_mem_token member
  simp [closed.1] at wordly

namespace Draft

variable {table : ExpressionTable}

/-- A word at the start of a filled draft is written with its characters. -/
theorem exists_of_prefix_fill {word : Text} (wordly : ∀ c ∈ word, isWord c = true) {draft : Draft}
    (found : word <+: fill table draft) : ∃ back, draft = word.map .char ++ back := by
  induction word generalizing draft with
  | nil => exact ⟨draft, rfl⟩
  | cons c word induction =>
    match draft, found with
    | [], found => simp at found
    | .char d :: draft, found =>
      obtain ⟨rfl, later⟩ := List.cons_prefix_cons.mp found
      obtain ⟨back, rfl⟩ :=
        induction (fun e member => wordly e (List.mem_cons_of_mem _ member)) later
      exact ⟨back, rfl⟩
    | .item frame :: draft, found =>
      obtain ⟨rfl, -⟩ := List.cons_prefix_cons.mp found
      exact absurd (wordly _ List.mem_cons_self) (by simp [frame.opens.1])

/-- No placeholder begins within a frame. -/
theorem not_token_prefix_frame (unmarked : table.Unmarked) {frame : Frame} {kept rest : Text}
    (split : frame.text table = kept ++ rest) (filled : rest ≠ []) (index : Nat) (text : Text) :
    ¬ token index <+: rest ++ text := by
  intro found
  obtain ⟨inner, last, rfl⟩ : ∃ inner last, rest = inner ++ [last] :=
    ⟨_, _, (List.dropLast_concat_getLast filled).symm⟩
  have ends : frame.opening :: table.bodyAt frame.index = kept ++ inner ∧ frame.closing = last := by
    have lists : (frame.opening :: table.bodyAt frame.index) ++ [frame.closing] =
        (kept ++ inner) ++ [last] := by simpa [Frame.text] using split
    have parts := List.append_inj' lists rfl
    exact ⟨parts.1, by simpa using parts.2⟩
  obtain ⟨front, rfl⟩ := ends
  rw [List.append_assoc, List.singleton_append] at found
  have inside := Text.prefix_of_prefix_append_cons (frame.closes.notMem_token index) found
  have inFrame : mark <:+: frame.opening :: table.bodyAt frame.index := by
    rw [front]
    exact List.infix_append_of_infix_right ((mark_infix_token index).trans inside.isInfix)
  have outside : frame.opening ∉ mark := fun member =>
    frame.opens.notMem_token 0 ((mark_infix_token 0).mem member)
  exact unmarked _ ((Text.infix_cons_iff_of_notMem outside mark_ne_nil).mp inFrame)

theorem isSeal_opening : IsSeal '{' := ⟨by decide, by decide⟩

theorem isSeal_closing : IsSeal '}' := ⟨by decide, by decide⟩

/-- A placeholder is replaced in all tables at the same places of the draft. -/
theorem exists_replace_fill (index : Nat) (draft : Draft) :
    ∃ restored : Draft, ∀ table : ExpressionTable, table.Unmarked →
      Text.replace (token index) ('{' :: (table.bodyAt index ++ ['}'])) (draft.fill table) =
        restored.fill table := by
  match draft with
  | [] => exact ⟨[], fun table _ => Text.replace_nil _ _⟩
  | .item frame :: draft =>
    obtain ⟨restored, later⟩ := exists_replace_fill index draft
    refine ⟨.item frame :: restored, fun table unmarked => ?_⟩
    rw [fill_item, fill_item, ← later table unmarked]
    apply Text.replace_append_of_no_start (token_ne_nil index)
    intro kept rest split filled
    exact not_token_prefix_frame unmarked split filled index _
  | .char c :: draft =>
    have wordly : ∀ c ∈ token index, isWord c = true := fun c => isWord_of_mem_token
    by_cases here : ∃ back, .char c :: draft = (token index).map .char ++ back
    · obtain ⟨back, equal⟩ := here
      have shorter : back.length < draft.length + 1 := by
        have lengths := congrArg List.length equal
        have positive := List.length_pos_iff.mpr (token_ne_nil index)
        simp only [List.length_cons, List.length_append, List.length_map] at lengths
        omega
      obtain ⟨restored, later⟩ := exists_replace_fill index back
      refine ⟨.item ⟨'{', index, '}', isSeal_opening, isSeal_closing⟩ :: restored,
        fun table unmarked => ?_⟩
      rw [equal, fill_append, fill_map_char, Text.replace_append_self (token_ne_nil index),
        later table unmarked, fill_item]
      rfl
    · obtain ⟨restored, later⟩ := exists_replace_fill index draft
      refine ⟨.char c :: restored, fun table unmarked => ?_⟩
      have absent : ¬ token index <+: fill table (.char c :: draft) := fun found =>
        here (exists_of_prefix_fill wordly found)
      rw [fill_char] at absent ⊢
      rw [Text.replace_cons_of_not_prefix absent, later table unmarked, fill_char]
termination_by draft.length

theorem exists_restoreFrom_fill (count index : Nat) (draft : Draft) :
    ∃ restored : Draft, ∀ table : ExpressionTable, table.Unmarked →
      table.entries.length = index + count →
      ExpressionTable.restoreFrom index (table.entries.drop index) (draft.fill table) =
        restored.fill table := by
  induction count generalizing index draft with
  | zero =>
    refine ⟨draft, fun table _ length => ?_⟩
    rw [List.drop_eq_nil_of_le (by omega)]
    rfl
  | succ count induction =>
    obtain ⟨replaced, step⟩ := exists_replace_fill index draft
    obtain ⟨restored, later⟩ := induction (index + 1) replaced
    refine ⟨restored, fun table unmarked length => ?_⟩
    have bound : index < table.entries.length := by omega
    have entry : table.entries[index].source = '{' :: (table.bodyAt index ++ ['}']) := by
      simp [Expression.source, ExpressionTable.bodyAt, ExpressionTable.get?, bound]
    rw [List.drop_eq_getElem_cons bound, ExpressionTable.restoreFrom, entry, step table unmarked]
    exact later table unmarked (by omega)

end Draft

/-! ## Siblings -/

/-- The other source differs only in the bodies of its expressions, and in none of the empty
ones. -/
structure Sibling (source other : Text) : Prop where
  unmarked : ¬ mark <:+: other
  masked : (mask other).text = (mask source).text
  empty : ∀ index, (mask other).table.get? index = some ⟨[]⟩ ↔
    (mask source).table.get? index = some ⟨[]⟩

/-- A text is spelled by placeholders and characters in one way only. -/
theorem eq_of_spell_eq {pieces others : List (Piece Nat)} (clean : ¬ mark.map .char <:+: pieces)
    (cleanOthers : ¬ mark.map .char <:+: others) (equal : spell pieces = spell others) :
    pieces = others := by
  have starts : ∀ {pieces rest : List (Piece Nat)} {index : Nat}, ¬ mark.map .char <:+: pieces →
      spell pieces = token index ++ spell rest →
      ∃ back, pieces = .item index :: back ∧ spell rest = spell back := by
    intro pieces rest index clean equal
    rw [← List.nil_append (token index ++ spell rest)] at equal
    rcases spell_token_cases equal with ⟨front, back, split, empty, behind⟩ | ⟨digit, -, found⟩
    · obtain rfl := eq_nil_of_spell_eq_nil empty.symm
      exact ⟨back, split, behind⟩
    · rw [List.map_append] at found
      exact absurd ((List.prefix_append _ _).isInfix.trans found) clean
  induction pieces generalizing others with
  | nil => exact (eq_nil_of_spell_eq_nil equal.symm).symm
  | cons piece pieces induction =>
    have cleanTail : ¬ mark.map .char <:+: pieces := fun found => clean (List.infix_cons found)
    match piece, others, equal with
    | .item index, others, equal =>
      obtain ⟨back, rfl, behind⟩ := starts cleanOthers equal.symm
      rw [induction cleanTail (fun found => cleanOthers (List.infix_cons found)) behind]
    | .char c, [], equal => simp at equal
    | .char c, .char d :: others, equal =>
      obtain ⟨rfl, tails⟩ := List.cons.inj equal
      rw [induction cleanTail (fun found => cleanOthers (List.infix_cons found)) tails]
    | .char c, .item index :: others, equal =>
      obtain ⟨back, split, -⟩ := starts clean equal
      simp at split

/-- The expressions among the pieces are counted by their numbers. -/
theorem length_expressions_eq (index : Nat) (pieces : List (Piece Expression)) :
    (expressions pieces).length = (numbered index pieces).countP fun
      | .char _ => false
      | .item _ => true := by
  induction pieces generalizing index with
  | nil => rfl
  | cons piece pieces induction =>
    cases piece with
    | char c => simpa [numbered] using induction index
    | item expression => simpa [numbered] using induction (index + 1)

theorem not_mark_infix_numbered {source : Text} (unmarked : ¬ mark <:+: source) :
    ¬ mark.map .char <:+: numbered 0 (Expression.pattern.pieces source) := by
  intro found
  have inSource := infix_written_of_infix_numbered found
  rw [written_pieces] at inSource
  exact unmarked inSource

theorem Sibling.alike {source other : Text} (unmarked : ¬ mark <:+: source)
    (sibling : Sibling source other) : (mask source).table.Alike (mask other).table := by
  have spelled : spell (numbered 0 (Expression.pattern.pieces source)) =
      spell (numbered 0 (Expression.pattern.pieces other)) := by
    rw [spell_numbered, spell_numbered]
    exact sibling.masked.symm
  have lengths : (mask source).table.entries.length = (mask other).table.entries.length := by
    rw [entries_mask, entries_mask, length_expressions_eq 0, length_expressions_eq 0,
      eq_of_spell_eq (not_mark_infix_numbered unmarked) (not_mark_infix_numbered sibling.unmarked)
        spelled]
  apply List.ext_getElem
  · simpa using lengths
  · intro index bound otherBound
    rw [List.length_map] at bound otherBound
    have empty := sibling.empty index
    simp only [ExpressionTable.get?, List.getElem?_eq_getElem bound,
      List.getElem?_eq_getElem otherBound, Option.some.injEq] at empty
    have blank : ∀ expression : Expression, expression.body.isEmpty = true ↔ expression = ⟨[]⟩ := by
      rintro ⟨body⟩
      simp
    rw [List.getElem_map, List.getElem_map, Bool.eq_iff_iff, blank, blank]
    exact empty.symm

theorem exists_of_mem_expressions {expression : Expression} {pieces : List (Piece Expression)}
    (member : expression ∈ expressions pieces) :
    ∃ left right, pieces = left ++ .item expression :: right := by
  obtain ⟨piece, listed, equal⟩ := List.mem_filterMap.mp member
  cases piece with
  | char c => simp at equal
  | item other =>
    obtain rfl := Option.some.inj equal
    exact List.append_of_mem listed

theorem unmarked_table {source : Text} (unmarked : ¬ mark <:+: source) :
    (mask source).table.Unmarked := by
  intro index found
  cases entry : (mask source).table.get? index with
  | none =>
    simp only [ExpressionTable.bodyAt, entry, Option.map_none, Option.getD_none,
      List.infix_nil] at found
    exact mark_ne_nil found
  | some expression =>
    simp only [ExpressionTable.bodyAt, entry, Option.map_some, Option.getD_some] at found
    have listed : expression ∈ expressions (Expression.pattern.pieces source) := by
      rw [← entries_mask]
      exact List.mem_of_getElem? entry
    obtain ⟨left, right, split⟩ := exists_of_mem_expressions listed
    have inSource : expression.body <:+: source := by
      refine ⟨written left ++ ['{'], '}' :: written right, ?_⟩
      rw [← written_pieces source, split]
      simp [Expression.source]
    exact unmarked (found.trans inSource)

/-! ## One template for siblings -/

/-- A template with the bodies of a table in its numbered slots. An expression in braces is a slot
between two characters. -/
def ExpressionTable.fillIn (table : ExpressionTable) (template : List (Piece Nat)) : Text :=
  template.flatMap (Piece.replaced table.bodyAt)

/-- The two sources have the same number of statements, and one template for their results. -/
def SameRecognition (style : CallStyle) (source other : Text) : Prop :=
  (lower style source).statements = (lower style other).statements ∧
    ∃ template : List (Piece Nat),
      (lower style source).output = (mask source).table.fillIn template ∧
      (lower style other).output = (mask other).table.fillIn template

theorem Draft.exists_fillIn_eq (draft : Draft) :
    ∃ template, ∀ table : ExpressionTable, table.fillIn template = draft.fill table := by
  induction draft with
  | nil => exact ⟨[], fun _ => rfl⟩
  | cons piece draft induction =>
    obtain ⟨template, later⟩ := induction
    cases piece with
    | char c =>
      refine ⟨.char c :: template, fun table => ?_⟩
      rw [fill_char, ← later]
      rfl
    | item frame =>
      refine ⟨.char frame.opening :: .item frame.index :: .char frame.closing :: template,
        fun table => ?_⟩
      rw [fill_item, ← later]
      simp [ExpressionTable.fillIn, Piece.replaced, Frame.text]

/-- The draft of the text that the first pass leaves. -/
def firstDraft (style : CallStyle) (source : Text) : Draft :=
  (Segment.ofText ReturnStatement.parenthesized (mask source).text).flatMap
    (Segment.draft (mask source).table style)

/-- The second pass can find no statement that holds a part of an expression's body. -/
def StatementsApart (style : CallStyle) (source : Text) : Prop :=
  (firstDraft style source).Apart (mask source).table

section Sibling

variable {style : CallStyle} {source other : Text} (unmarked : ¬ mark <:+: source)
  (sibling : Sibling source other)
include unmarked sibling

theorem firstDraft_eq_of_sibling : firstDraft style other = firstDraft style source := by
  rw [firstDraft, firstDraft, sibling.masked]
  congr 1
  funext segment
  exact (Segment.draft_eq_of_alike (sibling.alike unmarked) style segment).symm

theorem firstPass_eq_of_sibling :
    Converter.convertForm ⟨style, some (mask other).table⟩ ReturnStatement.parenthesized
        (mask other).text =
      ⟨(firstDraft style source).fill (mask other).table,
        (Segment.ofText ReturnStatement.parenthesized (mask source).text).countP
          Segment.isStatement⟩ := by
  rw [Converter.convertForm, sibling.masked, firstDraft,
    fill_flatMap_draft (sibling.alike unmarked)]

/-- Siblings are lowered along one template if the second pass stays apart from the bodies. -/
theorem sameRecognition_of_apart (apart : StatementsApart style source)
    (otherApart : StatementsApart style other) : SameRecognition style source other := by
  have self : Sibling source source := ⟨unmarked, rfl, fun _ => Iff.rfl⟩
  have alike := sibling.alike unmarked
  rw [StatementsApart, firstDraft_eq_of_sibling unmarked sibling] at otherApart
  obtain ⟨converted, count, second⟩ :=
    exists_convertForm_fill style (mask source).table (firstDraft style source)
  obtain ⟨restored, third⟩ :=
    Draft.exists_restoreFrom_fill (mask source).table.entries.length 0 converted
  obtain ⟨template, filled⟩ := restored.exists_fillIn_eq
  have here := second _ rfl apart
  have there := second _ alike otherApart
  refine ⟨?_, template, ?_, ?_⟩
  · simp only [lower, Converter.convertReturns, firstPass_eq_of_sibling unmarked self,
      firstPass_eq_of_sibling unmarked sibling, here, there]
  · have restoring := third _ (unmarked_table unmarked) (Nat.zero_add _).symm
    simp only [lower, Converter.convertReturns, firstPass_eq_of_sibling unmarked self, here]
    rw [filled, ← restoring]
    rfl
  · have restoring := third _ (unmarked_table sibling.unmarked)
      (alike.length_eq.symm.trans (Nat.zero_add _).symm)
    simp only [lower, Converter.convertReturns, firstPass_eq_of_sibling unmarked sibling, there]
    rw [filled, ← restoring]
    rfl

end Sibling

end JsxCalls
