import JsxCalls.Proofs.Restoration

/-!
# Expressions and brace-free spans

The search for expressions finds exactly the spans from an opening to a closing brace with no brace
between them. So a source that is given by its pieces is cut into these pieces again, if each such
span is one of its expressions.
-/

namespace JsxCalls

open Placeholder

/-! ## Plain pieces -/

@[simp]
theorem written_map_char (text : Text) : written (text.map .char) = text := by
  induction text with
  | nil => rfl
  | cons c text induction => simp [induction]

@[simp]
theorem expressions_append (left right : List (Piece Expression)) :
    expressions (left ++ right) = expressions left ++ expressions right :=
  List.filterMap_append

@[simp]
theorem expressions_map_char (text : Text) : expressions (text.map .char) = [] := by
  induction text with
  | nil => rfl
  | cons c text induction => simp [induction]

@[simp]
theorem maskFrom_map_char (index : Nat) (text : Text) : maskFrom index (text.map .char) = text := by
  induction text with
  | nil => rfl
  | cons c text induction => simp [maskFrom, induction]

theorem maskFrom_append (index : Nat) (left right : List (Piece Expression)) :
    maskFrom index (left ++ right) =
      maskFrom index left ++ maskFrom (index + (expressions left).length) right := by
  induction left generalizing index with
  | nil => rfl
  | cons piece left induction =>
    cases piece with
    | char c => simp [maskFrom, induction]
    | item expression => simp [maskFrom, induction, Nat.add_assoc, Nat.add_comm 1]

theorem eq_nil_of_written_eq_nil {pieces : List (Piece Expression)} (empty : written pieces = []) :
    pieces = [] := by
  cases pieces with
  | nil => rfl
  | cons piece pieces => cases piece <;> simp [Expression.source] at empty

/-! ## Spans -/

theorem Expression.start?_append {text rest : Text} {expression : Expression}
    (found : start? text = some (expression, rest)) (behind : Text) :
    start? (text ++ behind) = some (expression, rest ++ behind) := by
  obtain ⟨rfl, plain⟩ := start?_eq_some_iff.mp found
  exact start?_eq_some_iff.mpr ⟨List.append_assoc .., plain⟩

/-- An opening brace ends whatever could have become an expression before it. -/
theorem Expression.start?_append_brace {front : Text} (filled : front ≠ [])
    (missed : start? front = none) (text : Text) : start? (front ++ '{' :: text) = none := by
  rw [Option.eq_none_iff_forall_ne_some]
  rintro ⟨expression, rest⟩ found
  obtain ⟨equal, plain⟩ := start?_eq_some_iff.mp found
  rcases List.append_eq_append_iff.mp equal with ⟨middle, source_eq, split⟩ | ⟨middle, front_eq, -⟩
  · cases middle with
    | nil =>
      have whole : start? front = some (expression, []) :=
        start?_eq_some_iff.mpr ⟨by simpa using source_eq.symm, plain⟩
      simp [whole] at missed
    | cons brace middle =>
      obtain ⟨rfl, -⟩ := List.cons.inj split
      obtain ⟨first, others, rfl⟩ := List.exists_cons_of_ne_nil filled
      have tails : expression.body ++ ['}'] = others ++ '{' :: middle :=
        (List.cons.inj source_eq).2
      have inside : '{' ∈ expression.body ++ ['}'] := by simp [tails]
      have member : '{' ∈ expression.body := by simpa using inside
      exact absurd (plain _ member) (by decide)
  · rw [front_eq, start?_eq_some_iff.mpr ⟨rfl, plain⟩] at missed
    simp at missed

namespace Expression

theorem pieces_append_brace (front text : Text) :
    pattern.pieces (front ++ '{' :: text) =
      pattern.pieces front ++ pattern.pieces ('{' :: text) := by
  fun_induction Pattern.pieces pattern front with
  | case1 => rfl
  | case2 c front expression rest found induction =>
    have here : start? (c :: front) = some (expression, rest) := found
    have whole : pattern.start? (c :: front ++ '{' :: text) =
        some (expression, rest ++ '{' :: text) := start?_append here _
    rw [Pattern.pieces_of_some whole, induction, List.cons_append]
  | case3 c front missed induction =>
    have none : pattern.start? (c :: (front ++ '{' :: text)) = none :=
      start?_append_brace (List.cons_ne_nil c front) missed text
    rw [List.cons_append, Pattern.pieces_of_none none, induction, List.cons_append]

/-- A brace-free span is found wherever it stands. -/
theorem pieces_span {expression : Expression} (plain : ∀ c ∈ expression.body, isBrace c = false)
    (front back : Text) :
    pattern.pieces (front ++ (expression.source ++ back)) =
      pattern.pieces front ++ .item expression :: pattern.pieces back := by
  have found : pattern.start? (expression.source ++ back) = some (expression, back) :=
    start?_eq_some_iff.mpr ⟨rfl, plain⟩
  rw [← Pattern.pieces_of_some found]
  exact pieces_append_brace front _

end Expression

/-- What is found has no braces between its own ones. -/
theorem braceless_of_mem_expressions {source : Text} {expression : Expression}
    (member : expression ∈ expressions (Expression.pattern.pieces source)) :
    ∀ c ∈ expression.body, isBrace c = false := by
  fun_induction Pattern.pieces Expression.pattern source with
  | case1 => simp at member
  | case2 c text first rest found induction =>
    have start : Expression.start? (c :: text) = some (first, rest) := found
    rcases List.mem_cons.mp member with rfl | later
    · exact (Expression.start?_eq_some_iff.mp start).2
    · exact induction later
  | case3 c text missed induction => exact induction member

/-- Every brace-free span of the source is one of the expressions among its pieces. -/
def SpansFound (pieces : List (Piece Expression)) : Prop :=
  ∀ (front : Text) (expression : Expression) (back : Text),
    written pieces = front ++ (expression.source ++ back) →
    (∀ c ∈ expression.body, isBrace c = false) →
    ∃ left right, pieces = left ++ .item expression :: right ∧ written left = front ∧
      written right = back

theorem SpansFound.tail {piece : Piece Expression} {pieces : List (Piece Expression)}
    (spans : SpansFound (piece :: pieces)) : SpansFound pieces := by
  intro front expression back equal plain
  have whole : written (piece :: pieces) =
      written [piece] ++ front ++ (expression.source ++ back) := by
    rw [List.append_assoc, ← equal, ← written_append, List.singleton_append]
  obtain ⟨left, right, split, left_eq, right_eq⟩ := spans _ _ _ whole plain
  cases left with
  | nil =>
    have nothing : written [piece] = [] := (List.append_eq_nil_iff.mp left_eq.symm).1
    exact absurd (eq_nil_of_written_eq_nil nothing) (List.cons_ne_nil _ _)
  | cons first left =>
    obtain ⟨rfl, rfl⟩ := List.cons.inj split
    rw [← List.singleton_append, written_append] at left_eq
    exact ⟨left, right, rfl, List.append_cancel_left left_eq, right_eq⟩

/-- A source is cut into the pieces it was put together from. -/
theorem pieces_written {pieces : List (Piece Expression)}
    (plain : ∀ expression, .item expression ∈ pieces → ∀ c ∈ expression.body, isBrace c = false)
    (spans : SpansFound pieces) : Expression.pattern.pieces (written pieces) = pieces := by
  induction pieces with
  | nil => simp [Pattern.pieces]
  | cons piece pieces induction =>
    have later := induction (fun e member => plain e (List.mem_cons_of_mem _ member)) spans.tail
    cases piece with
    | char c =>
      have missed : Expression.pattern.start? (c :: written pieces) = none := by
        rw [Option.eq_none_iff_forall_ne_some]
        rintro ⟨expression, rest⟩ found
        have here : Expression.start? (c :: written pieces) = some (expression, rest) := found
        obtain ⟨equal, inside⟩ := Expression.start?_eq_some_iff.mp here
        obtain ⟨left, right, split, left_eq, -⟩ := spans [] expression rest equal inside
        rw [eq_nil_of_written_eq_nil left_eq] at split
        simp at split
      rw [written_char, Pattern.pieces_of_none missed, later]
    | item expression =>
      have found : Expression.pattern.start? (expression.source ++ written pieces) =
          some (expression, written pieces) :=
        Expression.start?_eq_some_iff.mpr ⟨rfl, plain expression List.mem_cons_self⟩
      rw [written_item, Pattern.pieces_of_some found, later]

theorem spansFound_of_pieces_eq {pieces : List (Piece Expression)}
    (same : Expression.pattern.pieces (written pieces) = pieces) : SpansFound pieces := by
  intro front expression back equal plain
  refine ⟨Expression.pattern.pieces front, Expression.pattern.pieces back, ?_, written_pieces _,
    written_pieces _⟩
  rw [← Expression.pieces_span plain, ← equal, same]

/-! ## Words in a masked source -/

theorem notMem_token_of_isLower {c : Char} (small : c.isLower = true) (index : Nat) :
    c ∉ token index := by
  intro member
  rcases mem_token_cases member with rfl | inMark | inDigits
  · exact absurd small (by decide)
  · have all : mark.all (fun d => !d.isLower) = true := by decide
    have large := List.all_eq_true.mp all c inMark
    simp [small] at large
  · have digit := isDigit_of_mem_ofNat inDigits
    have upper : c.val ≤ '9'.val := of_decide_eq_true (Bool.and_eq_true_iff.mp digit).2
    have lower : 'a'.val ≤ c.val := of_decide_eq_true (Bool.and_eq_true_iff.mp small).1
    exact absurd (UInt32.le_trans lower upper) (by decide)

theorem infix_of_infix_spell {word : Text} (filled : word ≠ [])
    (small : ∀ c ∈ word, c.isLower = true) {pieces : List (Piece Nat)}
    (found : word <:+: spell pieces) : word.map .char <:+: pieces := by
  have underscore : '_' ∉ word := fun member => absurd (small _ member) (by decide)
  induction pieces with
  | nil => exact absurd (List.infix_nil.mp found) filled
  | cons piece pieces induction =>
    cases piece with
    | char c =>
      rcases List.infix_cons_iff.mp found with ⟨behind, equal⟩ | later
      · have starts : spell (.char c :: pieces) = word ++ behind := equal.symm
        obtain ⟨others, split, -⟩ := exists_of_spell_eq_append underscore starts
        exact ⟨[], others, split.symm⟩
      · exact List.infix_cons (induction later)
    | item number =>
      apply List.infix_cons
      apply induction
      apply Text.infix_of_no_start found
      -- The word would begin with a character of the placeholder, which has no small letters.
      intro kept rest equal nonempty starts
      obtain ⟨c, rest, rfl⟩ := List.exists_cons_of_ne_nil nonempty
      obtain ⟨first, others, rfl⟩ := List.exists_cons_of_ne_nil filled
      have same : first = c := (List.cons_prefix_cons.mp starts).1
      have inside : c ∈ token number := by
        change token number = kept ++ c :: rest at equal
        simp [equal]
      exact notMem_token_of_isLower (small first List.mem_cons_self) number (same ▸ inside)

/-- A word of small letters in a masked source stands in the source. -/
theorem infix_written_of_infix_maskFrom {word : Text} (filled : word ≠ [])
    (small : ∀ c ∈ word, c.isLower = true) {index : Nat} {pieces : List (Piece Expression)}
    (found : word <:+: maskFrom index pieces) : word <:+: written pieces := by
  rw [← spell_numbered] at found
  exact infix_written_of_infix_numbered (infix_of_infix_spell filled small found)

end JsxCalls
