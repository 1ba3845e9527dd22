import JsxCalls.Attribute.Parser
import JsxCalls.Proofs.Span

/-!
# Innermost pairs of braces

Masking searches a source from left to right, and goes on behind each expression that it finds. What
it finds can be told from the positions of the braces alone: an expression stands at each opening
brace whose next brace is a closing one. So the pairs that are masked are the innermost ones,
however the other braces are nested or left open.
-/

namespace JsxCalls

namespace Text

/-! ## Positions of pairs -/

/-- An innermost pair opens at the position: an opening brace stands there, and the next brace
behind it is a closing one. -/
def OpensPair (source : Text) (position : Nat) : Prop :=
  source[position]? = some '{' ∧ (source.drop (position + 1)).find? isBrace = some '}'

instance (source : Text) (position : Nat) : Decidable (OpensPair source position) :=
  inferInstanceAs (Decidable (_ ∧ _))

/-- The position of the next brace behind a position. -/
def nextBrace (source : Text) (position : Nat) : Nat :=
  position + 1 + (source.drop (position + 1)).findIdx isBrace

/-- The positions at which innermost pairs open, from left to right. -/
def openings (source : Text) : List Nat :=
  (List.range source.length).filter (OpensPair source ·)

/-- The text from a position through the next brace. -/
def spanFrom (source : Text) (position : Nat) : Text :=
  source.extract position (nextBrace source position + 1)

/-- The position lies behind the opening brace of an innermost pair, and not behind the closing
one. -/
def Enclosed (source : Text) (position : Nat) : Prop :=
  ∃ start ∈ openings source, start < position ∧ position ≤ nextBrace source start

instance (source : Text) (position : Nat) : Decidable (Enclosed source position) :=
  inferInstanceAs (Decidable (∃ start ∈ openings source, _))

/-- What stands for the character at a position in the masked source: the placeholder of a pair that
opens there, nothing within a pair, and otherwise the character itself. The pairs are numbered from
`index` on. -/
def maskedAt (index : Nat) (source : Text) (position : Nat) : Text :=
  if OpensPair source position then
    Placeholder.token (index + (openings source).countP (· < position))
  else if Enclosed source position then []
  else source[position]?.toList

/-! ## Positions behind a front part -/

section Append

variable (front text : Text)

theorem opensPair_append (position : Nat) :
    OpensPair (front ++ text) (front.length + position) ↔ OpensPair text position := by
  rw [OpensPair, OpensPair, Nat.add_assoc, List.drop_length_add_append,
    List.getElem?_append_right (Nat.le_add_right _ _), Nat.add_sub_cancel_left]

theorem nextBrace_append (position : Nat) :
    nextBrace (front ++ text) (front.length + position) =
      front.length + nextBrace text position := by
  rw [nextBrace, nextBrace, Nat.add_assoc front.length, List.drop_length_add_append]
  omega

theorem spanFrom_append (position : Nat) :
    spanFrom (front ++ text) (front.length + position) = spanFrom text position := by
  rw [spanFrom, spanFrom, nextBrace_append, List.extract_eq_take_drop, List.extract_eq_take_drop,
    List.drop_length_add_append]
  congr 1
  omega

/-- The pairs that open in a front part. -/
def ownOpenings : List Nat :=
  (List.range front.length).filter (OpensPair (front ++ text) ·)

theorem openings_append : openings (front ++ text) =
    ownOpenings front text ++ (openings text).map (front.length + ·) := by
  have shifted :
      ((fun position => decide (OpensPair (front ++ text) position)) ∘ (front.length + ·)) =
        fun position => decide (OpensPair text position) :=
    funext fun position => decide_eq_decide.mpr (opensPair_append front text position)
  rw [openings, List.length_append, List.range_add, List.filter_append, List.filter_map, shifted]
  rfl

variable {front text}
  (closed : ∀ start ∈ ownOpenings front text, nextBrace (front ++ text) start < front.length)

theorem lt_of_mem_ownOpenings {start : Nat} (member : start ∈ ownOpenings front text) :
    start < front.length :=
  List.mem_range.mp (List.mem_filter.mp member).1

theorem countP_openings_append (position : Nat) :
    (openings (front ++ text)).countP (· < front.length + position) =
      (ownOpenings front text).length + (openings text).countP (· < position) := by
  have own : (ownOpenings front text).countP (· < front.length + position) =
      (ownOpenings front text).length := by
    rw [List.countP_eq_length]
    intro start member
    have := lt_of_mem_ownOpenings member
    simp only [decide_eq_true_eq]
    omega
  have shifted : ((fun start => decide (start < front.length + position)) ∘ (front.length + ·)) =
      fun start => decide (start < position) :=
    funext fun start => decide_eq_decide.mpr Nat.add_lt_add_iff_left
  rw [openings_append, List.countP_append, own, List.countP_map, shifted]

include closed

theorem enclosed_append (position : Nat) :
    Enclosed (front ++ text) (front.length + position) ↔ Enclosed text position := by
  rw [Enclosed, openings_append]
  constructor
  · rintro ⟨start, member, before, within⟩
    rcases List.mem_append.mp member with own | later
    · have := closed start own
      omega
    · obtain ⟨start, inside, rfl⟩ := List.mem_map.mp later
      rw [nextBrace_append] at within
      exact ⟨start, inside, by omega, by omega⟩
  · rintro ⟨start, member, before, within⟩
    refine ⟨front.length + start, ?_, by omega, ?_⟩
    · exact List.mem_append_right _ (List.mem_map_of_mem member)
    · rw [nextBrace_append]
      omega

/-- If the pairs of a front part are closed within it, it does not matter behind it, except that the
numbers go on. -/
theorem maskedAt_append (index position : Nat) :
    maskedAt index (front ++ text) (front.length + position) =
      maskedAt (index + (ownOpenings front text).length) text position := by
  simp only [maskedAt, opensPair_append, enclosed_append closed, countP_openings_append,
    Nat.add_assoc, List.getElem?_append_right (Nat.le_add_right _ _), Nat.add_sub_cancel_left]

theorem flatMap_maskedAt_append (index : Nat) :
    (List.range (front ++ text).length).flatMap (maskedAt index (front ++ text)) =
      (List.range front.length).flatMap (maskedAt index (front ++ text)) ++
        (List.range text.length).flatMap
          (maskedAt (index + (ownOpenings front text).length) text) := by
  rw [List.length_append, List.range_add, List.flatMap_append, List.flatMap_map]
  simp only [maskedAt_append closed]

end Append

/-! ## One step of the search -/

section Expression

variable {expression : Expression} (braceless : ∀ c ∈ expression.body, isBrace c = false)
  (rest : Text)

theorem source_append :
    expression.source ++ rest = '{' :: (expression.body ++ '}' :: rest) := by
  simp [Expression.source]

theorem length_source : expression.source.length = expression.body.length + 2 := by
  simp [Expression.source]

include braceless

theorem opensPair_source : OpensPair (expression.source ++ rest) 0 := by
  have plain : expression.body.find? isBrace = none := by
    rw [List.find?_eq_none]
    intro c member
    simp [braceless c member]
  refine ⟨rfl, ?_⟩
  rw [source_append, List.drop_succ_cons, List.drop_zero, List.find?_append, plain]
  rfl

theorem not_opensPair_source {position : Nat} (inside : position ≤ expression.body.length) :
    ¬ OpensPair (expression.source ++ rest) (position + 1) := by
  rintro ⟨opens, -⟩
  have front : position < (expression.body ++ ['}']).length := by
    rw [List.length_append, List.length_singleton]
    omega
  have here : (expression.body ++ ['}'])[position]? = some '{' := by
    rw [Expression.source, List.cons_append, List.cons_append, List.getElem?_cons_succ,
      List.getElem?_append_left front] at opens
    exact opens
  rcases List.mem_append.mp (List.mem_of_getElem? here) with member | last
  · exact absurd (braceless _ member) (by decide)
  · simp at last

theorem nextBrace_source :
    nextBrace (expression.source ++ rest) 0 = expression.body.length + 1 := by
  have plain : expression.body.findIdx isBrace = expression.body.length :=
    List.findIdx_eq_length.mpr braceless
  have closing : ('}' :: rest).findIdx isBrace = 0 := by
    rw [List.findIdx_cons]
    rfl
  rw [nextBrace, source_append, List.drop_succ_cons, List.drop_zero, List.findIdx_append, plain,
    if_neg (Nat.lt_irrefl _), closing]
  omega

theorem ownOpenings_source : ownOpenings expression.source rest = [0] := by
  have none : (List.range (expression.body.length + 1)).filter
      ((fun position => decide (OpensPair (expression.source ++ rest) position)) ∘ Nat.succ) =
        [] := by
    rw [List.filter_eq_nil_iff]
    intro position member
    have inside := List.mem_range.mp member
    simpa using not_opensPair_source braceless rest (Nat.le_of_lt_succ inside)
  rw [ownOpenings, length_source, List.range_succ_eq_map,
    List.filter_cons_of_pos (by simpa using opensPair_source braceless rest), List.filter_map, none,
    List.map_nil]

theorem closed_source : ∀ start ∈ ownOpenings expression.source rest,
    nextBrace (expression.source ++ rest) start < expression.source.length := by
  rw [ownOpenings_source braceless, List.forall_mem_singleton, nextBrace_source braceless,
    length_source]
  omega

theorem spanFrom_source : spanFrom (expression.source ++ rest) 0 = expression.source := by
  rw [spanFrom, nextBrace_source braceless, List.extract_eq_take_drop, List.drop_zero]
  exact List.take_left' length_source

theorem openings_source : openings (expression.source ++ rest) =
    0 :: (openings rest).map (expression.source.length + ·) := by
  rw [openings_append, ownOpenings_source braceless, List.singleton_append]

/-- The placeholder stands for all characters of the expression. -/
theorem flatMap_maskedAt_source (index : Nat) :
    (List.range expression.source.length).flatMap (maskedAt index (expression.source ++ rest)) =
      Placeholder.token index := by
  have first : maskedAt index (expression.source ++ rest) 0 = Placeholder.token index := by
    rw [maskedAt, if_pos (opensPair_source braceless rest)]
    simp
  have others : ∀ position ∈ List.range (expression.body.length + 1),
      maskedAt index (expression.source ++ rest) position.succ = [] := by
    intro position member
    have inside := Nat.le_of_lt_succ (List.mem_range.mp member)
    have enclosed : Enclosed (expression.source ++ rest) position.succ := by
      refine ⟨0, ?_, Nat.succ_pos _, ?_⟩
      · rw [openings_source braceless]
        exact List.mem_cons_self
      · rw [nextBrace_source braceless]
        exact Nat.succ_le_succ inside
    rw [maskedAt, if_neg (not_opensPair_source braceless rest inside), if_pos enclosed]
  rw [length_source, List.range_succ_eq_map, List.flatMap_cons, first, List.flatMap_map,
    List.flatMap_eq_nil_iff.mpr others, List.append_nil]

end Expression

section Character

variable {c : Char} {text : Text} (missed : Expression.start? (c :: text) = none)
include missed

theorem not_opensPair_of_start?_eq_none : ¬ OpensPair (c :: text) 0 := by
  rintro ⟨opens, closes⟩
  obtain rfl : c = '{' := Option.some.inj opens
  rw [List.drop_succ_cons, List.drop_zero] at closes
  obtain ⟨-, body, rest, rfl, plain⟩ := List.find?_eq_some_iff_append.mp closes
  have found : Expression.start? ('{' :: (body ++ '}' :: rest)) = some (⟨body⟩, rest) := by
    refine Expression.start?_eq_some_iff.mpr ⟨(source_append rest).symm, fun c member => ?_⟩
    simpa using plain c member
  rw [found] at missed
  exact Option.some_ne_none _ missed

theorem ownOpenings_of_start?_eq_none : ownOpenings [c] text = [] := by
  rw [ownOpenings, List.filter_eq_nil_iff]
  intro position member
  obtain rfl : position = 0 := Nat.lt_one_iff.mp (List.mem_range.mp member)
  simpa using not_opensPair_of_start?_eq_none missed

theorem maskedAt_of_start?_eq_none (index : Nat) : maskedAt index (c :: text) 0 = [c] := by
  have free : ¬ Enclosed (c :: text) 0 := by
    rintro ⟨start, -, before, -⟩
    exact Nat.not_lt_zero start before
  rw [maskedAt, if_neg (not_opensPair_of_start?_eq_none missed), if_neg free]
  rfl

end Character

end Text

open Text

/-! ## The whole search -/

/-- The expressions of a source are the innermost pairs, in the order of their positions. -/
theorem map_source_expressions (source : Text) :
    (expressions (Expression.pattern.pieces source)).map Expression.source =
      (openings source).map (spanFrom source) := by
  fun_induction Pattern.pieces Expression.pattern source with
  | case1 => rfl
  | case2 c text expression rest found induction =>
    -- the search goes on behind the expression, where every position is shifted by its length
    obtain ⟨equal, braceless⟩ :=
      Expression.start?_eq_some_iff.mp (show Expression.start? (c :: text) = _ from found)
    rw [expressions_item, List.map_cons, induction, equal, openings_source braceless, List.map_cons,
      spanFrom_source braceless, List.map_map]
    exact congrArg _ (List.map_congr_left fun start _ => (spanFrom_append _ _ _).symm)
  | case3 c text missed induction =>
    -- no pair opens at a character where no expression starts
    have own : ownOpenings [c] text = [] := ownOpenings_of_start?_eq_none missed
    have split := openings_append [c] text
    rw [own, List.nil_append] at split
    rw [expressions_char, induction, ← List.singleton_append, split, List.map_map]
    exact List.map_congr_left fun start _ => (spanFrom_append [c] text start).symm

/-- A masked source is given position by position. -/
theorem maskFrom_pieces_eq (index : Nat) (source : Text) :
    maskFrom index (Expression.pattern.pieces source) =
      (List.range source.length).flatMap (maskedAt index source) := by
  fun_induction Pattern.pieces Expression.pattern source generalizing index with
  | case1 => rfl
  | case2 c text expression rest found induction =>
    obtain ⟨equal, braceless⟩ :=
      Expression.start?_eq_some_iff.mp (show Expression.start? (c :: text) = _ from found)
    rw [maskFrom, induction, equal, flatMap_maskedAt_append (closed_source braceless rest),
      flatMap_maskedAt_source braceless, ownOpenings_source braceless, List.length_singleton]
  | case3 c text missed induction =>
    have own : ownOpenings [c] text = [] := ownOpenings_of_start?_eq_none missed
    have closed : ∀ start ∈ ownOpenings [c] text, nextBrace ([c] ++ text) start < [c].length := by
      rw [own]
      exact List.forall_mem_nil _
    have first : (List.range [c].length).flatMap (maskedAt index ([c] ++ text)) = [c] := by
      rw [List.length_singleton, List.range_one, List.flatMap_singleton]
      exact maskedAt_of_start?_eq_none missed index
    have split := flatMap_maskedAt_append closed index
    rw [first, own, List.length_nil, Nat.add_zero] at split
    rw [maskFrom, induction]
    exact split.symm

/-! ## Slices -/

namespace Text

/-- The slice of a text between two positions, which are counted in bytes. It exists only where both
positions are ends of characters and the first is not behind the second. -/
def IsSlice (start stop : Nat) (slice text : Text) : Prop :=
  ∃ before behind, text = before ++ (slice ++ behind) ∧ byteCount before = start ∧
    byteCount (before ++ slice) = stop

/-- The body of an expression is the slice without the first and the last byte. -/
theorem isSlice_body (expression : Expression) :
    2 ≤ byteCount expression.source ∧
      IsSlice 1 (byteCount expression.source - 1) expression.body expression.source := by
  have bytes : byteCount expression.source = byteCount (['{'] ++ expression.body) + 1 :=
    byteCount_append (['{'] ++ expression.body) ['}']
  have front : byteCount (['{'] ++ expression.body) = 1 + byteCount expression.body :=
    byteCount_append ['{'] expression.body
  refine ⟨by omega, ['{'], ['}'], rfl, rfl, by omega⟩

end Text

theorem ExpressionTable.mem_of_resolve? {table : ExpressionTable} {token : Text}
    {entry : Expression} (known : table.resolve? token = some entry) : entry ∈ table.entries := by
  obtain ⟨index, -, found⟩ := Option.bind_eq_some_iff.mp known
  exact List.mem_of_getElem? found

/-- Masking takes out exactly the innermost pairs of braces. Its table holds the text of each pair,
in the order of their positions, and the masked source has the placeholder of each pair in its place
and all other characters as they were. So whatever a token is resolved to is at least as long as two
braces, and its body is its text without the first and the last byte. -/
theorem mask_innermost (source : Text) :
    (mask source).table.entries.map Expression.source = (openings source).map (spanFrom source) ∧
      (mask source).table.entries.length =
        (List.range source.length).countP (OpensPair source ·) ∧
      (∀ entry ∈ (mask source).table.entries, ∀ c ∈ entry.body, isBrace c = false) ∧
      (mask source).text = (List.range source.length).flatMap (maskedAt 0 source) ∧
      ∀ token entry, (mask source).table.resolve? token = some entry →
        (∃ start ∈ openings source, entry.source = spanFrom source start) ∧
          2 ≤ byteCount entry.source ∧
          IsSlice 1 (byteCount entry.source - 1) entry.body entry.source ∧
          (WrittenValue.masked token).value (some (mask source).table) =
            .ofExpression entry.body := by
  have spans := map_source_expressions source
  rw [← entries_mask] at spans
  refine ⟨spans, ?_, ?_, maskFrom_pieces_eq 0 source, ?_⟩
  · rw [← List.length_map Expression.source, spans, List.length_map, openings,
      ← List.countP_eq_length_filter]
  · rw [entries_mask]
    exact fun entry => braceless_of_mem_expressions
  · intro token entry known
    obtain ⟨long, slice⟩ := isSlice_body entry
    have listed : entry.source ∈ (openings source).map (spanFrom source) := by
      rw [← spans]
      exact List.mem_map_of_mem (ExpressionTable.mem_of_resolve? known)
    obtain ⟨start, member, equal⟩ := List.mem_map.mp listed
    refine ⟨⟨start, member, equal.symm⟩, long, slice, ?_⟩
    simp only [WrittenValue.value, Option.bind_some, known]

end JsxCalls
