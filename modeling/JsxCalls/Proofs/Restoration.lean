import JsxCalls.Lowering
import JsxCalls.Proofs.Placeholder

/-!
# Restoring a masked source

The expressions come back one after another, each wherever its placeholder is found in a text that
already holds the earlier expressions again. So the source comes back exactly if no placeholder is
found away from its own place. A text that once went wrong never becomes the source again: the
first wrong place keeps a brace where the source has none, or has none where the source does.
-/

namespace JsxCalls

open Placeholder

/-! ## Sources and their pieces -/

/-- The source that consists of the given pieces. -/
def written (pieces : List (Piece Expression)) : Text :=
  pieces.flatMap (Piece.replaced Expression.source)

/-- The expressions among the pieces. -/
def expressions (pieces : List (Piece Expression)) : List Expression :=
  pieces.filterMap fun
    | .char _ => none
    | .item found => some found

/-- The pieces with numbers in place of the expressions, the first of which gets `index`. -/
def numbered (index : Nat) : List (Piece Expression) → List (Piece Nat)
  | [] => []
  | .char c :: pieces => .char c :: numbered index pieces
  | .item _ :: pieces => .item index :: numbered (index + 1) pieces

@[simp]
theorem written_nil : written [] = [] := rfl

@[simp]
theorem written_char (c : Char) (pieces : List (Piece Expression)) :
    written (.char c :: pieces) = c :: written pieces := rfl

@[simp]
theorem written_item (expression : Expression) (pieces : List (Piece Expression)) :
    written (.item expression :: pieces) = expression.source ++ written pieces := rfl

@[simp]
theorem written_append (left right : List (Piece Expression)) :
    written (left ++ right) = written left ++ written right :=
  List.flatMap_append

@[simp]
theorem expressions_nil : expressions [] = [] := rfl

@[simp]
theorem expressions_char (c : Char) (pieces : List (Piece Expression)) :
    expressions (.char c :: pieces) = expressions pieces := rfl

@[simp]
theorem expressions_item (expression : Expression) (pieces : List (Piece Expression)) :
    expressions (.item expression :: pieces) = expression :: expressions pieces := rfl

theorem spell_numbered (index : Nat) (pieces : List (Piece Expression)) :
    spell (numbered index pieces) = maskFrom index pieces := by
  induction pieces generalizing index with
  | nil => rfl
  | cons piece pieces induction => cases piece <;> simp [numbered, maskFrom, induction]

/-- A source is put together again from its pieces. -/
theorem written_pieces (source : Text) : written (Expression.pattern.pieces source) = source := by
  fun_induction Pattern.pieces Expression.pattern source with
  | case1 => rfl
  | case2 c text item rest found induction =>
    have split : Expression.start? (c :: text) = some (item, rest) := found
    rw [written_item, induction, (Expression.start?_eq_some_iff.mp split).1]
  | case3 c text missed induction => rw [written_char, induction]

theorem entries_mask (source : Text) :
    (mask source).table.entries = expressions (Expression.pattern.pieces source) := by
  simp only [mask, Pattern.items, expressions]
  congr 1
  funext piece
  cases piece <;> rfl

theorem brace_notMem_token (index : Nat) : '{' ∉ token index := by
  intro member
  rw [token_eq] at member
  have digit : '{' ∈ Text.ofNat index := by simpa [mark_eq] using member
  exact absurd (isDigit_of_mem_ofNat digit) (by decide)

/-! ## One step of restoring -/

/-- An occurrence that begins before the place of a word, but does not end behind it. -/
theorem infix_append_dropLast_iff {word before : Text} (filled : word ≠ []) (text : Text) :
    word <:+: before ++ word.dropLast ↔
      ∃ kept rest, before = kept ++ rest ∧ rest ≠ [] ∧ word <+: rest ++ (word ++ text) := by
  have own : ∀ rest : Text, rest ++ word.dropLast <+: rest ++ (word ++ text) := fun rest =>
    (List.prefix_append_right_inj rest).mpr
      ((List.dropLast_prefix word).trans (List.prefix_append word text))
  have positive := List.length_pos_iff.mpr filled
  constructor
  · rintro ⟨kept, behind, equal⟩
    have lengths := congrArg List.length equal
    simp only [List.length_append, List.length_dropLast] at lengths
    rw [List.append_assoc] at equal
    rcases List.append_eq_append_iff.mp equal with ⟨rest, rfl, split⟩ | ⟨middle, rfl, -⟩
    · refine ⟨kept, rest, rfl, ?_, ?_⟩
      · rintro rfl
        simp only [List.length_append, List.length_nil] at lengths
        omega
      · exact List.IsPrefix.trans ⟨behind, split⟩ (own rest)
    · simp only [List.length_append] at lengths
      omega
  · rintro ⟨kept, rest, rfl, nonempty, found⟩
    have inside : word <+: rest ++ word.dropLast := by
      apply List.prefix_of_prefix_length_le found (own rest)
      have := List.length_pos_iff.mpr nonempty
      rw [List.length_append, List.length_dropLast]
      omega
    rw [List.append_assoc]
    exact List.infix_append_of_infix_right inside.isInfix

/-- A text with a placeholder whose number is not found before it: only the placeholder itself and
what is found behind it are replaced. -/
theorem replace_own_place {index : Nat} {before : Text} (text replacement : Text)
    (absent : ¬ token index <:+: before ++ (token index).dropLast) :
    Text.replace (token index) replacement (before ++ (token index ++ text)) =
      before ++ (replacement ++ Text.replace (token index) replacement text) := by
  have kept : Text.replace (token index) replacement (before ++ (token index ++ text)) =
      before ++ Text.replace (token index) replacement (token index ++ text) := by
    apply Text.replace_append_of_no_start (token_ne_nil index)
    intro kept rest equal nonempty found
    exact absent ((infix_append_dropLast_iff (token_ne_nil index) text).mpr
      ⟨kept, rest, equal, nonempty, found⟩)
  rw [kept, Text.replace_append_self (token_ne_nil index)]

/-- No placeholder occurs in a part of another one. -/
theorem not_token_infix_of_append_eq {index number : Nat} {stump missing : Text}
    (split : token number = stump ++ missing) (cut : missing ≠ []) :
    ¬ token index <:+: stump := by
  rintro ⟨before, behind, rfl⟩
  have spelled : spell [.item number] = before ++ (token index ++ (behind ++ missing)) := by
    simpa using split
  rcases spell_token_cases spelled with ⟨front, back, pieces_eq, -, behind_eq⟩ | ⟨digit, -, found⟩
  · have empty : back = [] := by
      have lengths := congrArg List.length pieces_eq
      simp only [List.length_append, List.length_cons, List.length_nil] at lengths
      exact List.length_eq_zero_iff.mp (by omega)
    rw [empty, spell_nil] at behind_eq
    exact cut (List.append_eq_nil_iff.mp behind_eq).2
  · have long := found.length_le
    simp [mark_eq] at long

/-- A text without the mark holds no placeholder, so nothing is restored in it. -/
theorem restoreFrom_eq_self {text : Text} (unmarked : ¬ mark <:+: text) (index : Nat)
    (entries : List Expression) : ExpressionTable.restoreFrom index entries text = text := by
  induction entries generalizing index with
  | nil => rfl
  | cons entry entries induction =>
    have absent : ¬ token index <:+: text := fun found =>
      unmarked ((mark_infix_token index).trans found)
    rw [ExpressionTable.restoreFrom, Text.replace_eq_self (token_ne_nil index) absent]
    exact induction (index + 1)

/-! ## Texts that went wrong -/

/-- Behind a front that the text shares with the source, the text holds a brace or a stump of a
placeholder where the source goes on with another character. -/
def Astray (source text : Text) : Prop :=
  ∃ front stump after rest, text = front ++ (stump ++ '{' :: after) ∧ source = front ++ rest ∧
    (∀ index, ¬ token index <:+: stump) ∧ (stump ++ ['{']).head? ≠ rest.head?

theorem Astray.ne {source text : Text} (astray : Astray source text) : text ≠ source := by
  obtain ⟨front, stump, after, rest, rfl, rfl, -, differ⟩ := astray
  intro equal
  apply differ
  rw [← List.append_cancel_left equal]
  cases stump <;> rfl

/-- Text that replaces something before the place where the source goes on is wrong there. -/
theorem astray_of_replaced {index : Nat} {kept rest tail text : Text} {expression : Expression}
    (after : Text) (nonempty : rest ≠ []) (found : token index <+: rest ++ text) :
    Astray (kept ++ (rest ++ tail)) (kept ++ (expression.source ++ after)) := by
  refine ⟨kept, [], expression.body ++ '}' :: after, rest ++ tail, ?_, rfl, ?_, ?_⟩
  · simp [Expression.source]
  · intro number occurs
    exact token_ne_nil number (List.infix_nil.mp occurs)
  · obtain ⟨c, others, rfl⟩ := List.exists_cons_of_ne_nil nonempty
    obtain ⟨behind, equal⟩ := found
    rw [token_eq] at equal
    obtain ⟨rfl, -⟩ := List.cons.inj equal
    simp

theorem astray_of_early {index : Nat} {before : Text}
    (early : token index <:+: before ++ (token index).dropLast) (expression : Expression)
    (text tail : Text) :
    Astray (before ++ tail)
      (Text.replace (token index) expression.source (before ++ (token index ++ text))) := by
  obtain ⟨kept, rest, before_eq, nonempty, found⟩ :=
    (infix_append_dropLast_iff (token_ne_nil index) text).mp early
  rcases Text.replace_append_cases (token_ne_nil index) expression.source before
      (token index ++ text) with ⟨none, -⟩ | ⟨kept, rest, after, rfl, nonempty, found, equal⟩
  · exact absurd found (none kept rest before_eq nonempty)
  · rw [equal, List.append_assoc]
    exact astray_of_replaced after nonempty found

theorem Astray.replace {source text : Text} (astray : Astray source text) (index : Nat)
    (expression : Expression) :
    Astray source (Text.replace (token index) expression.source text) := by
  obtain ⟨front, stump, after, rest, rfl, rfl, free, differ⟩ := astray
  rcases Text.replace_append_cases (token_ne_nil index) expression.source front
      (stump ++ '{' :: after) with ⟨-, equal⟩ | ⟨kept, cut, later, rfl, nonempty, found, equal⟩
  · -- Nothing before the wrong place is found, and nothing reaches over the brace.
    have brace : ¬ token index <+: '{' :: after := by
      rintro ⟨behind, split⟩
      rw [token_eq] at split
      exact absurd (List.cons.inj split).1 (by decide)
    have behind : Text.replace (token index) expression.source (stump ++ '{' :: after) =
        stump ++ '{' :: Text.replace (token index) expression.source after := by
      rw [← Text.replace_cons_of_not_prefix brace]
      apply Text.replace_append_of_no_start (token_ne_nil index)
      intro kept cut split _ found
      have inside := Text.prefix_of_prefix_append_cons (brace_notMem_token index) found
      exact free index (split ▸ List.infix_append_of_infix_right inside.isInfix)
    rw [equal, behind]
    exact ⟨front, stump, _, rest, rfl, rfl, free, differ⟩
  · rw [equal, List.append_assoc]
    exact astray_of_replaced later nonempty found

theorem Astray.restoreFrom_ne {source text : Text} (astray : Astray source text) (index : Nat)
    (entries : List Expression) : ExpressionTable.restoreFrom index entries text ≠ source := by
  induction entries generalizing index text with
  | nil => exact astray.ne
  | cons entry entries induction => exact induction (astray.replace index entry) (index + 1)

/-! ## Placeholders that were overwritten -/

/-- The masked text of the pieces after some placeholder of a smaller number was replaced in it, and
it was found where a character or another placeholder stands. -/
inductive Overwritten : Nat → List (Piece Expression) → Text → Prop where
  /-- A character was overwritten. -/
  | here (index : Nat) (pieces : List (Piece Expression)) (text : Text) :
      Overwritten index (.char '_' :: pieces) ('{' :: text)
  /-- The end of a placeholder was overwritten. -/
  | stump {index : Nat} {expression : Expression} {pieces : List (Piece Expression)}
      {front missing : Text} (text : Text) (split : token index = front ++ missing)
      (kept : front ≠ []) (cut : missing ≠ []) :
      Overwritten index (.item expression :: pieces) (front ++ '{' :: text)
  | char {index : Nat} {pieces : List (Piece Expression)} {text : Text} (c : Char)
      (later : Overwritten index pieces text) : Overwritten index (.char c :: pieces) (c :: text)
  | item {index : Nat} {pieces : List (Piece Expression)} {text : Text} (expression : Expression)
      (later : Overwritten (index + 1) pieces text) :
      Overwritten index (.item expression :: pieces) (token index ++ text)

/-- What a smaller placeholder can do to a larger one: nothing, or overwrite its end. -/
theorem replace_token_append {number index : Nat} (smaller : number < index)
    (expression entry : Expression) (pieces : List (Piece Expression)) (text : Text) :
    (Text.replace (token number) entry.source (token index ++ text) =
        token index ++ Text.replace (token number) entry.source text ∧
      ∀ kept rest, token index = kept ++ rest → rest ≠ [] → ¬ token number <+: rest ++ text) ∨
      Overwritten index (.item expression :: pieces)
        (Text.replace (token number) entry.source (token index ++ text)) := by
  rcases Text.replace_append_cases (token_ne_nil number) entry.source (token index) text with
    ⟨none, equal⟩ | ⟨kept, rest, after, split, nonempty, found, equal⟩
  · exact .inl ⟨equal, none⟩
  · have filled : kept ≠ [] := by
      rintro rfl
      obtain ⟨behind, equal⟩ := found
      rw [← List.nil_append rest, ← split, token_eq, token_eq] at equal
      simp only [List.cons_append, List.append_assoc, List.cons.injEq, true_and] at equal
      have numbers := ofNat_append_underscore_inj
        (List.cons.inj (List.append_cancel_left equal)).2
      omega
    rw [equal, Expression.source, List.cons_append]
    exact .inr (.stump _ split filled nonempty)

theorem Overwritten.replace {index : Nat} {pieces : List (Piece Expression)} {text : Text}
    (overwritten : Overwritten index pieces text) {number : Nat} (smaller : number < index)
    (entry : Expression) :
    Overwritten index pieces (Text.replace (token number) entry.source text) := by
  have brace : ∀ rest, ¬ token number <+: '{' :: rest := by
    rintro rest ⟨behind, split⟩
    rw [token_eq] at split
    exact absurd (List.cons.inj split).1 (by decide)
  induction overwritten with
  | here index pieces text =>
    rw [Text.replace_cons_of_not_prefix (brace text)]
    exact .here index pieces _
  | @stump index expression pieces front missing text split kept cut =>
    have unchanged : Text.replace (token number) entry.source (front ++ '{' :: text) =
        front ++ '{' :: Text.replace (token number) entry.source text := by
      rw [← Text.replace_cons_of_not_prefix (brace text)]
      apply Text.replace_append_of_no_start (token_ne_nil number)
      intro start rest equal _ found
      have inside := Text.prefix_of_prefix_append_cons (brace_notMem_token number) found
      exact not_token_infix_of_append_eq split cut
        (equal ▸ List.infix_append_of_infix_right inside.isInfix)
    rw [unchanged]
    exact .stump _ split kept cut
  | @char index pieces text c later induction =>
    by_cases found : token number <+: c :: text
    · obtain ⟨behind, equal⟩ := found
      have first : c = '_' := by
        rw [token_eq] at equal
        exact (List.cons.inj equal).1.symm
      rw [← equal, Text.replace_append_self (token_ne_nil number), first]
      exact .here index pieces _
    · rw [Text.replace_cons_of_not_prefix found]
      exact .char c (induction smaller)
  | @item index pieces text expression later induction =>
    rcases replace_token_append smaller expression entry pieces text with ⟨equal, -⟩ | cut
    · rw [equal]
      exact .item expression (induction (Nat.lt_succ_of_lt smaller))
    · exact cut

/-- A placeholder that is found in the masked text of later pieces overwrites something there. -/
theorem overwritten_of_occurrence {number index : Nat} {pieces : List (Piece Expression)}
    (smaller : number < index) (found : token number <:+: maskFrom index pieces)
    (entry : Expression) :
    Overwritten index pieces
      (Text.replace (token number) entry.source (maskFrom index pieces)) := by
  induction pieces generalizing index with
  | nil => exact absurd (List.infix_nil.mp found) (token_ne_nil number)
  | cons piece pieces induction =>
    cases piece with
    | char c =>
      rw [maskFrom] at found ⊢
      by_cases here : token number <+: c :: maskFrom index pieces
      · obtain ⟨behind, equal⟩ := here
        have first : c = '_' := by
          rw [token_eq] at equal
          exact (List.cons.inj equal).1.symm
        rw [← equal, Text.replace_append_self (token_ne_nil number), first]
        exact .here index pieces _
      · rw [Text.replace_cons_of_not_prefix here]
        exact .char c (induction smaller ((List.infix_cons_iff.mp found).resolve_left here))
    | item expression =>
      rw [maskFrom] at found ⊢
      rcases replace_token_append smaller expression entry pieces (maskFrom (index + 1) pieces) with
        ⟨equal, none⟩ | cut
      · rw [equal]
        exact .item expression
          (induction (Nat.lt_succ_of_lt smaller) (Text.infix_of_no_start found none))
      · exact cut

/-- An overwritten text is not restored to the source. -/
theorem Overwritten.restoreFrom_ne {index : Nat} {pieces : List (Piece Expression)} {text : Text}
    (overwritten : Overwritten index pieces text) (before : Text) :
    ExpressionTable.restoreFrom index (expressions pieces) (before ++ text) ≠
      before ++ written pieces := by
  -- On the pieces and not on the derivation: restoring an expression overwrites once more.
  induction pieces generalizing index text before with
  | nil => cases overwritten
  | cons piece pieces induction =>
    cases overwritten with
    | here _ _ text =>
      apply Astray.restoreFrom_ne
      refine ⟨before, [], text, '_' :: written pieces, rfl, rfl, ?_, by simp⟩
      intro number occurs
      exact token_ne_nil number (List.infix_nil.mp occurs)
    | @stump _ expression _ front missing text split kept cut =>
      apply Astray.restoreFrom_ne
      refine ⟨before, front, text, _, rfl, rfl,
        fun number => not_token_infix_of_append_eq split cut, ?_⟩
      obtain ⟨c, others, rfl⟩ := List.exists_cons_of_ne_nil kept
      rw [token_eq] at split
      obtain ⟨rfl, -⟩ := List.cons.inj split
      simp [Expression.source]
    | @char _ _ text c later =>
      have next := induction later (before ++ [c])
      simpa using next
    | @item _ _ text expression later =>
      rw [expressions_item, written_item, ExpressionTable.restoreFrom]
      by_cases early : token index <:+: before ++ (token index).dropLast
      · exact (astray_of_early early expression text _).restoreFrom_ne _ _
      · have next := induction (later.replace (Nat.lt_succ_self index) expression)
          (before ++ expression.source)
        rw [replace_own_place text expression.source early]
        simpa using next

/-! ## The exact condition -/

/-- While the expressions come back, the placeholder of one of them is found away from its own
place: before it, perhaps reaching into it, or in the masked text behind it. -/
def Collides (index : Nat) (before : Text) : List (Piece Expression) → Prop
  | [] => False
  | .char c :: pieces => Collides index (before ++ [c]) pieces
  | .item expression :: pieces =>
    token index <:+: before ++ (token index).dropLast ∨
      token index <:+: maskFrom (index + 1) pieces ∨
      Collides (index + 1) (before ++ expression.source) pieces

theorem restoreFrom_eq_iff (index : Nat) (before : Text) (pieces : List (Piece Expression)) :
    ExpressionTable.restoreFrom index (expressions pieces) (before ++ maskFrom index pieces) =
      before ++ written pieces ↔ ¬ Collides index before pieces := by
  induction pieces generalizing index before with
  | nil => simp [ExpressionTable.restoreFrom, maskFrom, Collides]
  | cons piece pieces induction =>
    cases piece with
    | char c =>
      have next := induction index (before ++ [c])
      simpa [maskFrom, Collides] using next
    | item expression =>
      rw [expressions_item, written_item, ExpressionTable.restoreFrom, maskFrom, Collides]
      by_cases early : token index <:+: before ++ (token index).dropLast
      · have wrong := (astray_of_early early expression (maskFrom (index + 1) pieces)
          (expression.source ++ written pieces)).restoreFrom_ne (index + 1) (expressions pieces)
        simp [early, wrong]
      · rw [replace_own_place _ expression.source early]
        by_cases late : token index <:+: maskFrom (index + 1) pieces
        · have wrong :=
              (overwritten_of_occurrence (Nat.lt_succ_self index) late expression).restoreFrom_ne
            (before ++ expression.source)
          simpa [early, late] using wrong
        · rw [Text.replace_eq_self (token_ne_nil index) late]
          have next := induction (index + 1) (before ++ expression.source)
          simpa [early, late] using next

/-- A placeholder stands in the source, or is put together by masking it, where another text or
another expression belongs. -/
def PlaceholderCollision (source : Text) : Prop :=
  Collides 0 [] (Expression.pattern.pieces source)

theorem restore_mask_iff (source : Text) :
    (mask source).table.restore (mask source).text = source ↔ ¬ PlaceholderCollision source := by
  have exact_condition := restoreFrom_eq_iff 0 [] (Expression.pattern.pieces source)
  rw [List.nil_append, List.nil_append, written_pieces, ← entries_mask] at exact_condition
  exact exact_condition

/-! ## Sources that come back -/

theorem prefix_written_of_prefix_numbered {word : Text} {index : Nat}
    {pieces : List (Piece Expression)} (found : word.map .char <+: numbered index pieces) :
    word <+: written pieces := by
  induction word generalizing index pieces with
  | nil => exact List.nil_prefix
  | cons c word induction =>
    match pieces, found with
    | [], found => simp [numbered] at found
    | .item _ :: _, found => simp [numbered, List.cons_prefix_cons] at found
    | .char d :: pieces, found =>
      rw [numbered, List.map_cons, List.cons_prefix_cons] at found
      obtain ⟨rfl⟩ : c = d := Piece.char.inj found.1
      exact List.cons_prefix_cons.mpr ⟨rfl, induction found.2⟩

theorem infix_written_of_infix_numbered {word : Text} {index : Nat}
    {pieces : List (Piece Expression)} (found : word.map .char <:+: numbered index pieces) :
    word <:+: written pieces := by
  induction pieces generalizing index with
  | nil =>
    have empty : word = [] := by simpa [numbered] using found
    exact empty ▸ List.nil_infix
  | cons piece pieces induction =>
    have here : word.map .char <+: numbered index (piece :: pieces) →
        word <:+: written (piece :: pieces) := fun found =>
      (prefix_written_of_prefix_numbered found).isInfix
    cases piece with
    | char c =>
      exact (List.infix_cons_iff.mp found).elim here fun later => List.infix_cons (induction later)
    | item expression =>
      exact (List.infix_cons_iff.mp found).elim here fun later =>
        List.infix_append_of_infix_right (induction later)

theorem le_of_item_mem_numbered {number index : Nat} {pieces : List (Piece Expression)}
    (member : .item number ∈ numbered index pieces) : index ≤ number := by
  induction pieces generalizing index with
  | nil => simp [numbered] at member
  | cons piece pieces induction =>
    cases piece with
    | char c => exact induction (by simpa [numbered] using member)
    | item expression =>
      rw [numbered, List.mem_cons] at member
      rcases member with equal | later
      · exact Nat.le_of_eq (Piece.item.inj equal).symm
      · exact Nat.le_of_succ_le (induction later)

/-- Without a digit behind the mark, no placeholder is found before its own place. -/
theorem not_early {index : Nat} {before : Text}
    (plain : ∀ digit : Char, digit.isDigit = true → ¬ mark ++ ['_', digit] <:+: before) :
    ¬ token index <:+: before ++ (token index).dropLast := by
  intro early
  obtain ⟨kept, rest, rfl, nonempty, behind, equal⟩ :=
    (infix_append_dropLast_iff (token_ne_nil index) []).mp early
  have spelled : spell ((kept ++ rest).map .char ++ [.item index]) =
      kept ++ (token index ++ behind) := by
    rw [spell_append, spell_map_char, spell_item, spell_nil, List.append_assoc, equal]
  rcases spell_token_cases spelled with ⟨front, back, pieces_eq, kept_eq, behind_eq⟩ | found
  · -- The item found is the last piece, so nothing of the front is left over.
    have last : back = [] := by
      cases back with
      | nil => rfl
      | cons piece back =>
        have shorter := congrArg List.dropLast pieces_eq
        rw [List.dropLast_concat, List.dropLast_append_of_ne_nil (by simp),
          List.dropLast_cons_of_ne_nil (by simp)] at shorter
        have member : .item index ∈ ((kept ++ rest).map .char : List (Piece Nat)) := by
          rw [shorter]
          simp
        simp at member
    have lengths := congrArg List.length equal
    rw [behind_eq, last] at lengths
    simp only [spell_nil, List.length_append, List.length_nil] at lengths
    exact nonempty (List.length_eq_zero_iff.mp (by omega))
  · obtain ⟨digit, isDigit, occurs⟩ := found
    rw [Text.infix_append_cons_iff (by simp)] at occurs
    rcases occurs with inside | inside
    · exact plain digit isDigit (infix_of_infix_map_char inside)
    · simp at inside

theorem not_collides {index : Nat} {before : Text} {pieces : List (Piece Expression)}
    (plain : ∀ digit : Char, digit.isDigit = true →
      ¬ mark ++ ['_', digit] <:+: before ++ written pieces) :
    ¬ Collides index before pieces := by
  induction pieces generalizing index before with
  | nil => exact id
  | cons piece pieces induction =>
    cases piece with
    | char c =>
      rw [Collides]
      exact induction (by simpa using plain)
    | item expression =>
      rw [Collides, not_or, not_or]
      refine ⟨?_, ?_, induction (by simpa using plain)⟩
      · exact not_early fun digit isDigit found =>
          plain digit isDigit (List.infix_append_of_infix_left found)
      · rintro ⟨front, back, equal⟩
        rw [← spell_numbered, List.append_assoc] at equal
        rcases spell_token_cases equal.symm with ⟨_, _, pieces_eq, -, -⟩ | ⟨digit, isDigit, found⟩
        · have member : .item index ∈ numbered (index + 1) pieces := by simp [pieces_eq]
          exact absurd (le_of_item_mem_numbered member) (Nat.not_succ_le_self index)
        · have inside := infix_written_of_infix_numbered found
          exact plain digit isDigit (List.infix_append_of_infix_right
            (List.infix_append_of_infix_right inside))

/-- Masking and restoring give every source back in which the beginning of a placeholder's number
does not stand: no digit follows `PROTECTED_`. -/
theorem restore_mask (source : Text)
    (plain : ∀ digit : Char, digit.isDigit = true → ¬ "PROTECTED_".toList ++ [digit] <:+: source) :
    (mask source).table.restore (mask source).text = source := by
  rw [restore_mask_iff]
  apply not_collides
  intro digit isDigit
  rw [List.nil_append, written_pieces]
  exact plain digit isDigit

/-- Expressions side by side and next to underscores, digits and the mark, and a brace that is left
over. -/
def crowdedSource : Text :=
  "__PROTECTED_\x7ba\x7d\x7b\n\x7d0__ \x7b PROTECTED\x7b0\x7d__".toList

theorem restore_mask_crowdedSource :
    (∀ digit : Char, digit.isDigit = true →
        ¬ "PROTECTED_".toList ++ [digit] <:+: crowdedSource) ∧
      (mask crowdedSource).table.restore (mask crowdedSource).text = crowdedSource := by
  have places : ∀ place ≤ crowdedSource.length, ∀ rest ∈
      Text.after? "PROTECTED_".toList (crowdedSource.drop place),
      rest.head?.any Char.isDigit = false := by decide +kernel
  have plain : ∀ digit : Char, digit.isDigit = true →
      ¬ "PROTECTED_".toList ++ [digit] <:+: crowdedSource := by
    rintro digit isDigit ⟨front, back, equal⟩
    have opened : Text.after? "PROTECTED_".toList (crowdedSource.drop front.length) =
        some (digit :: back) := by
      rw [Text.after?_eq_some_iff, ← equal, List.append_assoc, List.drop_left, List.append_assoc]
      rfl
    have shorter : front.length ≤ crowdedSource.length := by
      rw [← equal, List.append_assoc, List.length_append]
      exact Nat.le_add_right _ _
    simpa [isDigit] using places front.length shorter _ opened
  exact ⟨plain, restore_mask _ plain⟩

/-! ## Sources without statements -/

/-- A pass that finds nothing keeps its text. -/
theorem Segment.render_of_count_eq_zero (converter : Converter) (form : Pattern ReturnStatement)
    (text : Text) (none : (Segment.ofText form text).countP Segment.isStatement = 0) :
    (Segment.ofText form text).flatMap (Segment.render converter) = text := by
  fun_induction Segment.ofText form text with
  | case1 => rfl
  | case2 c text found rest matched induction => simp [Segment.isStatement] at none
  | case3 c text missed induction =>
    rw [List.countP_cons_of_neg (by simp [Segment.isStatement])] at none
    rw [List.flatMap_cons, induction none, Segment.render, Text.takeLine_append_dropLine]

theorem Converter.text_of_count_eq_zero (converter : Converter) (text : Text)
    (none : (converter.convertReturns text).count = 0) :
    (converter.convertReturns text).text = text := by
  have counts := Nat.eq_zero_of_add_eq_zero none
  have first : (converter.convertForm ReturnStatement.parenthesized text).text = text :=
    Segment.render_of_count_eq_zero converter _ text counts.1
  have second := Segment.render_of_count_eq_zero converter ReturnStatement.inline _ counts.2
  exact second.trans first

/-- If no statement is converted, the source is unchanged exactly if no placeholder collides. -/
theorem unchanged_iff_of_no_statement (style : CallStyle) (source : Text)
    (none : (lower style source).statements = 0) :
    ((lower style source).output = source ∧ (lower style source).changed = false) ↔
      ¬ PlaceholderCollision source := by
  have kept : (lower style source).output = (mask source).table.restore (mask source).text :=
    congrArg _ (Converter.text_of_count_eq_zero _ _ none)
  have reported : (lower style source).changed = decide ((lower style source).output ≠ source) :=
    rfl
  rw [← restore_mask_iff, reported, kept]
  simp

/-- A function that returns a sum, with one expression among its braces. -/
def sumSource : Text :=
  "function add(x) \x7b\n  const o = \x7b a: 1 \x7d;\n  return x + 1;\n\x7d\n".toList

theorem unchanged_iff_sumSource :
    (lower {} sumSource).statements = 0 ∧
      (((lower {} sumSource).output = sumSource ∧ (lower {} sumSource).changed = false) ↔
        ¬ PlaceholderCollision sumSource) := by
  have none : (lower {} sumSource).statements = 0 := by decide +kernel
  exact ⟨none, unchanged_iff_of_no_statement _ _ none⟩

/-- A source may hold the text of a placeholder. It is then replaced although no statement is
converted. -/
theorem changed_without_statement :
    (lower {} "__PROTECTED_0__ \x7ba\x7d".toList).statements = 0 ∧
      (lower {} "__PROTECTED_0__ \x7ba\x7d".toList).output = "\x7ba\x7d \x7ba\x7d".toList ∧
      (lower {} "__PROTECTED_0__ \x7ba\x7d".toList).changed = true := by
  decide +kernel

end JsxCalls
