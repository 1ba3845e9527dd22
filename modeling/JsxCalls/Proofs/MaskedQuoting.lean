import JsxCalls.Proofs.AttributeMasking
import JsxCalls.Proofs.Conservation
import JsxCalls.Proofs.Exposure
import JsxCalls.Proofs.Quoting

/-!
# Quoting a masked text

A part of a source can be masked on its own as long as no brace stands beside it, and it can be
trimmed before or after it is masked. If it is quoted while it is masked, then the quotes outside of
its expressions are escaped, and inside of them they come back as they were written: the result is
the quoted text exactly if every quote in every expression is escaped on its own.
-/

namespace JsxCalls

open Placeholder

/-! ## Masking a part of a source -/

theorem Expression.start?_append_plain {text plain : Text} (absent : '}' ∉ plain)
    (missed : start? text = none) : start? (text ++ plain) = none := by
  rw [Option.eq_none_iff_forall_ne_some] at missed ⊢
  rintro ⟨expression, rest⟩ found
  obtain ⟨equal, braceless⟩ := start?_eq_some_iff.mp found
  rcases List.append_eq_append_iff.mp equal with
    ⟨between, source_eq, plain_eq⟩ | ⟨between, text_eq, -⟩
  · -- the closing brace would stand in the plain text
    rcases List.eq_nil_or_concat between with rfl | ⟨front, last, rfl⟩
    · rw [List.append_nil] at source_eq
      exact missed (expression, [])
        (start?_eq_some_iff.mpr ⟨by rw [List.append_nil, source_eq], braceless⟩)
    · rw [List.concat_eq_append] at source_eq plain_eq
      have ends : ('{' :: expression.body) ++ ['}'] = (text ++ front) ++ [last] := by
        rw [List.append_assoc]
        exact source_eq
      obtain rfl : '}' = last := List.singleton_inj.mp (List.append_inj' ends rfl).2
      exact absent (by simp [plain_eq])
  · exact missed (expression, between) (start?_eq_some_iff.mpr ⟨text_eq, braceless⟩)

theorem Expression.pieces_append_plain {plain : Text} (opening : '{' ∉ plain)
    (closing : '}' ∉ plain)
    (text : Text) : pattern.pieces (text ++ plain) = pattern.pieces text ++ plain.map .char := by
  fun_induction Pattern.pieces pattern text with
  | case1 => simpa [Pattern.pieces] using pieces_plain_append opening []
  | case2 c text expression rest found induction =>
    have here : start? (c :: text) = some (expression, rest) := found
    have longer : pattern.start? (c :: text ++ plain) = some (expression, rest ++ plain) :=
      start?_append here plain
    rw [Pattern.pieces_of_some longer, induction, List.cons_append]
  | case3 c text missed induction =>
    have here : start? (c :: text) = none := missed
    have longer : pattern.start? (c :: (text ++ plain)) = none := start?_append_plain closing here
    rw [List.cons_append, Pattern.pieces_of_none longer, induction, List.cons_append]

/-- Text without braces beside a source is kept, and the expressions keep their numbers. -/
theorem mask_between {front back : Text} (front_plain : '{' ∉ front) (opening : '{' ∉ back)
    (closing : '}' ∉ back) (text : Text) :
    mask (front ++ (text ++ back)) = ⟨front ++ ((mask text).text ++ back), (mask text).table⟩ := by
  have pieces : Expression.pattern.pieces (front ++ (text ++ back)) =
      front.map .char ++ (Expression.pattern.pieces text ++ back.map .char) := by
    rw [Expression.pieces_plain_append front_plain, Expression.pieces_append_plain opening closing]
  have entries : (mask (front ++ (text ++ back))).table = (mask text).table := by
    rw [ExpressionTable.mk.injEq, entries_mask, entries_mask, pieces]
    simp
  have masked : (mask (front ++ (text ++ back))).text = front ++ ((mask text).text ++ back) := by
    simp [mask, pieces, maskFrom_append]
  rw [← entries, ← masked]

theorem mem_maskFrom_cases {index : Nat} {pieces : List (Piece Expression)} {c : Char}
    (member : c ∈ maskFrom index pieces) : .char c ∈ pieces ∨ isWord c = true := by
  induction pieces generalizing index with
  | nil => simp [maskFrom] at member
  | cons piece pieces induction =>
    cases piece with
    | char d =>
      rcases List.mem_cons.mp member with rfl | later
      · exact .inl List.mem_cons_self
      · exact (induction later).imp_left (List.mem_cons_of_mem _)
    | item expression =>
      rcases List.mem_append.mp member with inToken | later
      · exact .inr (isWord_of_mem_token inToken)
      · exact (induction later).imp_left (List.mem_cons_of_mem _)

theorem mem_maskFrom_of_char {pieces : List (Piece Expression)} {c : Char}
    (member : .char c ∈ pieces) (index : Nat) : c ∈ maskFrom index pieces := by
  obtain ⟨left, right, rfl⟩ := List.append_of_mem member
  simp [maskFrom_append, maskFrom]

/-! ## Trimming a masked text -/

namespace Text

theorem trim_between {before core after : Text} (opens : ∀ c ∈ before, isSpace c = true)
    (closes : ∀ c ∈ after, isSpace c = true) (filled : core ≠ []) (first : StopsRun isSpace core)
    (last : StopsRun isSpace core.reverse) : trim (before ++ (core ++ after)) = core := by
  have starts : StopsRun isSpace (core ++ after) := by
    obtain ⟨c, others, rfl⟩ := List.exists_cons_of_ne_nil filled
    exact first
  have reversed : ∀ c ∈ after.reverse, isSpace c = true := fun c member =>
    closes c (List.mem_reverse.mp member)
  rw [trim, dropWhile_run opens starts, trimEnd, dropEndWhile, List.reverse_append,
    dropWhile_run reversed last, List.reverse_reverse]

theorem stopsRun_trim_reverse (text : Text) : StopsRun isSpace (trim text).reverse := by
  rw [trim, trimEnd, dropEndWhile, List.reverse_reverse]
  exact stopsRun_dropWhile isSpace _

theorem stopsRun_trim (text : Text) : StopsRun isSpace (trim text) := by
  intro c first
  obtain ⟨others, equal⟩ : ∃ others, trim text = c :: others := by
    cases kept : trim text with
    | nil => simp [kept] at first
    | cons d others => exact ⟨others, by simpa [kept] using first⟩
  have start : trim text <+: text.dropWhile isSpace := by
    rw [trim, trimEnd, dropEndWhile, ← List.reverse_suffix, List.reverse_reverse]
    exact List.dropWhile_suffix isSpace
  obtain ⟨behind, whole⟩ := start
  exact stopsRun_dropWhile isSpace text c (by rw [← whole, equal]; rfl)

end Text

theorem head?_token (index : Nat) : (token index).head? = some '_' := by
  rw [token_eq]
  rfl

theorem head?_token_reverse (index : Nat) : (token index).reverse.head? = some '_' := by
  simp [token_eq]

theorem text_mask_ne_nil {text : Text} (filled : text ≠ []) : (mask text).text ≠ [] := by
  cases pieces : Expression.pattern.pieces text with
  | nil => exact absurd (by rw [← written_pieces text, pieces, written_nil]) filled
  | cons piece others =>
    rw [mask, pieces]
    cases piece with
    | char c => exact List.cons_ne_nil c _
    | item expression => exact List.append_ne_nil_of_left_ne_nil (token_ne_nil 0) _

theorem stopsRun_maskFrom {pieces : List (Piece Expression)}
    (stops : Text.StopsRun isSpace (written pieces)) (index : Nat) :
    Text.StopsRun isSpace (maskFrom index pieces) := by
  cases pieces with
  | nil => exact stops
  | cons piece pieces =>
    cases piece with
    | char c => exact Text.stopsRun_cons (stops c rfl) _
    | item expression =>
      intro c first
      rw [maskFrom, List.head?_append, head?_token] at first
      obtain rfl : '_' = c := Option.some.inj first
      decide

theorem stopsRun_maskFrom_reverse {pieces : List (Piece Expression)}
    (stops : Text.StopsRun isSpace (written pieces).reverse) (index : Nat) :
    Text.StopsRun isSpace (maskFrom index pieces).reverse := by
  rcases List.eq_nil_or_concat pieces with rfl | ⟨front, piece, rfl⟩
  · exact stops
  rw [List.concat_eq_append, written_append, List.reverse_append] at stops
  rw [List.concat_eq_append, maskFrom_append, List.reverse_append]
  cases piece with
  | char c => exact Text.stopsRun_cons (stops c rfl) _
  | item expression =>
    intro c first
    rw [maskFrom, maskFrom, List.append_nil, List.head?_append, head?_token_reverse] at first
    obtain rfl : '_' = c := Option.some.inj first
    decide

/-- White space at the ends of a text is outside of its expressions, so a text may be trimmed before
or after it is masked. -/
theorem mask_trim {text : Text} (visible : Text.trim text ≠ []) :
    mask (Text.trim text) = ⟨Text.trim (mask text).text, (mask text).table⟩ := by
  obtain ⟨before, after, equal, opens, closes⟩ := Text.exists_trim_eq text
  have outside : ∀ {space : Text} {brace : Char}, (∀ c ∈ space, isSpace c = true) →
      isSpace brace = false → brace ∉ space := by
    intro space brace all other member
    simp [all brace member] at other
  have masked := mask_between (outside opens (show isSpace '{' = false by decide))
    (outside closes (show isSpace '{' = false by decide))
    (outside closes (show isSpace '}' = false by decide)) (Text.trim text)
  rw [← equal] at masked
  have first := stopsRun_maskFrom
    (by rw [written_pieces (Text.trim text)]; exact Text.stopsRun_trim text) 0
  have last := stopsRun_maskFrom_reverse
    (by rw [written_pieces (Text.trim text)]; exact Text.stopsRun_trim_reverse text) 0
  rw [masked, Text.trim_between opens closes (text_mask_ne_nil visible) first last]

/-! ## Quoting around expressions -/

theorem numbered_escapePieces (index : Nat) (escaped : Bool) (pieces : List (Piece Expression)) :
    numbered index (escapePieces escaped pieces) =
      escapePieces escaped (numbered index pieces) := by
  fun_induction escapePieces escaped pieces generalizing index with
  | case1 escaped => simp [numbered, escapePieces]
  | case2 escaped c pieces bare induction => simp [numbered, escapePieces, bare, induction]
  | case3 escaped c pieces kept induction => simp [numbered, escapePieces, kept, induction]
  | case4 escaped expression pieces induction => simp [numbered, escapePieces, induction]

theorem expressions_escapePieces (escaped : Bool) (pieces : List (Piece Expression)) :
    expressions (escapePieces escaped pieces) = expressions pieces := by
  fun_induction escapePieces escaped pieces with
  | case1 escaped => rfl
  | case2 escaped c pieces bare induction => simp [induction]
  | case3 escaped c pieces kept induction => simp [induction]
  | case4 escaped expression pieces induction => simp [induction]

/-! ## The restored literal -/

theorem flatMap_numbered {table : ExpressionTable} {prior : List Expression}
    {pieces : List (Piece Expression)} (entries : table.entries = prior ++ expressions pieces) :
    (numbered prior.length pieces).flatMap (Piece.replaced table.sourceAt) = written pieces := by
  induction pieces generalizing prior with
  | nil => rfl
  | cons piece pieces induction =>
    cases piece with
    | char c =>
      rw [expressions_char] at entries
      rw [numbered, List.flatMap_cons, induction entries, written_char]
      rfl
    | item expression =>
      have here : table.sourceAt prior.length = expression.source := by
        simp [ExpressionTable.sourceAt, ExpressionTable.bodyAt, ExpressionTable.get?, entries,
          Expression.source]
      have later : table.entries = (prior ++ [expression]) ++ expressions pieces := by
        simp [entries]
      have behind := induction later
      rw [List.length_append, List.length_singleton] at behind
      rw [numbered, List.flatMap_cons, behind, written_item, ← here]
      rfl

/-- The text as a literal in which the quotes outside of its expressions are escaped. -/
def quotedOutside (text : Text) : Text :=
  '\'' :: (written (escapePieces false (Expression.pattern.pieces text)) ++ ['\''])

/-- A masked text that is quoted and then restored is quoted outside of its expressions. -/
theorem restore_escapeQuotes_mask {text : Text} (unmarked : ¬ mark <:+: text) :
    (mask text).table.restore (Text.escapeQuotes false (mask text).text) =
      written (escapePieces false (Expression.pattern.pieces text)) := by
  have spelled : (mask text).text = spell (numbered 0 (Expression.pattern.pieces text)) :=
    (spell_numbered 0 _).symm
  have clean : ¬ mark.map .char <:+:
      numbered 0 (escapePieces false (Expression.pattern.pieces text)) := by
    rw [numbered_escapePieces]
    exact fun found => not_mark_infix_numbered unmarked
      (infix_of_infix_escapePieces (by decide) found)
  have entries : (mask text).table.entries =
      [] ++ expressions (escapePieces false (Expression.pattern.pieces text)) := by
    rw [expressions_escapePieces, entries_mask, List.nil_append]
  have known : ∀ number ∈ numbersIn
      (numbered 0 (escapePieces false (Expression.pattern.pieces text))),
      number < (mask text).table.entries.length := by
    intro number member
    rw [numbersIn_numbered, List.mem_range'_1] at member
    rw [entries, List.nil_append]
    omega
  rw [spelled, escapeQuotes_spell, ← numbered_escapePieces,
    (restore_spell (unmarked_table unmarked) clean known).1]
  exact flatMap_numbered entries

theorem escapeQuotes_source_append (escaped : Bool) (expression : Expression) (text : Text) :
    Text.escapeQuotes escaped (expression.source ++ text) =
      '{' :: (Text.escapeQuotes false expression.body ++ '}' :: Text.escapeQuotes false text) := by
  have flag : Text.escapesNext escaped expression.source = false :=
    Text.escapesNext_concat escaped _ (by decide)
  have inside : Text.escapeQuotes escaped expression.source =
      '{' :: (Text.escapeQuotes false expression.body ++ ['}']) := by
    rw [Expression.source, Text.escapeQuotes_append]
    simp [Text.escapeQuotes]
  rw [Text.escapeQuotes_append, flag, inside]
  simp

theorem written_escapePieces_eq_iff {pieces : List (Piece Expression)}
    (braceless : ∀ expression ∈ expressions pieces, '}' ∉ expression.body) (escaped : Bool) :
    written (escapePieces escaped pieces) = Text.escapeQuotes escaped (written pieces) ↔
      ∀ expression ∈ expressions pieces, Text.QuotesEscaped expression.body := by
  fun_induction escapePieces escaped pieces with
  | case1 escaped => simp [Text.escapeQuotes]
  | case2 escaped c pieces bare induction =>
    simp [Text.escapeQuotes, bare, ← induction braceless]
  | case3 escaped c pieces kept induction =>
    simp [Text.escapeQuotes, kept, ← induction braceless]
  | case4 escaped expression pieces induction =>
    rw [expressions_item, List.forall_mem_cons] at braceless ⊢
    have outside : '}' ∉ Text.escapeQuotes false expression.body := fun member =>
      braceless.1 (Text.mem_of_mem_escapeQuotes (by decide) member)
    have source : expression.source ++ written (escapePieces false pieces) =
        '{' :: (expression.body ++ '}' :: written (escapePieces false pieces)) := by
      simp [Expression.source]
    rw [written_item, written_item, escapeQuotes_source_append, source, List.cons_inj_right,
      Text.append_cons_inj braceless.1 outside, ← induction braceless.2,
      ← Text.escapeQuotes_eq_self_iff_quotesEscaped, @eq_comm _ expression.body]

/-- The literal is the quoted text where no expression has a quote that is not escaped in it. -/
theorem quotedOutside_eq_iff (text : Text) :
    quotedOutside text = Text.singleQuoted text ↔
      ∀ expression ∈ Expression.pattern.items text, Text.QuotesEscaped expression.body := by
  have listed : Expression.pattern.items text = expressions (Expression.pattern.pieces text) :=
    entries_mask text
  have braceless : ∀ expression ∈ expressions (Expression.pattern.pieces text),
      '}' ∉ expression.body := by
    intro expression member closing
    exact absurd (braceless_of_mem_expressions member '}' closing) (by decide)
  have parts := written_escapePieces_eq_iff braceless false
  rw [written_pieces] at parts
  rw [listed, ← parts]
  simp [quotedOutside, Text.singleQuoted]

end JsxCalls
