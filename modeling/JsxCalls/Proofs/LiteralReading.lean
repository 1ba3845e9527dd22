import JsxCalls.Proofs.Quoting

/-!
# Reading a literal

The text of a literal is read from left to right, and a backslash escapes the character behind it.
Read in this way, quoting puts a backslash before each bare quote and changes nothing else, so a
text that is quoted once stays as it is. The literal ends where it was closed, unless its text ends
in a backslash that escapes the closing quote.
-/

namespace JsxCalls

/-- A character in the text of a literal, as it is read. -/
inductive Glyph where
  /-- The character stands alone. -/
  | bare (c : Char)
  /-- The character stands behind a backslash that escapes it. -/
  | escaped (c : Char)
deriving DecidableEq, Repr

namespace Glyph

/-- The characters of the glyph. -/
def source : Glyph → Text
  | .bare c => [c]
  | .escaped c => ['\\', c]

/-- The quote that ends a literal. -/
def quote : Glyph :=
  .bare '\''

/-- The glyph with a backslash before it, if it is a bare quote. -/
def guarded (glyph : Glyph) : Glyph :=
  if glyph = quote then .escaped '\'' else glyph

/-- The characters of the glyph, without the backslash of an escaped quote. -/
def plainSource (glyph : Glyph) : Text :=
  if glyph = .escaped '\'' then ['\''] else glyph.source

theorem guarded_ne_quote (glyph : Glyph) : glyph.guarded ≠ quote := by
  rw [guarded]
  split
  · exact Glyph.noConfusion
  · assumption

theorem guarded_guarded (glyph : Glyph) : glyph.guarded.guarded = glyph.guarded := by
  rw [guarded, if_neg glyph.guarded_ne_quote]

theorem plainSource_guarded (glyph : Glyph) : glyph.guarded.plainSource = glyph.plainSource := by
  rw [guarded]
  split
  · rename_i bare
    rw [bare]
    rfl
  · rfl

end Glyph

namespace Text

/-- Reads a text from left to right. A backslash with nothing behind it stands alone. -/
def glyphs : Text → List Glyph
  | [] => []
  | [c] => [.bare c]
  | c :: d :: text => if c = '\\' then .escaped d :: glyphs text else .bare c :: glyphs (d :: text)

/-- The text with each escape pair of a quote replaced by the quote. -/
def unescapeQuotes (text : Text) : Text :=
  text.glyphs.flatMap Glyph.plainSource

/-- The text before and the text behind the first quote that is not escaped. -/
def untilQuote? (text : Text) : Option (Text × Text) :=
  match text.glyphs.dropWhile (· ≠ Glyph.quote) with
  | [] => none
  | _ :: behind =>
    some ((text.glyphs.takeWhile (· ≠ Glyph.quote)).flatMap Glyph.source,
      behind.flatMap Glyph.source)

/-! ## Glyphs -/

theorem glyphs_backslash (c : Char) (text : Text) :
    glyphs ('\\' :: c :: text) = .escaped c :: glyphs text := by
  rw [glyphs, if_pos rfl]

theorem glyphs_cons {c : Char} (other : c ≠ '\\') (text : Text) :
    glyphs (c :: text) = .bare c :: glyphs text := by
  cases text with
  | nil => rfl
  | cons d text => rw [glyphs, if_neg other]

/-- A text is put together again from its glyphs. -/
theorem flatMap_glyphs (text : Text) : text.glyphs.flatMap Glyph.source = text := by
  fun_induction glyphs text with
  | case1 => rfl
  | case2 c => rfl
  | case3 c text induction =>
    rw [List.flatMap_cons, induction]
    rfl
  | case4 c d text other induction =>
    rw [List.flatMap_cons, induction]
    rfl

/-- The parts of a text are read on their own, if the first does not escape the second. -/
theorem glyphs_append {left : Text} (complete : ¬ EndsEscaping left) (right : Text) :
    glyphs (left ++ right) = glyphs left ++ glyphs right := by
  rw [← escapesNext_eq_true_iff] at complete
  fun_induction glyphs left with
  | case1 => rfl
  | case2 c =>
    have other : c ≠ '\\' := by simpa using complete
    exact glyphs_cons other right
  | case3 c text induction =>
    have rest : ¬ escapesNext false text = true := by simpa using complete
    rw [List.cons_append, List.cons_append, glyphs_backslash, induction rest, List.cons_append]
  | case4 c d text other induction =>
    have rest : ¬ escapesNext false (d :: text) = true := by simpa [other] using complete
    rw [List.cons_append, glyphs_cons other, induction rest, List.cons_append]

theorem exists_of_endsEscaping {text : Text} (escaping : EndsEscaping text) :
    ∃ front, text = front ++ ['\\'] ∧ ¬ EndsEscaping front := by
  rw [← escapesNext_eq_true_iff] at escaping
  rcases List.eq_nil_or_concat text with rfl | ⟨front, c, rfl⟩
  · simp at escaping
  · rw [List.concat_eq_append, escapesNext_append] at escaping
    have last : c = '\\' ∧ escapesNext false front = false := by simpa using escaping
    refine ⟨front, by rw [List.concat_eq_append, last.1], ?_⟩
    rw [← escapesNext_eq_true_iff, last.2]
    exact Bool.false_ne_true

/-! ## Quoted texts -/

theorem escapeQuotes_backslash (c : Char) (text : Text) :
    escapeQuotes false ('\\' :: c :: text) = '\\' :: c :: escapeQuotes false text := by
  simp [escapeQuotes]

theorem escapeQuotes_quote (text : Text) :
    escapeQuotes false ('\'' :: text) = '\\' :: '\'' :: escapeQuotes false text := by
  simp [escapeQuotes]

theorem escapeQuotes_cons {c : Char} (backslash : c ≠ '\\') (quote : c ≠ '\'') (text : Text) :
    escapeQuotes false (c :: text) = c :: escapeQuotes false text := by
  simp [escapeQuotes, backslash, quote]

/-- Escaping guards each glyph on its own. -/
theorem glyphs_escapeQuotes (text : Text) :
    glyphs (escapeQuotes false text) = text.glyphs.map Glyph.guarded := by
  -- a glyph that is no backslash is either a quote or kept
  have step : ∀ {c : Char} {rest : Text}, c ≠ '\\' →
      glyphs (escapeQuotes false rest) = rest.glyphs.map Glyph.guarded →
      glyphs (escapeQuotes false (c :: rest)) = (glyphs (c :: rest)).map Glyph.guarded := by
    intro c rest other induction
    rw [glyphs_cons other, List.map_cons, ← induction]
    by_cases quote : c = '\''
    · rw [quote, escapeQuotes_quote, glyphs_backslash]
      rfl
    · have kept : (Glyph.bare c).guarded = .bare c :=
        if_neg fun same => quote (Glyph.bare.inj same)
      rw [escapeQuotes_cons other quote, glyphs_cons other, kept]
  fun_induction glyphs text with
  | case1 => rfl
  | case2 c =>
    by_cases backslash : c = '\\'
    · rw [backslash]
      rfl
    · exact step backslash rfl
  | case3 c text induction =>
    rw [escapeQuotes_backslash, glyphs_backslash, induction, List.map_cons]
    rfl
  | case4 c d text other induction =>
    rw [step other induction, glyphs_cons other]

theorem escapesNext_escapeQuotes (escaped : Bool) (text : Text) :
    escapesNext escaped (escapeQuotes escaped text) = escapesNext escaped text := by
  induction text generalizing escaped with
  | nil => rfl
  | cons c text induction =>
    rw [escapeQuotes]
    split
    · rename_i bare
      simp [bare, induction]
    · rw [escapesNext_cons, escapesNext_cons, induction]

theorem endsEscaping_escapeQuotes (text : Text) :
    EndsEscaping (escapeQuotes false text) ↔ EndsEscaping text := by
  rw [← escapesNext_eq_true_iff, ← escapesNext_eq_true_iff, escapesNext_escapeQuotes]

theorem quote_notMem_glyphs_escapeQuotes (text : Text) :
    Glyph.quote ∉ glyphs (escapeQuotes false text) := by
  rw [glyphs_escapeQuotes, List.mem_map]
  rintro ⟨glyph, -, equal⟩
  exact glyph.guarded_ne_quote equal

theorem escapeQuotes_escapeQuotes (text : Text) :
    escapeQuotes false (escapeQuotes false text) = escapeQuotes false text := by
  rw [← flatMap_glyphs (escapeQuotes false (escapeQuotes false text)), glyphs_escapeQuotes,
    glyphs_escapeQuotes, List.map_map]
  conv_rhs => rw [← flatMap_glyphs (escapeQuotes false text), glyphs_escapeQuotes]
  exact congrArg (List.flatMap Glyph.source)
    (List.map_congr_left fun glyph _ => glyph.guarded_guarded)

theorem unescapeQuotes_escapeQuotes (text : Text) :
    unescapeQuotes (escapeQuotes false text) = unescapeQuotes text := by
  rw [unescapeQuotes, unescapeQuotes, glyphs_escapeQuotes, List.flatMap_map]
  exact congrArg (List.flatMap · text.glyphs) (funext Glyph.plainSource_guarded)

/-! ## The end of a literal -/

section UntilQuote

variable {inner : Text} (unquoted : Glyph.quote ∉ inner.glyphs)
include unquoted

theorem ne_quote_of_mem_glyphs :
    ∀ glyph ∈ inner.glyphs, decide (glyph ≠ Glyph.quote) = true := by
  intro glyph member
  simpa using fun equal : glyph = Glyph.quote => unquoted (equal ▸ member)

theorem untilQuote?_of_complete (complete : ¬ EndsEscaping inner) (code : Text) :
    untilQuote? (inner ++ '\'' :: code) = some (inner, code) := by
  have read : glyphs (inner ++ '\'' :: code) = inner.glyphs ++ Glyph.quote :: code.glyphs := by
    rw [glyphs_append complete, glyphs_cons (by simp)]
    rfl
  have all := ne_quote_of_mem_glyphs unquoted
  have dropped : (glyphs (inner ++ '\'' :: code)).dropWhile (· ≠ Glyph.quote) =
      Glyph.quote :: code.glyphs := by
    rw [read, List.dropWhile_append_of_pos all]
    simp
  have taken : (glyphs (inner ++ '\'' :: code)).takeWhile (· ≠ Glyph.quote) = inner.glyphs := by
    rw [read, List.takeWhile_append_of_pos all]
    simp
  simp only [untilQuote?, dropped, taken, flatMap_glyphs]

/-- A text that escapes the closing quote does not end there. -/
theorem untilQuote?_ne_of_escaping (escaping : EndsEscaping inner) (code : Text) :
    untilQuote? (inner ++ '\'' :: code) ≠ some (inner, code) := by
  obtain ⟨front, equal, complete⟩ := exists_of_endsEscaping escaping
  -- the backslash at the end is read together with the quote behind it
  have read : glyphs (front ++ '\\' :: '\'' :: code) =
      front.glyphs ++ .escaped '\'' :: code.glyphs := by
    rw [glyphs_append complete, glyphs_backslash]
  have ends : inner.glyphs = front.glyphs ++ [.bare '\\'] := by
    rw [equal, glyphs_append complete]
    rfl
  have all : ∀ glyph ∈ front.glyphs, decide (glyph ≠ Glyph.quote) = true := by
    apply ne_quote_of_mem_glyphs
    rw [ends, List.mem_append, not_or] at unquoted
    exact unquoted.1
  have taken : (glyphs (inner ++ '\'' :: code)).takeWhile (· ≠ Glyph.quote) =
      front.glyphs ++ .escaped '\'' :: code.glyphs.takeWhile (· ≠ Glyph.quote) := by
    rw [equal, List.append_assoc, List.singleton_append, read,
      List.takeWhile_append_of_pos all, List.takeWhile_cons_of_pos (by simp [Glyph.quote])]
  intro closed
  rw [untilQuote?] at closed
  split at closed
  · simp at closed
  · have body := congrArg Prod.fst (Option.some.inj closed)
    rw [taken, List.flatMap_append, flatMap_glyphs, equal] at body
    simp [Glyph.source] at body

end UntilQuote

/-- The text between the first and the last character of a literal. -/
def literalText (literal : Text) : Text :=
  literal.tail.dropLast

theorem literalText_singleQuoted (text : Text) :
    literalText (singleQuoted text) = escapeQuotes false text := by
  rw [literalText, singleQuoted, List.cons_append, List.tail_cons, List.dropLast_concat]

/-- Quoting is exact. In the text of a literal no quote is bare; it is the quoted text with a
backslash put before each bare quote, so it stands for the same characters, and quoting it again
changes nothing. Whatever code stands behind the literal, the literal is read to its last character
if and only if the quoted text does not end in an odd number of backslashes. -/
theorem singleQuoted_exact (text : Text) :
    singleQuoted text = '\'' :: (literalText (singleQuoted text) ++ ['\'']) ∧
      Glyph.quote ∉ glyphs (literalText (singleQuoted text)) ∧
      glyphs (literalText (singleQuoted text)) = text.glyphs.map Glyph.guarded ∧
      unescapeQuotes (literalText (singleQuoted text)) = unescapeQuotes text ∧
      singleQuoted (literalText (singleQuoted text)) = singleQuoted text ∧
      ∀ code, untilQuote? ((singleQuoted text).tail ++ code) =
          some (literalText (singleQuoted text), code) ↔ ¬ EndsEscaping text := by
  rw [literalText_singleQuoted]
  have unquoted := quote_notMem_glyphs_escapeQuotes text
  refine ⟨rfl, unquoted, glyphs_escapeQuotes text, unescapeQuotes_escapeQuotes text, ?_, ?_⟩
  · rw [singleQuoted, singleQuoted, escapeQuotes_escapeQuotes]
  · intro code
    have behind : (singleQuoted text).tail ++ code = escapeQuotes false text ++ '\'' :: code := by
      simp [singleQuoted]
    rw [behind, ← endsEscaping_escapeQuotes]
    constructor
    · exact fun closed escaping => untilQuote?_ne_of_escaping unquoted escaping code closed
    · exact fun complete => untilQuote?_of_complete unquoted complete code

end Text

end JsxCalls
