import Mathlib.Data.List.Induction
import JsxCalls.Text.Quoted
import JsxCalls.Proofs.Occurrence

/-!
# Escaped quotes

Whether a character is escaped depends on the backslashes before it only: a run of them that is odd
escapes it, and an even run consists of backslashes that escape each other. Escaping quotes reads
the text with one flag, which is the parity of that run, so texts can be escaped piece by piece, and
a text stays as it is exactly when all of its quotes stand behind odd runs.
-/

namespace JsxCalls

namespace Text

/-- The text ends in an odd number of backslashes, so it escapes what is written behind it. -/
def EndsEscaping (text : Text) : Prop :=
  (text.reverse.takeWhile (· = '\\')).length % 2 = 1

/-- Each quote of the text is escaped by what stands before it. -/
def QuotesEscaped (text : Text) : Prop :=
  ∀ before after, text = before ++ '\'' :: after → EndsEscaping before

/-- The flag behind a text, when the flag before it says whether its first character is escaped. -/
def escapesNext (escaped : Bool) (text : Text) : Bool :=
  text.foldl (fun escaped c => c = '\\' && !escaped) escaped

@[simp]
theorem escapesNext_nil (escaped : Bool) : escapesNext escaped [] = escaped := rfl

@[simp]
theorem escapesNext_cons (escaped : Bool) (c : Char) (text : Text) :
    escapesNext escaped (c :: text) = escapesNext (c = '\\' && !escaped) text := rfl

theorem escapesNext_append (escaped : Bool) (left right : Text) :
    escapesNext escaped (left ++ right) = escapesNext (escapesNext escaped left) right :=
  List.foldl_append

theorem escapesNext_concat (escaped : Bool) (text : Text) {c : Char} (other : c ≠ '\\') :
    escapesNext escaped (text ++ [c]) = false := by
  simp [escapesNext_append, other]

/-- The flag is the parity of the run of backslashes read last. -/
theorem escapesNext_eq_true_iff (text : Text) :
    escapesNext false text = true ↔ EndsEscaping text := by
  induction text using List.reverseRecOn with
  | nil => simp [EndsEscaping]
  | append_singleton text c induction =>
    by_cases backslash : c = '\\'
    · have flips : escapesNext false (text ++ [c]) = !escapesNext false text := by
        simp [escapesNext_append, backslash]
      have longer : ((text ++ [c]).reverse.takeWhile (· = '\\')).length =
          (text.reverse.takeWhile (· = '\\')).length + 1 := by
        simp [backslash]
      rw [flips, Bool.not_eq_true', ← Bool.not_eq_true, induction, EndsEscaping, EndsEscaping,
        longer]
      omega
    · simp [escapesNext_concat false text backslash, EndsEscaping, backslash]

/-! ## Escaping piece by piece -/

/-- A text is escaped from left to right; only the flag passes from one part to the next. -/
theorem escapeQuotes_append (escaped : Bool) (left right : Text) :
    escapeQuotes escaped (left ++ right) =
      escapeQuotes escaped left ++ escapeQuotes (escapesNext escaped left) right := by
  induction left generalizing escaped with
  | nil => rfl
  | cons c left induction =>
    rw [List.cons_append, escapeQuotes, escapeQuotes, escapesNext_cons]
    split
    · rename_i bare
      have flag : (decide (c = '\\') && !escaped) = false := by simp [bare.1]
      rw [induction, flag]
      rfl
    · rw [induction]
      rfl

theorem mem_of_mem_escapeQuotes {escaped : Bool} {text : Text} {c : Char} (other : c ≠ '\\')
    (member : c ∈ escapeQuotes escaped text) : c ∈ text := by
  induction text generalizing escaped with
  | nil => exact member
  | cons d text induction =>
    rw [escapeQuotes] at member
    split at member
    · rcases List.mem_cons.mp member with rfl | member
      · exact absurd rfl other
      rcases List.mem_cons.mp member with rfl | member
      · exact List.mem_cons_self
      · exact List.mem_cons_of_mem d (induction member)
    · rcases List.mem_cons.mp member with rfl | member
      · exact List.mem_cons_self
      · exact List.mem_cons_of_mem d (induction member)

/-! ## Texts that stay as they are -/

theorem escapeQuotes_eq_self_iff {escaped : Bool} {text : Text} :
    escapeQuotes escaped text = text ↔
      ∀ before after, text = before ++ '\'' :: after → escapesNext escaped before = true := by
  induction text generalizing escaped with
  | nil => simp [escapeQuotes]
  | cons c text induction =>
    rw [escapeQuotes]
    split
    · rename_i bare
      obtain ⟨rfl, rfl⟩ := bare
      refine ⟨fun equal => absurd (List.cons.inj equal).1 (by decide), fun all => ?_⟩
      exact absurd (all [] text rfl) Bool.false_ne_true
    · rename_i kept
      rw [List.cons_inj_right, induction]
      constructor
      · intro all before after equal
        cases before with
        | nil =>
          obtain ⟨rfl, -⟩ := List.cons.inj equal
          simpa using kept
        | cons d before =>
          obtain ⟨rfl, rest⟩ := List.cons.inj equal
          exact all before after rest
      · rintro all before after rfl
        exact all (c :: before) after rfl

theorem escapeQuotes_eq_self {escaped : Bool} {text : Text} (plain : '\'' ∉ text) :
    escapeQuotes escaped text = text := by
  refine escapeQuotes_eq_self_iff.mpr fun before after equal => absurd ?_ plain
  simp [equal]

/-- Escaping changes nothing exactly where each quote is escaped already. -/
theorem escapeQuotes_eq_self_iff_quotesEscaped {text : Text} :
    escapeQuotes false text = text ↔ QuotesEscaped text := by
  simp only [escapeQuotes_eq_self_iff, escapesNext_eq_true_iff, QuotesEscaped]

instance (text : Text) : Decidable (QuotesEscaped text) :=
  decidable_of_iff _ escapeQuotes_eq_self_iff_quotesEscaped

end Text

/-! ## Quoting around items -/

section EscapePieces

variable {α : Type}

/-- The pieces with a backslash before each quote that is not escaped. An item is kept, and it
escapes nothing. -/
def escapePieces : Bool → List (Piece α) → List (Piece α)
  | _, [] => []
  | escaped, .char c :: pieces =>
    if c = '\'' ∧ escaped = false then
      .char '\\' :: .char c :: escapePieces false pieces
    else
      .char c :: escapePieces (c = '\\' && !escaped) pieces
  | _, .item found :: pieces => .item found :: escapePieces false pieces

theorem prefix_of_prefix_escapePieces {word : Text} (plain : '\\' ∉ word) {escaped : Bool}
    {pieces : List (Piece α)} (starts : word.map .char <+: escapePieces escaped pieces) :
    word.map .char <+: pieces := by
  induction word generalizing escaped pieces with
  | nil => exact List.nil_prefix
  | cons first others induction =>
    rw [List.mem_cons, not_or] at plain
    cases pieces with
    | nil => exact starts
    | cons piece pieces =>
      cases piece with
      | item found => simp [escapePieces] at starts
      | char c =>
        rw [escapePieces] at starts
        split at starts
        · obtain ⟨same, -⟩ := List.cons_prefix_cons.mp starts
          exact absurd (Piece.char.inj same).symm plain.1
        · obtain ⟨same, rest⟩ := List.cons_prefix_cons.mp starts
          exact List.cons_prefix_cons.mpr ⟨same, induction plain.2 rest⟩

/-- Escaping writes backslashes only, so it writes no other word. -/
theorem infix_of_infix_escapePieces {word : Text} (plain : '\\' ∉ word) {escaped : Bool}
    {pieces : List (Piece α)} (found : word.map .char <:+: escapePieces escaped pieces) :
    word.map .char <:+: pieces := by
  induction pieces generalizing escaped with
  | nil => exact found
  | cons piece pieces induction =>
    by_cases here : word.map .char <+: piece :: pieces
    · exact here.isInfix
    have start : ∀ escaped, ¬ word.map .char <+: escapePieces escaped (piece :: pieces) :=
      fun escaped starts => here (prefix_of_prefix_escapePieces plain starts)
    apply List.infix_cons
    cases piece with
    | item expression =>
      exact induction ((List.infix_cons_iff.mp found).resolve_left (start escaped))
    | char c =>
      have now := start escaped
      rw [escapePieces] at found now
      split at found
      · rename_i bare
        rw [if_pos bare] at now
        have behind := (List.infix_cons_iff.mp found).resolve_left now
        -- behind the backslash the quote stands as if it had been escaped
        have quote : escapePieces true (.char c :: pieces) =
            .char c :: escapePieces false pieces := by
          simp [escapePieces]
        exact induction ((List.infix_cons_iff.mp behind).resolve_left (quote ▸ start true))
      · rename_i kept
        rw [if_neg kept] at now
        exact induction ((List.infix_cons_iff.mp found).resolve_left now)

theorem escapePieces_map_char (escaped : Bool) (text : Text) :
    escapePieces escaped (text.map .char : List (Piece α)) =
      (Text.escapeQuotes escaped text).map .char := by
  induction text generalizing escaped with
  | nil => rfl
  | cons c text induction =>
    rw [List.map_cons, escapePieces, Text.escapeQuotes]
    split
    · rw [induction, List.map_cons, List.map_cons]
    · rw [induction, List.map_cons]

end EscapePieces

namespace Text

variable {word text : Text} (plain : '\\' ∉ word) {escaped : Bool}
include plain

/-- Escaping does not write the beginning of a text that has no backslash. -/
theorem prefix_of_escapeQuotes (starts : word <+: escapeQuotes escaped text) : word <+: text := by
  have mapped : word.map .char <+: escapePieces escaped (text.map .char : List (Piece Unit)) := by
    rw [escapePieces_map_char]
    exact starts.map Piece.char
  exact prefix_of_prefix_map_char (prefix_of_prefix_escapePieces plain mapped)

theorem infix_of_escapeQuotes (found : word <:+: escapeQuotes escaped text) : word <:+: text := by
  have mapped : word.map .char <:+: escapePieces escaped (text.map .char : List (Piece Unit)) := by
    rw [escapePieces_map_char]
    exact found.map Piece.char
  exact infix_of_infix_map_char (infix_of_infix_escapePieces plain mapped)

end Text

end JsxCalls
