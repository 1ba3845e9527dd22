import JsxCalls.Text.Basic

/-!
# Patterns

A pattern recognises one item at the start of a text. Searching for a pattern cuts a text into
pieces: at each place the pattern is tried, an item that is found is taken whole, and the search
goes on behind it; otherwise one character is kept. So the occurrences that a search finds are the
leftmost ones, and no two of them overlap.
-/

namespace JsxCalls

/-- What is recognised at the start of a text, together with the text behind it. -/
structure Pattern (α : Type) where
  /-- The item at the start of the text and the rest of the text. -/
  start? : Text → Option (α × Text)
  /-- An item takes up at least one character. -/
  shorter : ∀ {text : Text} {item : α} {rest : Text},
    start? text = some (item, rest) → rest.length < text.length

/-- One piece of a searched text. -/
inductive Piece (α : Type) where
  /-- A character where no item starts. -/
  | char (c : Char)
  /-- An occurrence of the pattern. -/
  | item (found : α)
deriving DecidableEq, Repr

/-- What is written in place of a piece, when `write` says what replaces an item. -/
def Piece.replaced {α : Type} (write : α → Text) : Piece α → Text
  | .char c => [c]
  | .item found => write found

namespace Pattern

variable {α : Type}

/-- The pieces of a text, from left to right. -/
def pieces (pattern : Pattern α) : Text → List (Piece α)
  | [] => []
  | c :: text =>
    match _ : pattern.start? (c :: text) with
    | some (item, rest) => .item item :: pattern.pieces rest
    | none => .char c :: pattern.pieces text
termination_by text => text.length
decreasing_by
  · exact pattern.shorter (by assumption)
  · exact Nat.lt_succ_self _

/-- The occurrences in a text, from left to right. -/
def items (pattern : Pattern α) (text : Text) : List α :=
  (pattern.pieces text).filterMap fun
    | .char _ => none
    | .item found => some found

/-- The text with every occurrence replaced. -/
def replaceAll (pattern : Pattern α) (write : α → Text) : Text → Text
  | [] => []
  | c :: text =>
    match _ : pattern.start? (c :: text) with
    | some (item, rest) => write item ++ pattern.replaceAll write rest
    | none => c :: pattern.replaceAll write text
termination_by text => text.length
decreasing_by
  · exact pattern.shorter (by assumption)
  · exact Nat.lt_succ_self _

/-- The pattern of one fixed text, given by its first character and the others. -/
def literal (first : Char) (others : Text) : Pattern Unit where
  start? text := (Text.after? (first :: others) text).map fun rest => ((), rest)
  shorter := by
    intro text item rest found
    obtain ⟨rest', after, equal⟩ := Option.map_eq_some_iff.mp found
    obtain rfl : rest' = rest := congrArg Prod.snd equal
    simp only [Text.after?_eq_some_iff.mp after, List.cons_append, List.length_cons,
      List.length_append]
    omega

end Pattern

/-- The text with every occurrence of `target` replaced, from left to right and without looking
again at what was written. -/
def Text.replace (target replacement text : Text) : Text :=
  match target with
  | [] => text
  | first :: others => (Pattern.literal first others).replaceAll (fun _ => replacement) text

end JsxCalls
