import JsxCalls.Expression

/-!
# Masking

Masking takes the embedded expressions out of a source and puts numbered placeholders in their
places, so that the characters inside an expression cannot be read as markup. Restoring puts the
expressions back, one after another in the order of their numbers.
-/

namespace JsxCalls

namespace Placeholder

/-- How every placeholder begins. -/
def opening : Text := "__PROTECTED_".toList

/-- How every placeholder ends. -/
def closing : Text := "__".toList

/-- The placeholder of the expression with the given number. -/
def token (index : Nat) : Text :=
  opening ++ Text.ofNat index ++ closing

/-- The number of a placeholder. Leading zeros are allowed; only the digits `0` to `9` count. -/
def index? (text : Text) : Option Nat :=
  match Text.after? opening text with
  | none => none
  | some rest =>
    let digits := rest.takeWhile Char.isDigit
    if digits ≠ [] ∧ rest.dropWhile Char.isDigit = closing then
      some (Nat.ofDigitChars 10 digits 0)
    else
      none

end Placeholder

/-- The expressions taken out of a source, in the order of their numbers. -/
structure ExpressionTable where
  /-- The expressions, number zero first. -/
  entries : List Expression := []
deriving DecidableEq, Repr

namespace ExpressionTable

/-- The expression with the given number. -/
def get? (table : ExpressionTable) (index : Nat) : Option Expression :=
  table.entries[index]?

/-- The expression that a placeholder stands for. -/
def resolve? (table : ExpressionTable) (token : Text) : Option Expression :=
  (Placeholder.index? token).bind table.get?

/-- Restores the entries, the first of which has number `index`. -/
def restoreFrom (index : Nat) : List Expression → Text → Text
  | [], text => text
  | entry :: entries, text =>
    restoreFrom (index + 1) entries (Text.replace (Placeholder.token index) entry.source text)

/-- Puts every expression back, in the order of their numbers. Text that came back with an earlier
expression is searched again for the later placeholders. -/
def restore (table : ExpressionTable) (text : Text) : Text :=
  restoreFrom 0 table.entries text

end ExpressionTable

/-- A source with its expressions taken out. -/
structure Masked where
  /-- The source with placeholders in place of the expressions. -/
  text : Text
  /-- The expressions that were taken out. -/
  table : ExpressionTable
deriving DecidableEq, Repr

/-- Writes placeholders for the expressions among the pieces, the first of which gets number
`index`. -/
def maskFrom (index : Nat) : List (Piece Expression) → Text
  | [] => []
  | .char c :: pieces => c :: maskFrom index pieces
  | .item _ :: pieces => Placeholder.token index ++ maskFrom (index + 1) pieces

/-- Takes the expressions out of a source. -/
def mask (source : Text) : Masked where
  text := maskFrom 0 (Expression.pattern.pieces source)
  table := ⟨Expression.pattern.items source⟩

end JsxCalls
