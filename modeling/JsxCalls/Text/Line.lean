import JsxCalls.Text.Basic

/-!
# Lines

A line ends with its line feed, or with the text. A text is its first line and the text behind it.
-/

namespace JsxCalls.Text

/-- The first line of a text, with its line break. -/
def takeLine : Text → Text
  | [] => []
  | c :: text => if c = '\n' then [c] else c :: takeLine text

/-- The text behind its first line. -/
def dropLine : Text → Text
  | [] => []
  | c :: text => if c = '\n' then text else dropLine text

theorem takeLine_append_dropLine (text : Text) : takeLine text ++ dropLine text = text := by
  induction text with
  | nil => rfl
  | cons c text induction =>
    simp only [takeLine, dropLine]
    split <;> simp [induction]

theorem length_dropLine_le (text : Text) : (dropLine text).length ≤ text.length := by
  induction text with
  | nil => exact Nat.le_refl _
  | cons c text induction =>
    simp only [dropLine]
    split
    · exact Nat.le_succ _
    · exact Nat.le_succ_of_le induction

theorem length_dropLine_lt {text : Text} (filled : text ≠ []) :
    (dropLine text).length < text.length := by
  cases text with
  | nil => exact (filled rfl).elim
  | cons c text =>
    simp only [dropLine]
    split
    · exact Nat.lt_succ_self _
    · exact Nat.lt_succ_of_le (length_dropLine_le text)

end JsxCalls.Text
