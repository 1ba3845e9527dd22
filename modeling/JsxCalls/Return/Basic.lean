import JsxCalls.Text.Pattern
import JsxCalls.Text.Space

/-!
# Return statements

A return statement of markup stands at the start of a line and comes in two forms. In the
parenthesized form the markup ends with the first closing tag that has `);` behind it; in the inline
form it ends with the first semicolon. Both forms may extend over several lines.
-/

namespace JsxCalls

/-- A return statement whose value is markup. -/
structure ReturnStatement where
  /-- The indentation of the line on which the statement starts. -/
  indent : Text
  /-- The markup that is returned. -/
  markup : Text
deriving DecidableEq, Repr

namespace ReturnStatement

/-- The word that starts a statement. -/
def keyword : Text := "return".toList

/-- The indentation and the text behind the keyword and the white space that follows it. -/
def head? (text : Text) : Option (Text × Text) := do
  let behind ← Text.after? keyword (text.dropWhile isIndent)
  if behind.head?.any isSpace then
    some (text.takeWhile isIndent, behind.dropWhile isSpace)
  else
    none

theorem append_of_head? {text indent rest : Text} (found : head? text = some (indent, rest)) :
    ∃ gap : Text, text = indent ++ keyword ++ gap ++ rest ∧ gap ≠ [] ∧
      (∀ c ∈ indent, isIndent c = true) ∧ ∀ c ∈ gap, isSpace c = true := by
  simp only [head?, bind, Option.bind_eq_some_iff] at found
  obtain ⟨behind, opened, found⟩ := found
  split at found
  · rename_i spaced
    simp only [Option.some.injEq, Prod.mk.injEq] at found
    obtain ⟨rfl, rfl⟩ := found
    refine ⟨behind.takeWhile isSpace, ?_, ?_, fun c => Text.of_mem_takeWhile,
      fun c => Text.of_mem_takeWhile⟩
    · rw [List.append_assoc, List.takeWhile_append_dropWhile, List.append_assoc,
        ← Text.after?_eq_some_iff.mp opened, List.takeWhile_append_dropWhile]
    · cases behind with
      | nil => simp at spaced
      | cons c behind => simp_all
  · simp at found

theorem length_lt_of_head? {text indent rest : Text} (found : head? text = some (indent, rest)) :
    rest.length < text.length := by
  obtain ⟨gap, rfl, filled, -⟩ := append_of_head? found
  have := List.length_pos_iff.mpr filled
  simp only [List.length_append]
  omega

/-! ## The parenthesized form -/

/-- A closing tag of any name that ends the statement, and the text behind the statement. -/
def closing? (text : Text) : Option (Text × Text) := do
  let behind ← Text.after? ['<', '/'] text
  let (name, outside) ← Text.until? '>' behind
  let rest ← Text.after? [')', ';'] (outside.dropWhile isSpace)
  if name = [] then none else some ('<' :: '/' :: name ++ ['>'], rest)

/-- The text up to and with the first closing tag that ends the statement, and the text behind the
statement. -/
def throughClosing? : Text → Option (Text × Text)
  | [] => none
  | c :: text =>
    match closing? (c :: text) with
    | some found => some found
    | none => (throughClosing? text).map fun (inside, rest) => (c :: inside, rest)

/-- A parenthesized return statement at the start of a line. -/
def parenthesized? (text : Text) : Option (ReturnStatement × Text) := do
  let (indent, behind) ← head? text
  let inside ← Text.after? ['('] behind
  let body ← Text.after? ['<'] (inside.dropWhile isSpace)
  let (opening, content) ← Text.until? '>' body
  let (content, rest) ← throughClosing? content
  some (⟨indent, '<' :: opening ++ '>' :: content⟩, rest)

theorem length_lt_of_closing? {text tag rest : Text} (found : closing? text = some (tag, rest)) :
    rest.length < text.length := by
  simp only [closing?, bind, Option.bind_eq_some_iff] at found
  obtain ⟨behind, opened, ⟨name, outside⟩, cut, after, ended, found⟩ := found
  split at found
  · simp at found
  · simp only [Option.some.injEq, Prod.mk.injEq] at found
    obtain ⟨-, rfl⟩ := found
    calc
      after.length ≤ (outside.dropWhile isSpace).length := by
        rw [Text.length_of_after? ended]; exact Nat.le_add_left _ _
      _ ≤ outside.length := Text.length_dropWhile_le _ _
      _ < behind.length := Text.length_of_until? cut
      _ ≤ text.length := by rw [Text.length_of_after? opened]; exact Nat.le_add_left _ _

theorem length_lt_of_throughClosing? {text inside rest : Text}
    (found : throughClosing? text = some (inside, rest)) : rest.length < text.length := by
  induction text generalizing inside with
  | nil => simp [throughClosing?] at found
  | cons c text induction =>
    simp only [throughClosing?] at found
    split at found
    · rename_i here
      exact length_lt_of_closing? (here.trans found)
    · obtain ⟨⟨inside', rest'⟩, later, equal⟩ := Option.map_eq_some_iff.mp found
      cases equal
      exact Nat.lt_succ_of_lt (induction later)

/-- Return statements in the parenthesized form. -/
def parenthesized : Pattern ReturnStatement where
  start? := parenthesized?
  shorter := by
    intro text item rest found
    simp only [parenthesized?, bind, Option.bind_eq_some_iff] at found
    obtain ⟨⟨indent, behind⟩, headed, inside, opened, body, tagged, ⟨opening, content⟩, cut,
      ⟨kept, after⟩, closed, found⟩ := found
    simp only [Option.some.injEq, Prod.mk.injEq] at found
    obtain ⟨-, rfl⟩ := found
    calc
      after.length < content.length := length_lt_of_throughClosing? closed
      _ < body.length := Text.length_of_until? cut
      _ ≤ (inside.dropWhile isSpace).length := by
        rw [Text.length_of_after? tagged]; exact Nat.le_add_left _ _
      _ ≤ inside.length := Text.length_dropWhile_le _ _
      _ ≤ behind.length := by rw [Text.length_of_after? opened]; exact Nat.le_add_left _ _
      _ < text.length := length_lt_of_head? headed

/-! ## The inline form -/

/-- An inline return statement at the start of a line. Between the `<` and the `>` of its markup
stands at least one character. -/
def inline? (text : Text) : Option (ReturnStatement × Text) := do
  let (indent, behind) ← head? text
  let body ← Text.after? ['<'] behind
  let (content, rest) ← Text.until? ';' body
  if 2 ≤ content.length ∧ content.getLast? = some '>' then
    some (⟨indent, '<' :: content⟩, rest)
  else
    none

/-- Return statements in the inline form. -/
def inline : Pattern ReturnStatement where
  start? := inline?
  shorter := by
    intro text item rest found
    simp only [inline?, bind, Option.bind_eq_some_iff] at found
    obtain ⟨⟨indent, behind⟩, headed, body, tagged, ⟨content, after⟩, cut, found⟩ := found
    split at found
    · simp only [Option.some.injEq, Prod.mk.injEq] at found
      obtain ⟨-, rfl⟩ := found
      calc
        after.length < body.length := Text.length_of_until? cut
        _ ≤ behind.length := by rw [Text.length_of_after? tagged]; exact Nat.le_add_left _ _
        _ < text.length := length_lt_of_head? headed
    · simp at found

end ReturnStatement

end JsxCalls
