import JsxCalls.Text.Pattern

/-!
# Embedded expressions

An embedded expression is a pair of braces with no brace between them. Braces that enclose other
braces, or that have no partner, are ordinary characters.
-/

namespace JsxCalls

/-- An embedded expression, held by the text between its braces. -/
structure Expression where
  /-- What stands between the braces. -/
  body : Text
deriving DecidableEq, Repr

/-- The expression as it stands in the source. -/
def Expression.source (expression : Expression) : Text :=
  '{' :: expression.body ++ ['}']

/-- An opening or a closing brace. -/
def isBrace (c : Char) : Bool :=
  c = '{' || c = '}'

/-- An expression starts at an opening brace whose next brace is a closing one. -/
def Expression.start? : Text → Option (Expression × Text)
  | [] => none
  | c :: text =>
    if c = '{' then
      match text.dropWhile (fun c => !isBrace c) with
      | [] => none
      | brace :: rest =>
        if brace = '}' then some (⟨text.takeWhile fun c => !isBrace c⟩, rest) else none
    else none

theorem Expression.start?_eq_some_iff {text rest : Text} {expression : Expression} :
    Expression.start? text = some (expression, rest) ↔
      text = expression.source ++ rest ∧ ∀ c ∈ expression.body, isBrace c = false := by
  constructor
  · intro found
    match text with
    | [] => simp [Expression.start?] at found
    | c :: text =>
      simp only [Expression.start?] at found
      split at found
      · split at found
        · simp at found
        · rename_i opens _ brace behind cut
          split at found
          · rename_i closes
            simp only [Option.some.injEq, Prod.mk.injEq] at found
            obtain ⟨rfl, rfl⟩ := found
            refine ⟨?_, ?_⟩
            · have whole := List.takeWhile_append_dropWhile (p := fun c => !isBrace c) (l := text)
              rw [cut, closes] at whole
              simp [Expression.source, opens, whole]
            · intro c inside
              simpa using Text.of_mem_takeWhile inside
          · simp at found
      · simp at found
  · rintro ⟨rfl, plain⟩
    have inside : ∀ c ∈ expression.body, (!isBrace c) = true := by simpa using plain
    have stops : Text.StopsRun (fun c => !isBrace c) ('}' :: rest) := by
      simp [Text.StopsRun, isBrace]
    simp [Expression.start?, Expression.source, Text.takeWhile_run inside stops,
      Text.dropWhile_run inside stops]

/-- Expressions as they occur in a source. -/
def Expression.pattern : Pattern Expression where
  start? := Expression.start?
  shorter := by
    intro text item rest found
    rw [(Expression.start?_eq_some_iff.mp found).1]
    simp [Expression.source]
    omega

end JsxCalls
