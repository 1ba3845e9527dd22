import JsxCalls.Text.Basic

/-!
# Single-quoted literals

A literal holds its text between single quotes. A backslash escapes the character after it, and a
quote that is not yet escaped gets a backslash of its own; nothing else is changed.
-/

namespace JsxCalls.Text

/-- The text with a backslash before each quote that is not escaped. The flag says whether the
character before the text escapes its first character. -/
def escapeQuotes : Bool → Text → Text
  | _, [] => []
  | escaped, c :: rest =>
    if c = '\'' ∧ escaped = false then
      '\\' :: c :: escapeQuotes false rest
    else
      c :: escapeQuotes (c = '\\' && !escaped) rest

/-- The text as a literal between single quotes. -/
def singleQuoted (text : Text) : Text :=
  '\'' :: escapeQuotes false text ++ ['\'']

end JsxCalls.Text
