import JsxCalls.Text.Basic

/-!
# White space

The characters of the Unicode property White_Space, and trimming by them.
-/

namespace JsxCalls

/-- The property White_Space. -/
def spaceRanges : CodeRanges := [
  (0x9, 0xD), (0x20, 0x20), (0x85, 0x85), (0xA0, 0xA0), (0x1680, 0x1680), (0x2000, 0x200A),
  (0x2028, 0x2029), (0x202F, 0x202F), (0x205F, 0x205F), (0x3000, 0x3000)]

/-- White space separates words and may stand at the ends of markup. -/
def isSpace (c : Char) : Bool :=
  spaceRanges.holds c

/-- Indentation consists of spaces and tabs only, so it never leaves its line. -/
def isIndent (c : Char) : Bool :=
  c = ' ' || c = '\t'

namespace Text

/-- The text without the white space at its end. -/
def trimEnd (text : Text) : Text :=
  dropEndWhile isSpace text

/-- The text without the white space at both ends. -/
def trim (text : Text) : Text :=
  trimEnd (text.dropWhile isSpace)

end Text

end JsxCalls
