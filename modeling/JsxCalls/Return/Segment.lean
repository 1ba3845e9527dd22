import JsxCalls.Element.Converter
import JsxCalls.Return.Basic
import JsxCalls.Text.Line

/-!
# Return statements within a text

A pass over a text looks for the statements of one form at the starts of its lines. Behind a
statement that is found, the rest of the line on which it ends is kept, and the pass goes on with
the line after it. The parenthesized form is converted first, and the inline form in what results.
-/

namespace JsxCalls

/-- One segment of a text in which return statements were looked for. -/
inductive Segment where
  /-- Text that is kept. -/
  | kept (text : Text)
  /-- A statement that was found. -/
  | statement (found : ReturnStatement)
deriving DecidableEq, Repr

namespace Segment

/-- The segments of a text that begins at the start of a line. -/
def ofText (form : Pattern ReturnStatement) : Text → List Segment
  | [] => []
  | c :: text =>
    match _ : form.start? (c :: text) with
    | some (found, rest) =>
      .statement found :: .kept (Text.takeLine rest) :: ofText form (Text.dropLine rest)
    | none => .kept (Text.takeLine (c :: text)) :: ofText form (Text.dropLine (c :: text))
termination_by text => text.length
decreasing_by
  · exact Nat.lt_of_le_of_lt (Text.length_dropLine_le _) (form.shorter (by assumption))
  · exact Text.length_dropLine_lt (List.cons_ne_nil _ _)

/-- The segment is a statement. -/
def isStatement : Segment → Bool
  | .kept _ => false
  | .statement _ => true

/-- The segment as it is written by a converter. -/
def render (converter : Converter) : Segment → Text
  | .kept text => text
  | .statement found =>
    found.indent ++ ReturnStatement.keyword ++ " ".toList ++
      converter.convert (Text.trim found.markup) (found.indent ++ converter.style.indentUnit) ++
      ";".toList

end Segment

/-- A text whose return statements were converted. -/
structure Converted where
  /-- The text with the calls. -/
  text : Text
  /-- How many statements were converted. -/
  count : Nat
deriving DecidableEq, Repr

namespace Converter

/-- Converts the statements of one form. -/
def convertForm (converter : Converter) (form : Pattern ReturnStatement) (text : Text) :
    Converted :=
  let segments := Segment.ofText form text
  { text := segments.flatMap (Segment.render converter)
    count := segments.countP Segment.isStatement }

/-- Converts the return statements of a text. -/
def convertReturns (converter : Converter) (text : Text) : Converted :=
  let parenthesized := converter.convertForm ReturnStatement.parenthesized text
  let inline := converter.convertForm ReturnStatement.inline parenthesized.text
  { text := inline.text
    count := parenthesized.count + inline.count }

end Converter

end JsxCalls
