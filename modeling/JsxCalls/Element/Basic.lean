import JsxCalls.Text.Space
import JsxCalls.Text.Word

/-!
# Elements

An element is written `<tag attributes/>`, or `<tag attributes>children</tag>` with the same tag at
both ends. White space may follow it. The attributes reach to the first `>`, and the children to the
closing tag at the very end, so a text is an element in at most one way.
-/

namespace JsxCalls

/-- One element of the markup. -/
structure Element where
  /-- The name of the element. -/
  tag : Text
  /-- The attribute list as written. -/
  attributes : Text
  /-- What stands between the tags; an element that closes itself has none. -/
  children : Option Text
deriving DecidableEq, Repr

namespace Element

/-- The element closes itself. -/
def isSelfClosing (element : Element) : Bool :=
  element.children.isNone

/-- The tag that closes an element of the given name. -/
def closingTag (tag : Text) : Text :=
  '<' :: '/' :: tag ++ ['>']

/-- The text before the closing tag with which, white space apart, the text ends. -/
def beforeClosing? (tag text : Text) : Option Text :=
  (Text.after? (closingTag tag).reverse (text.reverse.dropWhile isSpace)).map List.reverse

/-- The element that a text consists of. -/
def parse? (markup : Text) : Option Element := do
  let body ← Text.after? ['<'] markup
  let tag := body.takeWhile isWord
  let (attributes, rest) ← Text.until? '>' (body.dropWhile isWord)
  if tag = [] then
    none
  else if attributes.getLast? = some '/' ∧ rest.all isSpace then
    some ⟨tag, attributes.dropLast, none⟩
  else
    (beforeClosing? tag rest).map fun children => ⟨tag, attributes, some children⟩

end Element

end JsxCalls
