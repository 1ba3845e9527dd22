import JsxCalls.Attribute.Parser
import JsxCalls.Element.Basic
import JsxCalls.Element.Call

/-!
# Converting elements

A converter turns the markup of one element into a call. Children are passed as one literal,
whatever they hold, and markup that is no element is left as it is.
-/

namespace JsxCalls

/-- How calls are written. -/
structure CallStyle where
  /-- The object whose function creates elements. -/
  receiver : Text := "React".toList
  /-- One level of indentation. -/
  indentUnit : Text := "  ".toList
deriving DecidableEq, Repr

/-- The children argument of a call. Blank children are no argument. -/
def childrenArgument (children : Text) : Option Text :=
  let content := Text.trim children
  if content = [] then none else some (Text.singleQuoted content)

/-- What is needed to convert elements of one source. -/
structure Converter where
  /-- How calls are written. -/
  style : CallStyle
  /-- The masked expressions of the source, if it is masked. -/
  table : Option ExpressionTable := none

namespace Converter

/-- The call that creates an element. -/
def call (converter : Converter) (element : Element) : ElementCall where
  receiver := converter.style.receiver
  tag := element.tag
  props := propsOfList converter.table element.attributes
  children := element.children.bind childrenArgument

/-- The markup as a call, behind the given indentation. -/
def convert (converter : Converter) (markup indent : Text) : Text :=
  let markup := Text.trim markup
  match Element.parse? markup with
  | none => markup
  | some element => (converter.call element).render indent converter.style.indentUnit

end Converter

end JsxCalls
