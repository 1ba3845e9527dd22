import JsxCalls.Text.Quoted

/-!
# Attributes

An attribute has a name and a value, and becomes one entry of the props object. Two names stand for
properties that are spelled differently, and a name with a hyphen is quoted to be a valid key.
-/

namespace JsxCalls

/-- The value of an attribute, by the way it is written. -/
inductive AttributeValue where
  /-- An embedded expression, without its braces. -/
  | expression (code : Text)
  /-- Text between double quotes. -/
  | doubleQuoted (text : Text)
  /-- Text between single quotes. -/
  | singleQuoted (text : Text)
  /-- No value: the name alone switches the property on. -/
  | implicit
deriving DecidableEq, Repr

namespace AttributeValue

/-- An expression with nothing between its braces counts as no value. -/
def ofExpression (code : Text) : AttributeValue :=
  if code = [] then .implicit else .expression code

/-- The value as it is written in the props object. -/
def render : AttributeValue → Text
  | .expression code => code
  | .doubleQuoted text => Text.singleQuoted text
  | .singleQuoted text => Text.singleQuoted text
  | .implicit => "true".toList

end AttributeValue

/-- One attribute of an element. -/
structure Attribute where
  /-- The name as written in the markup. -/
  name : Text
  /-- The value, and how it was written. -/
  value : AttributeValue
deriving DecidableEq, Repr

namespace Attribute

/-- The key of the attribute in the props object. -/
def key (attr : Attribute) : Text :=
  if attr.name = "class".toList then "className".toList
  else if attr.name = "for".toList then "htmlFor".toList
  else if '-' ∈ attr.name then '\'' :: attr.name ++ ['\'']
  else attr.name

/-- The entry of the attribute in the props object. -/
def entry (attr : Attribute) : Text :=
  attr.key ++ ": ".toList ++ attr.value.render

end Attribute

/-- The props argument: an object with one entry per attribute, or `null` if there is none. -/
def renderProps : List Attribute → Text
  | [] => "null".toList
  | attributes =>
    "\x7b ".toList ++ List.intercalate ", ".toList (attributes.map Attribute.entry) ++
      " \x7d".toList

end JsxCalls
