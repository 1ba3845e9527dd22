import JsxCalls.Text.Basic

/-!
# Element calls

A call that creates an element has the tag, the props and possibly the children as its arguments. It
is written on one line without children, and with one argument per line with children.
-/

namespace JsxCalls

/-- A call that creates an element. -/
structure ElementCall where
  /-- The object whose function is called. -/
  receiver : Text
  /-- The name of the element. -/
  tag : Text
  /-- The props argument. -/
  props : Text
  /-- The children argument. -/
  children : Option Text := none
deriving DecidableEq, Repr

/-- The call as it is written. The closing parenthesis of a call with children stands behind
`indent`, and its arguments one `unit` deeper. -/
def ElementCall.render (call : ElementCall) (indent unit : Text) : Text :=
  let function := call.receiver ++ ".createElement(".toList
  let tag := '\'' :: call.tag ++ ['\'']
  match call.children with
  | none => function ++ tag ++ ", ".toList ++ call.props ++ ")".toList
  | some children =>
    let line := indent ++ unit
    function ++ "\n".toList ++ line ++ tag ++ ",\n".toList ++ line ++ call.props ++
      ",\n".toList ++ line ++ children ++ "\n".toList ++ indent ++ ")".toList

end JsxCalls
