import JsxCalls.Batch.Basic

/-!
# Reports as JSON

A list of reports is written as an array of objects, with one member per line and two spaces for
each level of indentation. An empty list is written without a line break. A path that is no text
cannot be written.
-/

namespace JsxCalls

/-- Characters of a JSON string: quotes, backslashes and control characters are escaped. -/
def jsonChar (c : Char) : Text :=
  if c = '"' then ['\\', '"']
  else if c = '\\' then ['\\', '\\']
  else if c = '\x08' then ['\\', 'b']
  else if c = '\t' then ['\\', 't']
  else if c = '\n' then ['\\', 'n']
  else if c = '\x0c' then ['\\', 'f']
  else if c = '\r' then ['\\', 'r']
  else if c.toNat < 0x20 then
    "\\u00".toList ++ [Nat.digitChar (c.toNat / 16), Nat.digitChar (c.toNat % 16)]
  else [c]

/-- A JSON string. -/
def jsonString (text : Text) : Text :=
  '"' :: text.flatMap jsonChar ++ ['"']

/-- A JSON truth value. -/
def jsonBool (value : Bool) : Text :=
  if value then "true".toList else "false".toList

/-- The members of a report, unless its path is no text. -/
def Report.members? (report : Report) : Option (List (Text × Text)) :=
  report.path.text?.map fun path => [
    ("path".toList, jsonString path),
    ("statements".toList, Text.ofNat report.statements),
    ("changed".toList, jsonBool report.changed),
    ("written".toList, jsonBool report.written)]

/-- A member of a report. -/
def jsonMember (name value : Text) : Text :=
  "    ".toList ++ jsonString name ++ ": ".toList ++ value

/-- A report as an element of an array. -/
def Report.json? (report : Report) : Option Text :=
  report.members?.map fun members =>
    "  \x7b\n".toList ++
      List.intercalate ",\n".toList (members.map fun (name, value) => jsonMember name value) ++
      "\n  \x7d".toList

/-- A list of reports. -/
def jsonReports? : List Report → Option Text
  | [] => some "[]".toList
  | reports =>
    (reports.mapM Report.json?).map fun elements =>
      "[\n".toList ++ List.intercalate ",\n".toList elements ++ "\n]".toList

end JsxCalls
