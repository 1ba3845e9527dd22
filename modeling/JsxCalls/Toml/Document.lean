import JsxCalls.Toml.Lexical

/-!
# TOML documents

A document consists of key-value lines, headers, comments and empty lines. The entries of its lines
go into the table whose header was read last, or into the document itself before the first header.
-/

namespace JsxCalls.Toml

/-! ## Values -/

/-- The values of an array up to its closing bracket, of which there are at most as many as the
number says. A comma may stand behind the last value. -/
def arrayItems? (value : Reader Value) : Nat → Reader (List Value)
  | 0, _ => none
  | items + 1, text => do
    match ← skipSpace? text with
    | ']' :: rest => some ([], rest)
    | text =>
      let (first, rest) ← value text
      match ← skipSpace? rest with
      | ']' :: rest => some ([first], rest)
      | ',' :: rest => do
        let (others, rest) ← arrayItems? value items rest
        some (first :: others, rest)
      | _ => none

/-- The entries of an inline table up to its closing brace. There is no line break between them, and
no comma behind the last one. -/
def inlineEntries? (value : Reader Value) : Nat → Entries → Reader Entries
  | 0, _, _ => none
  | items + 1, entries, text => do
    let ((path, key), rest) ← key? text
    let rest ← Text.after? ['='] rest
    let (found, rest) ← value (skipBlanks rest)
    let entries ← entries.insertDotted? path key found
    match skipBlanks rest with
    | '}' :: rest => some (entries, rest)
    | ',' :: rest => inlineEntries? value items entries rest
    | _ => none

/-- A value, in which arrays and inline tables nest at most as deeply as the number says. -/
def value? : Nat → Reader Value
  | _, [] => none
  | depth, c :: text =>
    if c = '"' ∨ c = '\'' then
      (string? (c :: text)).map fun (found, rest) => (.string found, rest)
    else if c = '[' then
      match depth with
      | 0 => none
      | depth + 1 =>
        (arrayItems? (value? depth) (text.length + 1) text).map fun (found, rest) =>
          (.array found, rest)
    else if c = '{' then
      match depth with
      | 0 => none
      | depth + 1 =>
        match skipBlanks text with
        | '}' :: rest => some (.table .inline [], rest)
        | _ =>
          (inlineEntries? (value? depth) (text.length + 1) [] text).map fun (found, rest) =>
            (.table .inline found, rest)
    else if c = 't' then
      (Text.after? "true".toList (c :: text)).map fun rest => (.boolean true, rest)
    else if c = 'f' then
      (Text.after? "false".toList (c :: text)).map fun rest => (.boolean false, rest)
    else if c = '.' ∨ c = '_' then none
    else
      (dateTime? (c :: text)).or ((float? (c :: text)).or (integer? (c :: text)))

/-! ## Lines -/

/-- A document that is read up to some line. -/
structure Partial where
  /-- The entries so far. -/
  entries : Entries := []
  /-- The path of the table that was opened last. -/
  table : List Text := []

/-- Reads a header, from behind its first bracket. -/
def header? (document : Partial) (text : Text) : Option (Partial × Text) :=
  match text with
  | '[' :: text => do
    let ((path, key), rest) ← key? text
    let rest ← Text.after? [']', ']'] rest
    let rest ← afterLineEnd? rest
    let entries ← document.entries.openArrayTable? path key
    some (⟨entries, path ++ [key]⟩, rest)
  | _ => do
    let ((path, key), rest) ← key? text
    let rest ← Text.after? [']'] rest
    let rest ← afterLineEnd? rest
    let entries ← document.entries.openTable? path key
    some (⟨entries, path ++ [key]⟩, rest)

/-- Reads a key and its value. -/
def keyValue? (document : Partial) (text : Text) : Option (Partial × Text) := do
  let ((path, key), rest) ← key? text
  let rest ← Text.after? ['='] rest
  let (value, rest) ← value? (nestingLimit - 1) (skipBlanks rest)
  let rest ← afterLineEnd? rest
  let entries ← document.entries.insertIn? document.table path key value
  some (⟨entries, document.table⟩, rest)

/-- Reads the lines of a document, of which there are at most as many as the number says. -/
def lines? : Nat → Partial → Text → Option Entries
  | 0, _, _ => none
  | lines + 1, document, text =>
    match skipBlanks text with
    | [] => some document.entries
    | '#' :: rest => (afterLineEnd? ('#' :: rest)).bind (lines? lines document)
    | '[' :: rest => (header? document rest).bind fun (document, rest) => lines? lines document rest
    | '\n' :: rest => lines? lines document rest
    | '\r' :: rest => (afterNewline? ('\r' :: rest)).bind (lines? lines document)
    | text => (keyValue? document text).bind fun (document, rest) => lines? lines document rest

/-- Reads a document, before which a byte order mark may stand. -/
def parse? (text : Text) : Option Entries :=
  let text := match text with
    | '\uFEFF' :: rest => rest
    | text => text
  lines? (text.length + 1) {} text

end JsxCalls.Toml
