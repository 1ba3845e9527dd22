import JsxCalls.Text.Basic

/-!
# TOML values and tables

A document is a table. How a table came about decides what may still be added to it: a table that a
header names is complete except for its subtables, a table that only follows from the header of a
subtable can still get a header of its own, and an inline table is complete when it is closed.
-/

namespace JsxCalls.Toml

/-- How a table came about. -/
inductive Origin where
  /-- Written between braces. -/
  | inline
  /-- Named by a header of its own. -/
  | header
  /-- Named only as part of the header of another table. -/
  | implied
  /-- Named by a dotted key. -/
  | dotted
deriving DecidableEq, Repr

/-- A value of a document. -/
inductive Value where
  /-- A string in any of the four notations. -/
  | string (text : Text)
  /-- An integer. -/
  | integer (value : Int)
  /-- A floating-point number, as written. -/
  | float (literal : Text)
  /-- A truth value. -/
  | boolean (value : Bool)
  /-- A date, a time, or both, as written. -/
  | dateTime (literal : Text)
  /-- An array between brackets. -/
  | array (values : List Value)
  /-- An array of tables, each of which has a header of its own. -/
  | tables (tables : List (List (Text × Value)))
  /-- A table. -/
  | table (origin : Origin) (entries : List (Text × Value))
deriving Repr

/-- The entries of a table, in the order in which they were made. -/
abbrev Entries := List (Text × Value)

namespace Entries

/-- The value of a key. -/
def get? (entries : Entries) (key : Text) : Option Value :=
  entries.lookup key

/-- Replaces the value of a key, which is new if `change` is applied to nothing. -/
def alter? (key : Text) (change : Option Value → Option Value) : Entries → Option Entries
  | [] => (change none).map fun value => [(key, value)]
  | (name, value) :: entries =>
    if name = key then
      (change (some value)).map fun value => (name, value) :: entries
    else
      (alter? key change entries).map ((name, value) :: ·)

/-- Adds an entry under a key that has none. -/
def insertNew? (key : Text) (value : Value) (entries : Entries) : Option Entries :=
  entries.alter? key fun
    | none => some value
    | some _ => none

/-- Changes the table at the end of a path. Tables that are missing are made with the origin
`making`; `change` gets the origin of the table it is applied to. In an array of tables the path
goes on in the last one. A dotted key cannot add to a table that has a header of its own. -/
def changeAt? (making : Origin) (change : Origin → Entries → Option Entries) :
    List Text → Origin → Entries → Option Entries
  | [], origin, entries => change origin entries
  | key :: path, _, entries =>
    entries.alter? key fun
      | none => (changeAt? making change path making []).map (.table making)
      | some (.table origin inner) =>
        if origin = .inline ∨ (origin = .header ∧ making = .dotted) then
          none
        else
          (changeAt? making change path origin inner).map (.table origin)
      | some (.tables tables) =>
        match tables.getLast? with
        | none => none
        | some last =>
          (changeAt? making change path .header last).map fun last =>
            .tables (tables.dropLast ++ [last])
      | some _ => none

/-- Adds a value under a dotted key, given by the parts before the last one and the last one. The
table that gets the value must itself belong to dotted keys, unless the key has only one part. -/
def insertDotted? (path : List Text) (key : Text) (value : Value) (entries : Entries) :
    Option Entries :=
  changeAt? .dotted
    (fun origin entries =>
      if path = [] ∨ origin = .dotted then entries.insertNew? key value else none)
    path .header entries

/-- Opens the table that a header names. -/
def openTable? (path : List Text) (key : Text) (entries : Entries) : Option Entries :=
  changeAt? .implied
    (fun _ entries =>
      entries.alter? key fun
        | none => some (.table .header [])
        | some (.table .implied inner) => some (.table .header inner)
        | some _ => none)
    path .header entries

/-- Opens one more table of the array of tables that a header names. -/
def openArrayTable? (path : List Text) (key : Text) (entries : Entries) : Option Entries :=
  changeAt? .implied
    (fun _ entries =>
      entries.alter? key fun
        | none => some (.tables [[]])
        | some (.tables tables) => some (.tables (tables ++ [[]]))
        | some _ => none)
    path .header entries

/-- Adds a value under a dotted key to the table that was opened last. -/
def insertIn? (table : List Text) (path : List Text) (key : Text) (value : Value)
    (entries : Entries) : Option Entries :=
  changeAt? .implied (fun _ entries => entries.insertDotted? path key value) table .header entries

end Entries

end JsxCalls.Toml
