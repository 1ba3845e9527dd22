import JsxCalls.Lowering
import JsxCalls.Toml.Document

/-!
# Settings

The settings of a project are the entries of the table `convert` in its configuration. Entries with
other names are passed over, and an entry of the wrong type makes the whole configuration
unreadable.
-/

namespace JsxCalls

/-- The settings of a project. -/
structure Settings where
  /-- The object whose function creates elements. -/
  receiver : Text := "React".toList
  /-- One level of indentation. -/
  indent : Text := "  ".toList
  /-- The extensions of the files that are looked for in directories. -/
  extensions : List Text := markupExtensions
deriving DecidableEq, Repr

namespace Settings

/-- How calls are written, when the receiver may be given on the command line. -/
def style (settings : Settings) (receiver : Option Text) : CallStyle where
  receiver := receiver.getD settings.receiver
  indentUnit := settings.indent

/-! ## Reading a configuration -/

/-- A string. -/
def text? : Toml.Value → Option Text
  | .string text => some text
  | _ => none

/-- An array of strings. -/
def texts? : Toml.Value → Option (List Text)
  | .array values => values.mapM text?
  | _ => none

/-- The value of a setting, which may be absent. -/
def orDefault {α : Type} (read : Toml.Value → Option α) (default : α) :
    Option Toml.Value → Option α
  | none => some default
  | some value => read value

/-- The settings from the values of the receiver, the indentation and the extensions. -/
def ofValues? (receiver indent extensions : Option Toml.Value) : Option Settings := do
  let defaults : Settings := {}
  let receiver ← orDefault text? defaults.receiver receiver
  let indent ← orDefault text? defaults.indent indent
  let extensions ← orDefault texts? defaults.extensions extensions
  some { receiver, indent, extensions }

/-- The settings in the value of `convert`. Apart from a table this may be an array, with the values
in the order of the settings; the last ones may be missing, and further ones are passed over. A date
counts as a table without settings. -/
def ofValue? : Toml.Value → Option Settings
  | .table _ entries =>
    ofValues? (entries.lookup "namespace".toList) (entries.lookup "indent".toList)
      (entries.lookup "extensions".toList)
  | .array values => ofValues? values[0]? values[1]? values[2]?
  | .dateTime _ => some {}
  | _ => none

/-- The settings in a configuration, or nothing if it cannot be read. -/
def parse? (configuration : Text) : Option Settings := do
  let entries ← Toml.parse? configuration
  orDefault ofValue? {} (entries.lookup "convert".toList)

/-- The configuration that a project starts with. -/
def template : Text :=
  "# unjsx configuration

[convert]
# Object whose createElement is called
namespace = \"React\"

# One indentation level in generated calls
indent = \"  \"

# Extensions picked up when walking directories
extensions = [\"tsx\", \"jsx\"]
".toList

end Settings

end JsxCalls
