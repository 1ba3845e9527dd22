import JsxCalls.Attribute.Basic
import JsxCalls.Mask
import JsxCalls.Text.Digit
import JsxCalls.Text.Space
import JsxCalls.Text.Word

/-!
# Reading attribute lists

An attribute list is searched for names. A name is a run of word characters, in which single hyphens
may stand between word characters. If a value in one of the known forms follows the name, it belongs
to the attribute; otherwise the name stands alone and the search goes on right behind it, so that
no word of a malformed list is lost.
-/

namespace JsxCalls

/-- A value as it stands in an attribute list. -/
inductive WrittenValue where
  /-- Text between braces. -/
  | braced (body : Text)
  /-- Text between double quotes. -/
  | doubleQuoted (text : Text)
  /-- Text between single quotes. -/
  | singleQuoted (text : Text)
  /-- The placeholder of a masked expression. -/
  | masked (token : Text)
  /-- No value behind the name. -/
  | absent
deriving DecidableEq, Repr

/-- A placeholder at the start of a text. Its number may be written in the digits of any script. -/
def Placeholder.start? (text : Text) : Option (Text × Text) :=
  match Text.after? Placeholder.opening text with
  | none => none
  | some behind =>
    let digits := behind.takeWhile isDecimal
    if digits = [] then none
    else
      match Text.after? Placeholder.closing (behind.dropWhile isDecimal) with
      | none => none
      | some rest => some (Placeholder.opening ++ digits ++ Placeholder.closing, rest)

theorem Placeholder.append_of_start? {text token rest : Text}
    (found : Placeholder.start? text = some (token, rest)) : text = token ++ rest := by
  unfold Placeholder.start? at found
  split at found
  · simp at found
  · rename_i behind opened
    dsimp only at found
    split at found
    · simp at found
    · split at found
      · simp at found
      · rename_i closed
        simp only [Option.some.injEq, Prod.mk.injEq] at found
        obtain ⟨rfl, rfl⟩ := found
        rw [Text.after?_eq_some_iff.mp opened, List.append_assoc, List.append_assoc,
          ← Text.after?_eq_some_iff.mp closed, List.takeWhile_append_dropWhile]

namespace WrittenValue

/-- The value as it stands behind its name. -/
def source : WrittenValue → Text
  | .braced body => '=' :: '{' :: body ++ ['}']
  | .doubleQuoted text => '=' :: '"' :: text ++ ['"']
  | .singleQuoted text => '=' :: '\'' :: text ++ ['\'']
  | .masked token => '=' :: token
  | .absent => []

/-- The value written at the start of a text, from the equals sign on. -/
def start? : Text → Option (WrittenValue × Text)
  | '=' :: '{' :: text => (Text.until? '}' text).map fun (body, rest) => (.braced body, rest)
  | '=' :: '"' :: text => (Text.until? '"' text).map fun (body, rest) => (.doubleQuoted body, rest)
  | '=' :: '\'' :: text =>
    (Text.until? '\'' text).map fun (body, rest) => (.singleQuoted body, rest)
  | '=' :: text => (Placeholder.start? text).map fun (token, rest) => (.masked token, rest)
  | _ => none

theorem append_of_start? {text rest : Text} {value : WrittenValue}
    (found : start? text = some (value, rest)) : text = value.source ++ rest := by
  unfold start? at found
  split at found
  · obtain ⟨⟨body, behind⟩, cut, equal⟩ := Option.map_eq_some_iff.mp found
    cases equal
    simp [source, (Text.until?_eq_some_iff.mp cut).1]
  · obtain ⟨⟨body, behind⟩, cut, equal⟩ := Option.map_eq_some_iff.mp found
    cases equal
    simp [source, (Text.until?_eq_some_iff.mp cut).1]
  · obtain ⟨⟨body, behind⟩, cut, equal⟩ := Option.map_eq_some_iff.mp found
    cases equal
    simp [source, (Text.until?_eq_some_iff.mp cut).1]
  · obtain ⟨⟨token, behind⟩, cut, equal⟩ := Option.map_eq_some_iff.mp found
    cases equal
    simp [source, Placeholder.append_of_start? cut]
  · simp at found

/-- The value of the attribute. A placeholder stands for the expression it has in the table; one
that the table does not know is taken as an expression itself. -/
def value (table : Option ExpressionTable) : WrittenValue → AttributeValue
  | .braced body => .ofExpression body
  | .doubleQuoted text => .doubleQuoted text
  | .singleQuoted text => .singleQuoted text
  | .masked token =>
    match table.bind (·.resolve? token) with
    | some expression => .ofExpression expression.body
    | none => .expression token
  | .absent => .implicit

end WrittenValue

/-- An attribute as it stands in an attribute list. -/
structure WrittenAttribute where
  /-- The name. -/
  name : Text
  /-- What follows the name. -/
  value : WrittenValue
deriving DecidableEq, Repr

namespace WrittenAttribute

/-- The part of a name at the start of a text: word characters, and hyphens that have a word
character behind them. -/
def takeName : Text → Text
  | [] => []
  | c :: text =>
    if isWord c || (c = '-' && text.head?.any isWord) then c :: takeName text else []

/-- The text behind the part of a name at its start. -/
def dropName : Text → Text
  | [] => []
  | c :: text =>
    if isWord c || (c = '-' && text.head?.any isWord) then dropName text else c :: text

theorem takeName_append_dropName (text : Text) : takeName text ++ dropName text = text := by
  induction text with
  | nil => rfl
  | cons c text induction =>
    simp only [takeName, dropName]
    split <;> simp [induction]

/-- An attribute starts at a word character. -/
def start? : Text → Option (WrittenAttribute × Text)
  | [] => none
  | c :: text =>
    if isWord c then
      match WrittenValue.start? (dropName text) with
      | some (value, rest) => some (⟨c :: takeName text, value⟩, rest)
      | none => some (⟨c :: takeName text, .absent⟩, dropName text)
    else none

/-- The attribute as it stands in the list. -/
def source (written : WrittenAttribute) : Text :=
  written.name ++ written.value.source

theorem append_of_start? {text rest : Text} {written : WrittenAttribute}
    (found : start? text = some (written, rest)) :
    text = written.source ++ rest ∧ written.name ≠ [] := by
  match text with
  | [] => simp [start?] at found
  | c :: text =>
    simp only [start?] at found
    split at found
    · split at found
      · rename_i value behind valued
        simp only [Option.some.injEq, Prod.mk.injEq] at found
        obtain ⟨rfl, rfl⟩ := found
        simp [source, ← WrittenValue.append_of_start? valued, takeName_append_dropName]
      · simp only [Option.some.injEq, Prod.mk.injEq] at found
        obtain ⟨rfl, rfl⟩ := found
        simp [source, WrittenValue.source, takeName_append_dropName]
    · simp at found

/-- Attributes as they occur in an attribute list. -/
def pattern : Pattern WrittenAttribute where
  start? := start?
  shorter := by
    intro text item rest found
    obtain ⟨rfl, named⟩ := append_of_start? found
    have := List.length_pos_iff.mpr named
    simp [source]
    omega

/-- The attribute that is meant, with masked values looked up in the table. -/
def resolve (table : Option ExpressionTable) (written : WrittenAttribute) : Attribute where
  name := written.name
  value := written.value.value table

end WrittenAttribute

/-- The attributes of an attribute list, in the order of the list. Repeated names are kept. -/
def parseAttributes (table : Option ExpressionTable) (list : Text) : List Attribute :=
  (WrittenAttribute.pattern.items list).map (WrittenAttribute.resolve table)

/-- The props argument for an attribute list. -/
def propsOfList (table : Option ExpressionTable) (list : Text) : Text :=
  if Text.trim list = [] then "null".toList else renderProps (parseAttributes table list)

end JsxCalls
