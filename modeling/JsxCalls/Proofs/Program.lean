import JsxCalls.Proofs.AttributeMasking
import JsxCalls.Proofs.CallWords
import JsxCalls.Proofs.Pass
import JsxCalls.Proofs.Span

/-!
# Programs with returned markup

A program is a sequence of items, each of which ends its line: text without the keyword, and return
statements of either form whose markup is one element without nested elements. Its pieces are the
characters and expressions that it is written with, so masking a program masks each attribute list
on its own and leaves everything else as it is.
-/

namespace JsxCalls

open Placeholder

/-! ## Attributes -/

/-- A sign that has a meaning in markup or ends a statement. -/
def isSign (c : Char) : Bool :=
  c = '{' || c = '}' || c = '<' || c = '>' || c = ';'

theorem isSign_eq_false_of_isWord {c : Char} (wordly : isWord c = true) : isSign c = false := by
  cases sign : isSign c with
  | false => rfl
  | true =>
    have cases : (((c = '{' ∨ c = '}') ∨ c = '<') ∨ c = '>') ∨ c = ';' := by
      simpa [isSign] using sign
    rcases cases with (((rfl | rfl) | rfl) | rfl) | rfl <;> exact absurd wordly (by decide)

theorem isSign_eq_false_of_isSpace {c : Char} (space : isSpace c = true) : isSign c = false := by
  have outside := of_isSpace (fun c => !isSign c) space (by decide +kernel)
  simpa using outside

theorem IsName.isSign_eq_false {name : Text} (named : IsName name) :
    ∀ c ∈ name, isSign c = false := by
  intro c member
  rcases named.isWord_or_eq member with wordly | rfl
  · exact isSign_eq_false_of_isWord wordly
  · decide

namespace WrittenValue

/-- The value can be written in a program: an expression without braces, or a quoted text without
signs. -/
def Plain : WrittenValue → Prop
  | .braced body => ∀ c ∈ body, isBrace c = false
  | .doubleQuoted text => '"' ∉ text ∧ ∀ c ∈ text, isSign c = false
  | .singleQuoted text => '\'' ∉ text ∧ ∀ c ∈ text, isSign c = false
  | .masked _ => False
  | .absent => True

instance (value : WrittenValue) : Decidable value.Plain :=
  match value with
  | .braced body => List.decidableBAll (fun c => isBrace c = false) body
  | .doubleQuoted text =>
    have := List.decidableBAll (fun c => isSign c = false) text
    inferInstanceAs (Decidable ('"' ∉ text ∧ ∀ c ∈ text, isSign c = false))
  | .singleQuoted text =>
    have := List.decidableBAll (fun c => isSign c = false) text
    inferInstanceAs (Decidable ('\'' ∉ text ∧ ∀ c ∈ text, isSign c = false))
  | .masked _ => inferInstanceAs (Decidable False)
  | .absent => inferInstanceAs (Decidable True)

variable {value : WrittenValue} (plain : value.Plain)
include plain

theorem Plain.readable : value.Readable := by
  cases value with
  | braced body => exact fun member => absurd (plain _ member) (by decide)
  | doubleQuoted text => exact plain.1
  | singleQuoted text => exact plain.1
  | masked token => exact plain.elim
  | absent => trivial

theorem Plain.ne_masked (token : Text) : value ≠ .masked token := by
  rintro rfl
  exact plain

theorem isSign_eq_false_of_mem_mask {index : Nat} {c : Char}
    (member : c ∈ (value.mask index).source) :
    isSign c = false := by
  have quoted : ∀ (quote : Char) (text : Text), isSign quote = false →
      (∀ c ∈ text, isSign c = false) → c ∈ '=' :: quote :: text ++ [quote] → isSign c = false := by
    intro quote text sign inside member
    have cases : c = '=' ∨ c = quote ∨ c ∈ text := by simp at member; grind
    rcases cases with rfl | rfl | within
    · decide
    · exact sign
    · exact inside c within
  cases value with
  | braced body =>
    rcases List.mem_cons.mp member with rfl | inToken
    · decide
    · exact isSign_eq_false_of_isWord (isWord_of_mem_token inToken)
  | doubleQuoted text => exact quoted '"' text (by decide) plain.2 member
  | singleQuoted text => exact quoted '\'' text (by decide) plain.2 member
  | masked token => exact plain.elim
  | absent => simp [mask, source] at member

end WrittenValue

/-- An attribute with the white space before it. -/
structure SpacedAttribute where
  gap : Text
  written : WrittenAttribute
  filled : gap ≠ []
  spaces : ∀ c ∈ gap, isSpace c = true
  named : IsName written.name
  plain : written.value.Plain

namespace SpacedAttribute

def pieces (entry : SpacedAttribute) : List (Piece Expression) :=
  (entry.gap ++ entry.written.name).map .char ++ entry.written.value.pieces

def source (entry : SpacedAttribute) : Text :=
  entry.gap ++ entry.written.source

/-- The attribute in a list of masked attributes. -/
def mask (index : Nat) (entry : SpacedAttribute) : Text × WrittenAttribute :=
  (entry.gap, ⟨entry.written.name, entry.written.value.mask index⟩)

/-- The attributes of a list, when the next expression has the given number. -/
def maskList (index : Nat) : List SpacedAttribute → List (Text × WrittenAttribute)
  | [] => []
  | entry :: entries =>
    entry.mask index :: maskList (index + entry.written.value.embedded.length) entries

def embeddedIn (entries : List SpacedAttribute) : List Expression :=
  entries.flatMap fun entry => entry.written.value.embedded

/-- The attribute as an entry of a written list. -/
def listed (entry : SpacedAttribute) : Text × WrittenAttribute :=
  (entry.gap, entry.written)

theorem flatMap_pieces (entries : List SpacedAttribute) :
    entries.flatMap pieces = WrittenAttribute.listPieces (entries.map listed) := by
  rw [WrittenAttribute.listPieces, List.flatMap_map]
  rfl

theorem embeddedIn_eq (entries : List SpacedAttribute) :
    embeddedIn entries = WrittenAttribute.embeddedIn (entries.map listed) := by
  rw [WrittenAttribute.embeddedIn, List.flatMap_map]
  rfl

theorem maskList_eq (index : Nat) (entries : List SpacedAttribute) :
    maskList index entries = WrittenAttribute.maskList index (entries.map listed) := by
  induction entries generalizing index with
  | nil => rfl
  | cons entry entries induction => exact congrArg _ (induction _)

theorem written_flatMap_pieces (entries : List SpacedAttribute) :
    JsxCalls.written (entries.flatMap pieces) = entries.flatMap source := by
  rw [flatMap_pieces, WrittenAttribute.written_listPieces, WrittenAttribute.listText,
    List.flatMap_map]
  rfl

theorem expressions_flatMap_pieces (entries : List SpacedAttribute) :
    expressions (entries.flatMap pieces) = embeddedIn entries := by
  rw [flatMap_pieces, WrittenAttribute.expressions_listPieces, embeddedIn_eq]

theorem maskFrom_flatMap_pieces (index : Nat) (entries : List SpacedAttribute) :
    maskFrom index (entries.flatMap pieces) =
      WrittenAttribute.listText (maskList index entries) := by
  rw [flatMap_pieces, WrittenAttribute.maskFrom_listPieces, maskList_eq]

theorem spaced_of_mem_maskList {index : Nat} {entries : List SpacedAttribute}
    {masked : Text × WrittenAttribute} (member : masked ∈ maskList index entries) :
    ∃ number, ∃ entry ∈ entries, masked = entry.mask number := by
  induction entries generalizing index with
  | nil => simp [maskList] at member
  | cons entry entries induction =>
    rcases List.mem_cons.mp member with here | later
    · exact ⟨index, entry, List.mem_cons_self, here⟩
    · obtain ⟨number, other, inside, equal⟩ := induction later
      exact ⟨number, other, List.mem_cons_of_mem _ inside, equal⟩

/-- A masked list is read as its attributes, with their expressions from the table. -/
theorem parseAttributes_maskList {table : ExpressionTable} {prior later : List Expression}
    {entries : List SpacedAttribute} {last : Text} (spaces : ∀ c ∈ last, isSpace c = true)
    (known : table.entries = prior ++ (embeddedIn entries ++ later)) :
    parseAttributes (some table)
        (WrittenAttribute.listText (maskList prior.length entries) ++ last) =
      entries.map fun entry => entry.written.resolve none := by
  rw [embeddedIn_eq] at known
  rw [maskList_eq, WrittenAttribute.parseAttributes_maskList
    (List.forall_mem_map.mpr fun entry _ => ⟨entry.filled, entry.spaces⟩)
    (List.forall_mem_map.mpr fun entry _ => ⟨entry.named, entry.plain.readable⟩)
    (List.forall_mem_map.mpr fun entry _ => entry.plain.ne_masked) spaces known, List.map_map]
  rfl

theorem isSign_eq_false_of_mem_listText {index : Nat} {entries : List SpacedAttribute} {c : Char}
    (member : c ∈ WrittenAttribute.listText (maskList index entries)) : isSign c = false := by
  obtain ⟨masked, inside, member⟩ := List.mem_flatMap.mp member
  obtain ⟨number, entry, -, rfl⟩ := spaced_of_mem_maskList inside
  rcases List.mem_append.mp member with inGap | inSource
  · exact isSign_eq_false_of_isSpace (entry.spaces c inGap)
  · rcases List.mem_append.mp inSource with inName | inValue
    · exact entry.named.isSign_eq_false c inName
    · exact WrittenValue.isSign_eq_false_of_mem_mask entry.plain inValue

end SpacedAttribute

/-! ## Statements -/

/-- How the element of a statement is written: closing itself, with a text on the line of the
keyword, or with a text in parentheses and white space around it. -/
inductive Layout where
  | selfClosing
  | inline (content : Text)
  | parenthesized (before content after : Text)

namespace Layout

def content : Layout → Option Text
  | selfClosing => none
  | inline content => some content
  | parenthesized _ content _ => some content

/-- What stands between the keyword with its space and the element. -/
def opening : Layout → Text
  | parenthesized before _ _ => '(' :: before
  | _ => []

/-- What stands behind the element. -/
def closing : Layout → Text
  | parenthesized _ _ after => after ++ [')', ';']
  | _ => [';']

def isParenthesized : Layout → Bool
  | parenthesized .. => true
  | _ => false

def Plain : Layout → Prop
  | selfClosing => True
  | inline content => ∀ c ∈ content, isSign c = false
  | parenthesized before content after => (∀ c ∈ before, isSpace c = true) ∧
      (∀ c ∈ content, isSign c = false) ∧ ∀ c ∈ after, isSpace c = true

instance (layout : Layout) : Decidable layout.Plain :=
  match layout with
  | selfClosing => inferInstanceAs (Decidable True)
  | inline content => List.decidableBAll (fun c => isSign c = false) content
  | parenthesized before content after =>
    have := List.decidableBAll (fun c => isSpace c = true) before
    have := List.decidableBAll (fun c => isSign c = false) content
    have := List.decidableBAll (fun c => isSpace c = true) after
    inferInstanceAs (Decidable ((∀ c ∈ before, isSpace c = true) ∧
      (∀ c ∈ content, isSign c = false) ∧ ∀ c ∈ after, isSpace c = true))

theorem exists_of_isParenthesized {layout : Layout} (closed : layout.isParenthesized = true) :
    ∃ before content after, layout = parenthesized before content after := by
  cases layout with
  | selfClosing => simp [isParenthesized] at closed
  | inline content => simp [isParenthesized] at closed
  | parenthesized before content after => exact ⟨before, content, after, rfl⟩

theorem opening_eq_nil {layout : Layout} (unclosed : layout.isParenthesized = false) :
    layout.opening = [] ∧ layout.closing = [';'] := by
  cases layout with
  | selfClosing => exact ⟨rfl, rfl⟩
  | inline content => exact ⟨rfl, rfl⟩
  | parenthesized before content after => simp [isParenthesized] at unclosed

theorem Plain.content {layout : Layout} (plain : layout.Plain) {content : Text}
    (some : layout.content = some content) : ∀ c ∈ content, isSign c = false := by
  cases layout with
  | selfClosing => simp [Layout.content] at some
  | inline other => exact Option.some.inj some ▸ plain
  | parenthesized before other after => exact Option.some.inj some ▸ plain.2.1

end Layout

/-- A return statement of one element, as far as its text behind the keyword goes. -/
structure Returned where
  tag : Text
  attributes : List SpacedAttribute
  /-- White space behind the last attribute. -/
  gap : Text
  layout : Layout

namespace Returned

/-- The element, with an attribute list that is written in some way. -/
def element (returned : Returned) (list : Text) : Element :=
  ⟨returned.tag, list, returned.layout.content⟩

def text (returned : Returned) (list : Text) : Text :=
  returned.layout.opening ++ ((returned.element list).source ++ returned.layout.closing)

def list (returned : Returned) : Text :=
  returned.attributes.flatMap SpacedAttribute.source ++ returned.gap

def maskedList (index : Nat) (returned : Returned) : Text :=
  WrittenAttribute.listText (SpacedAttribute.maskList index returned.attributes) ++ returned.gap

def pieces (returned : Returned) : List (Piece Expression) :=
  (returned.layout.opening ++ '<' :: returned.tag).map .char ++
    (returned.attributes.flatMap SpacedAttribute.pieces ++
      (returned.gap ++ (Element.ending returned.tag returned.layout.content ++
        returned.layout.closing)).map .char)

variable (returned : Returned)

theorem written_pieces : written returned.pieces = returned.text returned.list := by
  rw [pieces, written_append, written_append, written_map_char, written_map_char,
    SpacedAttribute.written_flatMap_pieces]
  simp [text, list, element, Element.source]

theorem expressions_pieces :
    expressions returned.pieces = SpacedAttribute.embeddedIn returned.attributes := by
  simp [pieces, -List.map_append, SpacedAttribute.expressions_flatMap_pieces]

theorem maskFrom_pieces (index : Nat) :
    maskFrom index returned.pieces = returned.text (returned.maskedList index) := by
  rw [pieces, maskFrom_append, maskFrom_append, maskFrom_map_char, maskFrom_map_char,
    expressions_map_char, List.length_nil, Nat.add_zero, SpacedAttribute.maskFrom_flatMap_pieces]
  simp [text, maskedList, element, Element.source]

end Returned

/-- A return statement of a program. -/
structure Statement extends Returned where
  indent : Text
  indented : ∀ c ∈ indent, isIndent c = true
  filled : tag ≠ []
  wordly : ∀ c ∈ tag, isWord c = true
  spaces : ∀ c ∈ gap, isSpace c = true
  plain : layout.Plain
  /-- The keyword stands only once in the statement. -/
  single : ¬ ReturnStatement.keyword <:+: toReturned.text toReturned.list

/-- One item of a program. -/
inductive Item where
  /-- A text without the keyword, followed by a line break. -/
  | inert (text : Text) (absent : ¬ ReturnStatement.keyword <:+: text)
  /-- A return statement, followed by a line break. -/
  | statement (statement : Statement)

namespace Item

def isStatement : Item → Bool
  | inert .. => false
  | statement _ => true

def pieces : Item → List (Piece Expression)
  | inert text _ => (text ++ ['\n']).map .char
  | statement found => (found.indent ++ (ReturnStatement.keyword ++ [' '])).map .char ++
      (found.pieces ++ [.char '\n'])

/-- The expressions of the item, in the order of its attributes. -/
def embedded : Item → List Expression
  | inert .. => []
  | statement found => SpacedAttribute.embeddedIn found.attributes

theorem expressions_pieces (item : Item) : expressions item.pieces = item.embedded := by
  cases item with
  | inert text absent => exact expressions_map_char _
  | statement found =>
    rw [pieces, expressions_append, expressions_map_char, expressions_append,
      Returned.expressions_pieces]
    exact List.append_nil _

end Item

/-- The source of a program. -/
def programSource (program : List Item) : Text :=
  written (program.flatMap Item.pieces)

/-! ## Lowered programs -/

/-- The call that a statement returns. -/
def Statement.call (style : CallStyle) (statement : Statement) : ElementCall where
  receiver := style.receiver
  tag := statement.tag
  props := renderProps (statement.attributes.map fun entry => entry.written.resolve none)
  children := statement.layout.content.bind childrenArgument

/-- The item with a call in place of its markup. -/
def Item.lowered (style : CallStyle) : Item → Text
  | inert text _ => text ++ ['\n']
  | statement found => found.indent ++ (ReturnStatement.keyword ++ ' ' ::
      ((found.call style).render (found.indent ++ style.indentUnit) style.indentUnit ++
        [';', '\n']))

end JsxCalls
