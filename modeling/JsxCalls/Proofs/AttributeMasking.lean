import JsxCalls.Proofs.AttributeList
import JsxCalls.Proofs.Markup
import JsxCalls.Proofs.Span

/-!
# Masked attribute lists

Masking an attribute list puts placeholders in place of the expressions among its values and keeps
everything else. The table gives every masked value its expression back, so a list is read as the
same attributes whether or not it was masked.
-/

namespace JsxCalls

open Placeholder

/-! ## Values -/

namespace WrittenValue

def pieces : WrittenValue → List (Piece Expression)
  | .braced body => [.char '=', .item ⟨body⟩]
  | value => value.source.map .char

/-- The value when the next expression has the given number. -/
def mask (index : Nat) : WrittenValue → WrittenValue
  | .braced _ => .masked (token index)
  | value => value

/-- The expression that is the value, if it is one. -/
def embedded : WrittenValue → List Expression
  | .braced body => [⟨body⟩]
  | _ => []

/-- The value is no placeholder, and a brace stands in it only around an expression. -/
def Braceless : WrittenValue → Prop
  | .braced body => ∀ c ∈ body, isBrace c = false
  | .masked _ => False
  | value => '{' ∉ value.source

variable (value : WrittenValue)

theorem written_pieces : written value.pieces = value.source := by
  cases value <;> simp [pieces, source, Expression.source]

theorem expressions_pieces : expressions value.pieces = value.embedded := by
  cases value <;> simp [pieces, embedded]

theorem maskFrom_pieces (index : Nat) :
    maskFrom index value.pieces = (value.mask index).source := by
  cases value with
  | braced body => simp [pieces, mask, source, maskFrom]
  | doubleQuoted | singleQuoted | masked | absent => exact maskFrom_map_char _ _

variable {value}

theorem Readable.mask (readable : value.Readable) (index : Nat) : (value.mask index).Readable := by
  cases value with
  | braced body => exact ⟨index, rfl⟩
  | doubleQuoted | singleQuoted | masked | absent => exact readable

/-- The table gives a masked value its expression back. -/
theorem value_mask (direct : ∀ token, value ≠ .masked token) {table : ExpressionTable}
    {prior later : List Expression}
    (entries : table.entries = prior ++ (value.embedded ++ later)) :
    (value.mask prior.length).value (some table) = value.value none := by
  cases value with
  | braced body =>
    have found : table.resolve? (token prior.length) = some ⟨body⟩ := by
      simp [ExpressionTable.resolve?, index?_token, ExpressionTable.get?, entries, embedded]
    simp [mask, WrittenValue.value, found]
  | masked token => exact absurd rfl (direct token)
  | doubleQuoted | singleQuoted | absent => rfl

end WrittenValue

/-! ## Lists -/

/-- Text without an opening brace is kept when a source is cut into pieces. -/
theorem Expression.pieces_plain_append {plain : Text} (absent : '{' ∉ plain) (text : Text) :
    pattern.pieces (plain ++ text) = plain.map .char ++ pattern.pieces text := by
  induction plain with
  | nil => rfl
  | cons c plain induction =>
    rw [List.mem_cons, not_or] at absent
    have missed : pattern.start? (c :: (plain ++ text)) = none := by
      change start? (c :: (plain ++ text)) = none
      simp [start?, Ne.symm absent.1]
    rw [List.cons_append, Pattern.pieces_of_none missed, induction absent.2, List.map_cons,
      List.cons_append]

theorem WrittenValue.pieces_source_append {value : WrittenValue} (braceless : value.Braceless)
    (rest : Text) : Expression.pattern.pieces (value.source ++ rest) =
      value.pieces ++ Expression.pattern.pieces rest := by
  cases value with
  | braced body =>
    have text : source (.braced body) ++ rest = ['='] ++ (Expression.source ⟨body⟩ ++ rest) := by
      simp [source, Expression.source]
    have found : Expression.pattern.start? (Expression.source ⟨body⟩ ++ rest) =
      some (⟨body⟩, rest) :=
      Expression.start?_eq_some_iff.mpr ⟨rfl, braceless⟩
    rw [text, Expression.pieces_plain_append (by decide), Pattern.pieces_of_some found]
    rfl
  | masked token => exact braceless.elim
  | doubleQuoted | singleQuoted | absent => exact Expression.pieces_plain_append braceless rest

namespace WrittenAttribute

/-- The pieces of an attribute list, with a gap before each attribute. -/
def listPieces (attributes : List (Text × WrittenAttribute)) : List (Piece Expression) :=
  attributes.flatMap fun entry => (entry.1 ++ entry.2.name).map .char ++ entry.2.value.pieces

/-- The attributes of a list, when the next expression has the given number. -/
def maskList (index : Nat) : List (Text × WrittenAttribute) → List (Text × WrittenAttribute)
  | [] => []
  | entry :: attributes =>
    (entry.1, ⟨entry.2.name, entry.2.value.mask index⟩) ::
      maskList (index + entry.2.value.embedded.length) attributes

/-- The expressions among the values of a list. -/
def embeddedIn (attributes : List (Text × WrittenAttribute)) : List Expression :=
  attributes.flatMap fun entry => entry.2.value.embedded

variable (attributes : List (Text × WrittenAttribute))

theorem written_listPieces : written (listPieces attributes) = listText attributes := by
  induction attributes with
  | nil => rfl
  | cons entry attributes induction =>
    have here : written ((entry.1 ++ entry.2.name).map .char ++ entry.2.value.pieces) =
        entry.1 ++ entry.2.source := by
      rw [written_append, written_map_char, WrittenValue.written_pieces, List.append_assoc, source]
    rw [listPieces, List.flatMap_cons, written_append, here, listText, List.flatMap_cons]
    exact congrArg _ induction

theorem expressions_listPieces : expressions (listPieces attributes) = embeddedIn attributes := by
  induction attributes with
  | nil => rfl
  | cons entry attributes induction =>
    rw [listPieces, List.flatMap_cons, expressions_append, expressions_append, expressions_map_char,
      WrittenValue.expressions_pieces, List.nil_append, embeddedIn, List.flatMap_cons]
    exact congrArg _ induction

theorem maskFrom_listPieces (index : Nat) :
    maskFrom index (listPieces attributes) = listText (maskList index attributes) := by
  induction attributes generalizing index with
  | nil => rfl
  | cons entry attributes induction =>
    have count : expressions ((entry.1 ++ entry.2.name).map .char ++ entry.2.value.pieces) =
        entry.2.value.embedded := by
      rw [expressions_append, expressions_map_char, WrittenValue.expressions_pieces,
        List.nil_append]
    have here : maskFrom index ((entry.1 ++ entry.2.name).map .char ++ entry.2.value.pieces) =
        entry.1 ++ source ⟨entry.2.name, entry.2.value.mask index⟩ := by
      rw [maskFrom_append, maskFrom_map_char, expressions_map_char, WrittenValue.maskFrom_pieces,
        List.append_assoc]
      rfl
    rw [listPieces, List.flatMap_cons, maskFrom_append, here, count]
    exact congrArg _ (induction _)

variable {attributes}

/-- A list in which braces stand only around expressions is cut into its pieces. -/
theorem pieces_listText
    (outside : ∀ entry ∈ attributes, '{' ∉ entry.1 ++ entry.2.name ∧ entry.2.value.Braceless) :
    Expression.pattern.pieces (listText attributes) = listPieces attributes := by
  induction attributes with
  | nil => simp [listText, listPieces, Pattern.pieces]
  | cons entry attributes induction =>
    obtain ⟨plain, braceless⟩ := outside entry List.mem_cons_self
    have later := induction fun other member => outside other (List.mem_cons_of_mem _ member)
    have text : listText (entry :: attributes) =
        (entry.1 ++ entry.2.name) ++ (entry.2.value.source ++ listText attributes) := by
      simp [listText, source]
    rw [text, Expression.pieces_plain_append plain, WrittenValue.pieces_source_append braceless,
      later]
    simp [listPieces]

theorem exists_of_mem_maskList {index : Nat} {masked : Text × WrittenAttribute}
    (member : masked ∈ maskList index attributes) : ∃ number, ∃ entry ∈ attributes,
      masked = (entry.1, ⟨entry.2.name, entry.2.value.mask number⟩) := by
  induction attributes generalizing index with
  | nil => simp [maskList] at member
  | cons entry attributes induction =>
    rcases List.mem_cons.mp member with here | later
    · exact ⟨index, entry, List.mem_cons_self, here⟩
    · obtain ⟨number, other, inside, equal⟩ := induction later
      exact ⟨number, other, List.mem_cons_of_mem _ inside, equal⟩

/-- The masked attributes have the values of the attributes, with their expressions from the
table. -/
theorem resolve_maskList (direct : ∀ entry ∈ attributes, ∀ token, entry.2.value ≠ .masked token)
    {table : ExpressionTable} {prior later : List Expression}
    (known : table.entries = prior ++ (embeddedIn attributes ++ later)) :
    (maskList prior.length attributes).map (fun entry => entry.2.resolve (some table)) =
      attributes.map fun entry => entry.2.resolve none := by
  induction attributes generalizing prior with
  | nil => rfl
  | cons entry attributes induction =>
    have split : table.entries =
        prior ++ (entry.2.value.embedded ++ (embeddedIn attributes ++ later)) := by
      rw [known, embeddedIn, List.flatMap_cons, List.append_assoc]
      rfl
    have value := WrittenValue.value_mask (direct entry List.mem_cons_self) split
    have rest := induction (fun other member => direct other (List.mem_cons_of_mem _ member))
      (split.trans (List.append_assoc ..).symm)
    rw [List.length_append] at rest
    rw [maskList, List.map_cons, List.map_cons, rest]
    simp [resolve, value]

/-- A masked list is read as its attributes, with their expressions from the table. -/
theorem parseAttributes_maskList {last : Text}
    (gaps : ∀ entry ∈ attributes, entry.1 ≠ [] ∧ ∀ c ∈ entry.1, isSpace c = true)
    (readable : ∀ entry ∈ attributes, entry.2.Readable)
    (direct : ∀ entry ∈ attributes, ∀ token, entry.2.value ≠ .masked token)
    (spaces : ∀ c ∈ last, isSpace c = true) {table : ExpressionTable}
    {prior later : List Expression}
    (known : table.entries = prior ++ (embeddedIn attributes ++ later)) :
    parseAttributes (some table) (listText (maskList prior.length attributes) ++ last) =
      attributes.map fun entry => entry.2.resolve none := by
  have read : pattern.items (listText (maskList prior.length attributes) ++ last) =
      (maskList prior.length attributes).map Prod.snd := by
    apply items_listText _ _ spaces
    · intro masked member
      obtain ⟨number, entry, listed, rfl⟩ := exists_of_mem_maskList member
      exact gaps entry listed
    · intro masked member
      obtain ⟨number, entry, listed, rfl⟩ := exists_of_mem_maskList member
      exact ⟨(readable entry listed).name, (readable entry listed).value.mask number⟩
  rw [parseAttributes, read, List.map_map, ← resolve_maskList direct known]
  rfl

end WrittenAttribute

end JsxCalls
