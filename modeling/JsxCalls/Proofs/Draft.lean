import JsxCalls.Lowering
import JsxCalls.Proofs.Markup

/-!
# Drafts

A draft is a converted text that leaves the bodies of expressions open. A conversion looks at the
table of expressions only to see which of them are empty, so tables that agree in this have one
draft, and each conversion is that draft filled with the bodies of its own table.
-/

namespace JsxCalls

/-! ## Filling a draft -/

/-- The body of an expression; there is none behind the last number. -/
def ExpressionTable.bodyAt (table : ExpressionTable) (index : Nat) : Text :=
  ((table.get? index).map Expression.body).getD []

/-- A character beside an open body: it is part of no word and ends no line. -/
def IsSeal (c : Char) : Prop :=
  isWord c = false ∧ c ≠ '\n'

theorem isSeal_space : IsSeal ' ' := ⟨by decide, by decide⟩

theorem isSeal_comma : IsSeal ',' := ⟨by decide, by decide⟩

/-- The place of a body, with the characters that stand directly before and behind it. -/
structure Frame where
  opening : Char
  index : Nat
  closing : Char
  opens : IsSeal opening
  closes : IsSeal closing

def Frame.text (table : ExpressionTable) (frame : Frame) : Text :=
  frame.opening :: (table.bodyAt frame.index ++ [frame.closing])

/-- A text with open bodies. -/
abbrev Draft := List (Piece Frame)

namespace Draft

variable (table : ExpressionTable)

/-- The text with the bodies of a table. -/
def fill (draft : Draft) : Text :=
  draft.flatMap (Piece.replaced (Frame.text table))

@[simp]
theorem fill_nil : fill table [] = [] := rfl

@[simp]
theorem fill_char (c : Char) (draft : Draft) :
    fill table (.char c :: draft) = c :: fill table draft :=
  rfl

@[simp]
theorem fill_item (frame : Frame) (draft : Draft) :
    fill table (.item frame :: draft) = frame.text table ++ fill table draft := rfl

@[simp]
theorem fill_append (left right : Draft) :
    fill table (left ++ right) = fill table left ++ fill table right :=
  List.flatMap_append

@[simp]
theorem fill_map_char (text : Text) : fill table (text.map .char) = text := by
  induction text with
  | nil => rfl
  | cons c text induction => simp [induction]

variable {table}

theorem eq_nil_of_fill_eq_nil {draft : Draft} (empty : fill table draft = []) : draft = [] := by
  cases draft with
  | nil => rfl
  | cons piece draft => cases piece <;> simp [Frame.text] at empty

/-- Two beginnings of a draft are one inside the other, and the shorter one has the shorter text. -/
theorem exists_of_append_eq {front back left right : Draft} (equal : front ++ back = left ++ right)
    (shorter : (fill table front).length ≤ (fill table left).length) :
    ∃ middle, left = front ++ middle ∧ back = middle ++ right := by
  rcases List.append_eq_append_iff.mp equal with
    ⟨middle, left_eq, back_eq⟩ | ⟨middle, front_eq, right_eq⟩
  · exact ⟨middle, left_eq, back_eq⟩
  · rw [front_eq, fill_append, List.length_append] at shorter
    have nothing : fill table middle = [] := List.length_eq_zero_iff.mp (by omega)
    obtain rfl := eq_nil_of_fill_eq_nil nothing
    exact ⟨[], by simp [front_eq], by simp [right_eq]⟩

/-- The body with the given number is open in the draft. -/
def Holds (draft : Draft) (index : Nat) : Prop :=
  ∃ frame, .item frame ∈ draft ∧ frame.index = index

@[simp]
theorem holds_append_iff {left right : Draft} {index : Nat} :
    (left ++ right).Holds index ↔ left.Holds index ∨ right.Holds index := by
  simp [Holds, or_and_right, exists_or]

@[simp]
theorem holds_char_iff {c : Char} {draft : Draft} {index : Nat} :
    Holds (.char c :: draft) index ↔ draft.Holds index := by
  simp [Holds]

@[simp]
theorem not_holds_map_char (text : Text) (index : Nat) : ¬ Holds (text.map .char) index := by
  simp [Holds]

theorem Holds.infix_fill {draft : Draft} {index : Nat} (holds : draft.Holds index) :
    table.bodyAt index <:+: fill table draft := by
  obtain ⟨frame, member, rfl⟩ := holds
  obtain ⟨left, right, rfl⟩ := List.append_of_mem member
  refine ⟨fill table left ++ [frame.opening], frame.closing :: fill table right, ?_⟩
  simp [Frame.text]

theorem exists_map_char_of_not_holds {draft : Draft} (none : ∀ index, ¬ draft.Holds index) :
    ∃ text : Text, draft = text.map .char := by
  induction draft with
  | nil => exact ⟨[], rfl⟩
  | cons piece draft induction =>
    cases piece with
    | char c =>
      obtain ⟨text, rfl⟩ := induction fun index holds => none index (holds_char_iff.mpr holds)
      exact ⟨c :: text, rfl⟩
    | item frame => exact absurd ⟨frame, List.mem_cons_self, rfl⟩ (none frame.index)

end Draft

/-! ## Tables that agree -/

/-- The same expressions of the two tables are empty. -/
def ExpressionTable.Alike (table other : ExpressionTable) : Prop :=
  table.entries.map (fun entry => entry.body.isEmpty) =
    other.entries.map (fun entry => entry.body.isEmpty)

namespace ExpressionTable

variable {table other : ExpressionTable} (alike : table.Alike other)
include alike

theorem Alike.length_eq : table.entries.length = other.entries.length := by
  simpa using congrArg List.length alike

theorem Alike.get?_eq (index : Nat) :
    (table.get? index).map (fun entry => entry.body.isEmpty) =
      (other.get? index).map fun entry => entry.body.isEmpty := by
  have same := congrArg (fun list => list[index]?) alike
  simpa [get?] using same

theorem Alike.bodyAt_eq_nil_iff (index : Nat) :
    table.bodyAt index = [] ↔ other.bodyAt index = [] := by
  have same := alike.get?_eq index
  rw [bodyAt, bodyAt]
  cases here : table.get? index <;> cases there : other.get? index <;> simp_all
  grind

end ExpressionTable

namespace WrittenValue

/-- The expression whose body is written for the value. Nothing is written for an empty one. -/
def slot? (table : ExpressionTable) : WrittenValue → Option Nat
  | .masked token => (Placeholder.index? token).filter fun index => !(table.bodyAt index).isEmpty
  | _ => none

variable {table other : ExpressionTable}

theorem slot?_eq_of_alike (alike : table.Alike other) (value : WrittenValue) :
    value.slot? table = value.slot? other := by
  cases value with
  | masked token =>
    have same : ∀ index, (table.bodyAt index).isEmpty = (other.bodyAt index).isEmpty := by
      intro index
      rw [Bool.eq_iff_iff, List.isEmpty_iff, List.isEmpty_iff]
      exact alike.bodyAt_eq_nil_iff index
    simp only [slot?, same]
  | braced | doubleQuoted | singleQuoted | absent => rfl

theorem value_of_slot?_eq_some {value : WrittenValue} {index : Nat}
    (some : value.slot? table = some index) :
    value.value (.some table) = .expression (table.bodyAt index) ∧ table.bodyAt index ≠ [] := by
  cases value with
  | masked token =>
    obtain ⟨read, filled⟩ := Option.filter_eq_some_iff.mp some
    have nonempty : table.bodyAt index ≠ [] := by simpa using filled
    cases entry : table.get? index with
    | none => simp [ExpressionTable.bodyAt, entry] at nonempty
    | some expression =>
      have body : table.bodyAt index = expression.body := by
        simp [ExpressionTable.bodyAt, entry]
      rw [body] at nonempty ⊢
      have resolved : table.resolve? token = expression := by
        simp [ExpressionTable.resolve?, read, entry]
      simp [WrittenValue.value, resolved, AttributeValue.ofExpression, nonempty]
  | braced | doubleQuoted | singleQuoted | absent => simp [slot?] at some

theorem value_eq_of_slot?_eq_none (alike : table.Alike other) {value : WrittenValue}
    (none : value.slot? table = none) : value.value (some table) = value.value (some other) := by
  cases value with
  | masked token =>
    cases read : Placeholder.index? token with
    | none => simp [WrittenValue.value, ExpressionTable.resolve?, read]
    | some index =>
      have blank : table.bodyAt index = [] := by simpa [slot?, read] using none
      have same := alike.get?_eq index
      have otherBlank := (alike.bodyAt_eq_nil_iff index).mp blank
      cases here : table.get? index <;> cases there : other.get? index <;>
        simp_all [WrittenValue.value, ExpressionTable.resolve?, ExpressionTable.bodyAt]
  | braced | doubleQuoted | singleQuoted | absent => rfl

/-- What is written for the value, between the space before it and the character behind it. -/
def draft (table : ExpressionTable) (closing : Char) (closes : IsSeal closing)
    (value : WrittenValue) : Draft :=
  match value.slot? table with
  | some index => [.item ⟨' ', index, closing, isSeal_space, closes⟩]
  | none => (' ' :: ((value.value (some table)).render ++ [closing])).map .char

theorem fill_draft (alike : table.Alike other) (closing : Char) (closes : IsSeal closing)
    (value : WrittenValue) : Draft.fill other (value.draft table closing closes) =
      ' ' :: ((value.value (some other)).render ++ [closing]) := by
  rw [draft]
  split
  · rename_i index found
    rw [slot?_eq_of_alike alike] at found
    simp [Frame.text, (value_of_slot?_eq_some found).1, AttributeValue.render]
  · rename_i missed
    rw [Draft.fill_map_char, value_eq_of_slot?_eq_none alike missed]

theorem draft_eq_of_alike (alike : table.Alike other) (closing : Char) (closes : IsSeal closing)
    (value : WrittenValue) :
    value.draft table closing closes = value.draft other closing closes := by
  rw [draft, draft, ← slot?_eq_of_alike alike]
  split
  · rfl
  · rename_i missed
    rw [value_eq_of_slot?_eq_none alike missed]

theorem holds_draft_iff (closing : Char) (closes : IsSeal closing) (value : WrittenValue)
    (index : Nat) : (value.draft table closing closes).Holds index ↔
      value.slot? table = some index := by
  rw [draft]
  split
  · rename_i other found
    simp [Draft.Holds, found]
  · rename_i missed
    simp only [missed, reduceCtorEq, iff_false]
    exact Draft.not_holds_map_char _ _

end WrittenValue

/-! ## Drafts of calls -/

section Draft

variable (table : ExpressionTable)

/-- The key of an attribute, which its value has no part in. -/
def WrittenAttribute.key (written : WrittenAttribute) : Text :=
  Attribute.key ⟨written.name, .implicit⟩

def WrittenAttribute.draft (closing : Char) (closes : IsSeal closing)
    (written : WrittenAttribute) : Draft :=
  (written.key ++ [':']).map .char ++ written.value.draft table closing closes

/-- The entries of a props object, with the space behind the last one. -/
def entriesDraft : List WrittenAttribute → Draft
  | [] => []
  | [last] => last.draft table ' ' isSeal_space
  | first :: next :: others =>
    first.draft table ',' isSeal_comma ++ .char ' ' :: entriesDraft (next :: others)

def propsDraft : List WrittenAttribute → Draft
  | [] => "null".toList.map .char
  | attributes => "\x7b ".toList.map .char ++ (entriesDraft table attributes ++ [.char '}'])

/-- The call with its props left open. -/
def ElementCall.draft (call : ElementCall) (indent unit : Text) (props : Draft) : Draft :=
  let function := call.receiver ++ ".createElement(".toList
  let tag := '\'' :: call.tag ++ ['\'']
  match call.children with
  | none => (function ++ tag ++ ", ".toList).map .char ++ (props ++ ")".toList.map .char)
  | some children =>
    let line := indent ++ unit
    (function ++ "\n".toList ++ line ++ tag ++ ",\n".toList ++ line).map .char ++
      (props ++ (",\n".toList ++ line ++ children ++ "\n".toList ++ indent ++ ")".toList).map .char)

def Converter.draft (converter : Converter) (markup indent : Text) : Draft :=
  match Element.parse? (Text.trim markup) with
  | none => (Text.trim markup).map .char
  | some element => (converter.call element).draft indent converter.style.indentUnit
      (propsDraft table (WrittenAttribute.pattern.items element.attributes))

def Segment.draft (style : CallStyle) : Segment → Draft
  | .kept text => text.map .char
  | .statement found =>
    (found.indent ++ ReturnStatement.keyword ++ " ".toList).map .char ++
      (Converter.draft table ⟨style, none⟩ (Text.trim found.markup)
        (found.indent ++ style.indentUnit) ++
        [.char ';'])

theorem holds_entriesDraft_iff (attributes : List WrittenAttribute) (index : Nat) :
    (entriesDraft table attributes).Holds index ↔
      ∃ written ∈ attributes, written.value.slot? table = some index := by
  induction attributes with
  | nil => simp [entriesDraft, Draft.Holds]
  | cons first others induction =>
    cases others with
    | nil =>
      simp only [entriesDraft, WrittenAttribute.draft, Draft.holds_append_iff,
        Draft.not_holds_map_char, WrittenValue.holds_draft_iff]
      simp
    | cons next others =>
      rw [entriesDraft, WrittenAttribute.draft, Draft.holds_append_iff, Draft.holds_append_iff,
        Draft.holds_char_iff, induction, WrittenValue.holds_draft_iff]
      simp only [Draft.not_holds_map_char, false_or, List.mem_cons, or_and_right, exists_or,
        exists_eq_left]

theorem holds_propsDraft_iff (attributes : List WrittenAttribute) (index : Nat) :
    (propsDraft table attributes).Holds index ↔
      ∃ written ∈ attributes, written.value.slot? table = some index := by
  cases attributes with
  | nil => simp [propsDraft, -List.map_cons]
  | cons first others =>
    rw [propsDraft, Draft.holds_append_iff, Draft.holds_append_iff, Draft.holds_char_iff,
      holds_entriesDraft_iff]
    · simp only [Draft.not_holds_map_char, false_or]
      simp [Draft.Holds]
    · simp

theorem ElementCall.holds_draft_iff (call : ElementCall) (indent unit : Text) (props : Draft)
    (index : Nat) : (call.draft indent unit props).Holds index ↔ props.Holds index := by
  obtain ⟨receiver, tag, written, children⟩ := call
  cases children with
  | none => simp only [draft, Draft.holds_append_iff, Draft.not_holds_map_char, false_or, or_false]
  | some children =>
    simp only [draft, Draft.holds_append_iff, Draft.not_holds_map_char, false_or, or_false]

/-- A statement leaves the bodies open that its attributes have as values. -/
theorem Segment.holds_draft_iff (style : CallStyle) (segment : Segment) (index : Nat) :
    (segment.draft table style).Holds index ↔
      ∃ found element, segment = .statement found ∧
        Element.parse? (Text.trim (Text.trim found.markup)) = some element ∧
        ∃ written ∈ WrittenAttribute.pattern.items element.attributes,
          written.value.slot? table = some index := by
  cases segment with
  | kept text => simp [draft]
  | statement found =>
    have last : ¬ Draft.Holds [.char ';'] index := Draft.not_holds_map_char [';'] index
    rw [draft, Draft.holds_append_iff, Draft.holds_append_iff, Converter.draft]
    simp only [Draft.not_holds_map_char, false_or, last, or_false, Segment.statement.injEq]
    constructor
    · intro holds
      split at holds
      · exact absurd holds (Draft.not_holds_map_char _ _)
      · rename_i element parsed
        rw [ElementCall.holds_draft_iff, holds_propsDraft_iff] at holds
        exact ⟨found, element, rfl, parsed, holds⟩
    · rintro ⟨_, element, rfl, parsed, holds⟩
      simp only [parsed]
      rwa [ElementCall.holds_draft_iff, holds_propsDraft_iff]

variable {table} {other : ExpressionTable} (alike : table.Alike other)
include alike

theorem WrittenAttribute.fill_draft (closing : Char) (closes : IsSeal closing)
    (written : WrittenAttribute) : Draft.fill other (written.draft table closing closes) =
      (written.resolve (some other)).entry ++ [closing] := by
  have key : (written.resolve (some other)).key = written.key := rfl
  rw [draft, Draft.fill_append, Draft.fill_map_char, WrittenValue.fill_draft alike,
    Attribute.entry, key]
  simp [resolve]

theorem fill_entriesDraft {attributes : List WrittenAttribute} (filled : attributes ≠ []) :
    Draft.fill other (entriesDraft table attributes) =
      List.intercalate ", ".toList
        ((attributes.map (WrittenAttribute.resolve (some other))).map Attribute.entry) ++
        [' '] := by
  induction attributes with
  | nil => exact absurd rfl filled
  | cons first others induction =>
    cases others with
    | nil => simp [entriesDraft, WrittenAttribute.fill_draft alike]
    | cons next others =>
      rw [entriesDraft, Draft.fill_append, WrittenAttribute.fill_draft alike, Draft.fill_char,
        induction (List.cons_ne_nil _ _)]
      simp [List.intercalate]

theorem fill_propsDraft (attributes : List WrittenAttribute) :
    Draft.fill other (propsDraft table attributes) =
      renderProps (attributes.map (WrittenAttribute.resolve (some other))) := by
  cases attributes with
  | nil => exact Draft.fill_map_char _ _
  | cons first others =>
    rw [propsDraft, Draft.fill_append, Draft.fill_append, Draft.fill_map_char,
      fill_entriesDraft alike (List.cons_ne_nil _ _)]
    · simp [renderProps]
    · simp

omit alike in
theorem ElementCall.fill_draft (call : ElementCall) (indent unit : Text) (props : Draft) :
    Draft.fill other (call.draft indent unit props) =
      ElementCall.render { call with props := Draft.fill other props } indent unit := by
  obtain ⟨receiver, tag, written, children⟩ := call
  cases children with
  | none =>
    simp only [draft, render, Draft.fill_append, Draft.fill_map_char, List.append_assoc]
  | some children =>
    simp only [draft, render, Draft.fill_append, Draft.fill_map_char, List.append_assoc]

/-- A segment is written by filling its draft. -/
theorem Segment.fill_draft (style : CallStyle) (segment : Segment) :
    Draft.fill other (segment.draft table style) = segment.render ⟨style, some other⟩ := by
  cases segment with
  | kept text => exact Draft.fill_map_char _ _
  | statement found =>
    have markup : Draft.fill other (Converter.draft table ⟨style, none⟩ (Text.trim found.markup)
        (found.indent ++ style.indentUnit)) = Converter.convert ⟨style, some other⟩
          (Text.trim found.markup) (found.indent ++ style.indentUnit) := by
      cases parsed : Element.parse? (Text.trim (Text.trim found.markup)) with
      | none =>
        simp only [Converter.draft, Converter.convert, parsed]
        exact Draft.fill_map_char _ _
      | some element =>
        simp only [Converter.draft, Converter.convert, parsed]
        rw [ElementCall.fill_draft, fill_propsDraft alike]
        simp only [Converter.call, propsOfList_eq, parseAttributes]
    rw [draft, Draft.fill_append, Draft.fill_append, Draft.fill_map_char, markup, render,
      List.append_assoc _ _ ";".toList]
    rfl

theorem entriesDraft_eq_of_alike (attributes : List WrittenAttribute) :
    entriesDraft table attributes = entriesDraft other attributes := by
  induction attributes with
  | nil => rfl
  | cons first others induction =>
    cases others with
    | nil => simp only [entriesDraft, WrittenAttribute.draft, WrittenValue.draft_eq_of_alike alike]
    | cons next others =>
      simp only [entriesDraft, WrittenAttribute.draft, WrittenValue.draft_eq_of_alike alike,
        induction]

theorem Segment.draft_eq_of_alike (style : CallStyle) (segment : Segment) :
    segment.draft table style = segment.draft other style := by
  have props : ∀ attributes, propsDraft table attributes = propsDraft other attributes := by
    intro attributes
    cases attributes with
    | nil => rfl
    | cons first others => simp only [propsDraft, entriesDraft_eq_of_alike alike]
  cases segment with
  | kept text => rfl
  | statement found => simp only [draft, Converter.draft, props]

theorem fill_flatMap_draft (style : CallStyle) (segments : List Segment) :
    Draft.fill other (segments.flatMap (Segment.draft table style)) =
      segments.flatMap (Segment.render ⟨style, some other⟩) := by
  induction segments with
  | nil => rfl
  | cons segment segments induction =>
    rw [List.flatMap_cons, Draft.fill_append, Segment.fill_draft alike, induction,
      List.flatMap_cons]

end Draft

end JsxCalls
