import JsxCalls.Proofs.AttributeMasking

/-!
# Reading undoes writing

Attributes that are written with white space before each of them are read back as they were, in
order and with repeated names. This holds for the list as it stands in the source and for the list
after masking, so both give the same props.
-/

namespace JsxCalls

namespace AttributeValue

/-- The value as it is written in an attribute list. -/
def written : AttributeValue → WrittenValue
  | .expression code => .braced code
  | .doubleQuoted text => .doubleQuoted text
  | .singleQuoted text => .singleQuoted text
  | .implicit => .absent

/-- The value can be written: an expression has some code and no braces, and a quoted text holds
neither braces nor its own quote. -/
def Writable : AttributeValue → Prop
  | .expression code => code ≠ [] ∧ ∀ c ∈ code, isBrace c = false
  | .doubleQuoted text => '"' ∉ text ∧ ∀ c ∈ text, isBrace c = false
  | .singleQuoted text => '\'' ∉ text ∧ ∀ c ∈ text, isBrace c = false
  | .implicit => True

theorem written_ne_masked (value : AttributeValue) (token : Text) :
    value.written ≠ .masked token := by
  cases value <;> simp [written]

variable {value : AttributeValue} (writable : value.Writable)
include writable

theorem Writable.value_written : value.written.value none = value := by
  cases value with
  | expression code => simp [written, WrittenValue.value, ofExpression, writable.1]
  | doubleQuoted | singleQuoted | implicit => rfl

theorem Writable.readable : value.written.Readable := by
  cases value with
  | expression code => exact fun member => absurd (writable.2 _ member) (by decide)
  | doubleQuoted text => exact writable.1
  | singleQuoted text => exact writable.1
  | implicit => trivial

theorem Writable.braceless : value.written.Braceless := by
  have outside : ∀ {text : Text}, (∀ c ∈ text, isBrace c = false) → '{' ∉ text :=
    fun plain member => absurd (plain _ member) (by decide)
  cases value with
  | expression code => exact writable.2
  | doubleQuoted text =>
    simp [written, WrittenValue.Braceless, WrittenValue.source, outside writable.2]
  | singleQuoted text =>
    simp [written, WrittenValue.Braceless, WrittenValue.source, outside writable.2]
  | implicit => exact List.not_mem_nil

end AttributeValue

/-- An attribute that can be written in a list, with the white space before it. -/
structure PlacedAttribute where
  gap : Text
  attr : Attribute
  filled : gap ≠ []
  spaces : ∀ c ∈ gap, isSpace c = true
  named : IsName attr.name
  writable : attr.value.Writable

namespace PlacedAttribute

/-- The text of an attribute list. -/
def text (entries : List PlacedAttribute) : Text :=
  entries.flatMap fun entry =>
    entry.gap ++ entry.attr.name ++ entry.attr.value.written.source

/-- The attribute as an entry of a written list. -/
def listed (entry : PlacedAttribute) : Text × WrittenAttribute :=
  (entry.gap, ⟨entry.attr.name, entry.attr.value.written⟩)

theorem text_eq (entries : List PlacedAttribute) :
    text entries = WrittenAttribute.listText (entries.map listed) := by
  simp [text, WrittenAttribute.listText, List.flatMap_map, listed, WrittenAttribute.source]

theorem brace_notMem (entry : PlacedAttribute) : '{' ∉ entry.gap ++ entry.attr.name := by
  rw [List.mem_append, not_or]
  refine ⟨fun member => absurd (entry.spaces _ member) (by decide), fun member => ?_⟩
  rcases entry.named.isWord_or_eq member with wordly | hyphen
  · exact absurd wordly (by decide)
  · exact absurd hyphen (by decide)

variable (entries : List PlacedAttribute)

theorem gap_listed : ∀ entry ∈ entries.map listed, entry.1 ≠ [] ∧ ∀ c ∈ entry.1, isSpace c = true :=
  List.forall_mem_map.mpr fun entry _ => ⟨entry.filled, entry.spaces⟩

theorem readable_listed : ∀ entry ∈ entries.map listed, entry.2.Readable :=
  List.forall_mem_map.mpr fun entry _ => ⟨entry.named, entry.writable.readable⟩

/-- What is written is meant. -/
theorem resolve_listed : (entries.map listed).map (fun entry => entry.2.resolve none) =
    entries.map attr := by
  rw [List.map_map]
  refine List.map_congr_left fun entry _ => ?_
  simp [listed, WrittenAttribute.resolve, entry.writable.value_written]

theorem parseAttributes_text : parseAttributes none (text entries) = entries.map attr := by
  have read := WrittenAttribute.items_listText (gap_listed entries) (readable_listed entries)
    (List.forall_mem_nil fun c => isSpace c = true)
  rw [List.append_nil, ← text_eq] at read
  rw [parseAttributes, read, List.map_map]
  exact resolve_listed entries

theorem pieces_text :
    Expression.pattern.pieces (text entries) =
      WrittenAttribute.listPieces (entries.map listed) := by
  rw [text_eq]
  exact WrittenAttribute.pieces_listText
    (List.forall_mem_map.mpr fun entry _ => ⟨entry.brace_notMem, entry.writable.braceless⟩)

theorem parseAttributes_mask :
    parseAttributes (some (mask (text entries)).table) (mask (text entries)).text =
      entries.map attr := by
  have masked : (mask (text entries)).text =
      WrittenAttribute.listText (WrittenAttribute.maskList 0 (entries.map listed)) ++ [] := by
    rw [List.append_nil, ← WrittenAttribute.maskFrom_listPieces, ← pieces_text]
    rfl
  have known : (mask (text entries)).table.entries =
      [] ++ (WrittenAttribute.embeddedIn (entries.map listed) ++ []) := by
    rw [entries_mask, pieces_text, WrittenAttribute.expressions_listPieces, List.append_nil]
    rfl
  have direct : ∀ entry ∈ entries.map listed, ∀ token, entry.2.value ≠ .masked token :=
    List.forall_mem_map.mpr fun entry _ => entry.attr.value.written_ne_masked
  rw [masked, ← resolve_listed]
  exact WrittenAttribute.parseAttributes_maskList (gap_listed entries) (readable_listed entries)
    direct (List.forall_mem_nil _) known

end PlacedAttribute

/-- Reading undoes writing, on a list as it stands and on a masked one, so both give the props of
the attributes. -/
theorem parseAttributes_written (entries : List PlacedAttribute) :
    parseAttributes none (PlacedAttribute.text entries) = entries.map PlacedAttribute.attr ∧
      parseAttributes (some (mask (PlacedAttribute.text entries)).table)
          (mask (PlacedAttribute.text entries)).text = entries.map PlacedAttribute.attr ∧
      propsOfList none (PlacedAttribute.text entries) =
        renderProps (entries.map PlacedAttribute.attr) ∧
      propsOfList (some (mask (PlacedAttribute.text entries)).table)
          (mask (PlacedAttribute.text entries)).text =
        renderProps (entries.map PlacedAttribute.attr) := by
  have direct := PlacedAttribute.parseAttributes_text entries
  have masked := PlacedAttribute.parseAttributes_mask entries
  refine ⟨direct, masked, ?_, ?_⟩
  · rw [propsOfList_eq, direct]
  · rw [propsOfList_eq, masked]

/-- A repeated name, and values that look like other attributes, tags and placeholders. -/
def crowdedAttributes : List Attribute := [
  ⟨"data-x".toList, .expression "a=>\"b\" <c d='__PROTECTED_1__'/>".toList⟩,
  ⟨"e".toList, .doubleQuoted "it's x=__PROTECTED_0__".toList⟩,
  ⟨"e".toList, .implicit⟩,
  ⟨"data-x".toList, .expression "-".toList⟩]

/-- The attributes with white space of different kinds before them. -/
def crowdedList : Text :=
  " data-x=\x7ba=>\"b\" <c d='__PROTECTED_1__'/>\x7d\n\t".toList ++
    "e=\"it's x=__PROTECTED_0__\" e\u3000data-x=\x7b-\x7d".toList

theorem parseAttributes_written_crowdedList :
    (∃ entries, PlacedAttribute.text entries = crowdedList ∧
        entries.map PlacedAttribute.attr = crowdedAttributes) ∧
      parseAttributes none crowdedList = crowdedAttributes ∧
      parseAttributes (some (mask crowdedList).table) (mask crowdedList).text =
        crowdedAttributes := by
  have hyphenated : IsName "data-x".toList :=
    .of_words ["data".toList, "x".toList] (by decide) (by decide) (by decide)
  have short : IsName "e".toList := .of_words ["e".toList] (by decide) (by decide) (by decide)
  have plain : ∀ {text : Text}, (text.all fun c => !isBrace c) = true →
      ∀ c ∈ text, isBrace c = false := fun all c member => by
    simpa using List.all_eq_true.mp all c member
  let entries : List PlacedAttribute := [
    ⟨" ".toList, ⟨"data-x".toList, .expression "a=>\"b\" <c d='__PROTECTED_1__'/>".toList⟩,
      by decide, List.all_eq_true.mp (by decide), hyphenated,
      List.cons_ne_nil _ _, plain (by decide)⟩,
    ⟨"\n\t".toList, ⟨"e".toList, .doubleQuoted "it's x=__PROTECTED_0__".toList⟩,
      by decide, List.all_eq_true.mp (by decide), short,
      by decide, plain (by decide)⟩,
    ⟨" ".toList, ⟨"e".toList, .implicit⟩,
      by decide, List.all_eq_true.mp (by decide), short, trivial⟩,
    ⟨"\u3000".toList, ⟨"data-x".toList, .expression "-".toList⟩,
      by decide, List.all_eq_true.mp (by decide), hyphenated,
      List.cons_ne_nil _ _, plain (by decide)⟩]
  have text : PlacedAttribute.text entries = crowdedList := rfl
  obtain ⟨direct, masked, -⟩ := parseAttributes_written entries
  rw [text] at direct masked
  exact ⟨⟨entries, text, rfl⟩, direct, masked⟩

end JsxCalls
