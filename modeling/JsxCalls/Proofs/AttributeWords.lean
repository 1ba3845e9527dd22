import JsxCalls.Proofs.Markup

/-!
# No word of an attribute list is lost

However malformed an attribute list is, each of its word characters comes back in the name or in the
value of some attribute, in the order of the list. What is passed over between the attributes, and
what stands around a value, holds no word. So a list has no attributes exactly if it holds no word.
-/

namespace JsxCalls

/-- The text of a value, in whatever form it is written. -/
def AttributeValue.text : AttributeValue → Text
  | .expression code => code
  | .doubleQuoted text => text
  | .singleQuoted text => text
  | .implicit => []

/-- The name of an attribute and the text of its value. -/
def Attribute.content (attr : Attribute) : Text :=
  attr.name ++ attr.value.text

theorem AttributeValue.text_ofExpression (code : Text) : (ofExpression code).text = code := by
  rw [ofExpression]
  split
  · rename_i empty
    exact empty.symm
  · rfl

/-! ## Values -/

/-- What stands around a value holds no word. -/
theorem WrittenValue.filter_source (value : WrittenValue) :
    value.source.filter isWord = (value.value none).text.filter isWord := by
  have equals : isWord '=' = false := rfl
  have opening : isWord '{' = false := rfl
  have closing : isWord '}' = false := rfl
  have double : isWord '"' = false := rfl
  have single : isWord '\'' = false := rfl
  cases value with
  | braced body =>
    simp [source, WrittenValue.value, AttributeValue.text_ofExpression, equals, opening, closing]
  | doubleQuoted text => simp [source, WrittenValue.value, AttributeValue.text, equals, double]
  | singleQuoted text => simp [source, WrittenValue.value, AttributeValue.text, equals, single]
  | masked token => simp [source, WrittenValue.value, AttributeValue.text, equals]
  | absent => rfl

/-! ## Names -/

theorem IsName.singleton {c : Char} (wordly : isWord c = true) : IsName [c] := by
  refine ⟨[[c]], List.cons_ne_nil _ _, ?_, List.intercalate_singleton.symm⟩
  intro word member
  obtain rfl : word = [c] := List.mem_singleton.mp member
  exact ⟨List.cons_ne_nil _ _, List.forall_mem_singleton.mpr wordly⟩

/-- A word character before a name belongs to its first word. -/
theorem IsName.cons {c : Char} {name : Text} (wordly : isWord c = true) (named : IsName name) :
    IsName (c :: name) := by
  obtain ⟨words, filled, parts, rfl⟩ := named
  obtain ⟨word, words, rfl⟩ := List.exists_cons_of_ne_nil filled
  refine ⟨(c :: word) :: words, List.cons_ne_nil _ _, ?_, ?_⟩
  · rw [List.forall_mem_cons] at parts ⊢
    exact ⟨⟨List.cons_ne_nil _ _, List.forall_mem_cons.mpr ⟨wordly, parts.1.2⟩⟩, parts.2⟩
  · cases words <;> simp [List.intercalate]

/-- A word character and a hyphen before a name are one more word. -/
theorem IsName.cons_hyphen {c : Char} {name : Text} (wordly : isWord c = true)
    (named : IsName name) : IsName (c :: '-' :: name) := by
  obtain ⟨words, filled, parts, rfl⟩ := named
  obtain ⟨word, words, rfl⟩ := List.exists_cons_of_ne_nil filled
  refine ⟨[c] :: word :: words, List.cons_ne_nil _ _, ?_, by simp [List.intercalate]⟩
  rw [List.forall_mem_cons]
  exact ⟨⟨List.cons_ne_nil _ _, List.forall_mem_singleton.mpr wordly⟩, parts⟩

namespace WrittenAttribute

/-- What is taken from a text goes on with a name, and is a name if it begins with a word
character. -/
theorem isName_takeName (text : Text) :
    (∀ c, isWord c = true → IsName (c :: takeName text)) ∧
      (text.head?.any isWord = true → IsName (takeName text)) := by
  induction text with
  | nil => exact ⟨fun c wordly => .singleton wordly, fun starts => absurd starts (by simp)⟩
  | cons d text induction =>
    have whole : isWord d = true → IsName (takeName (d :: text)) := by
      intro inside
      rw [takeName, inside, Bool.true_or, if_pos rfl]
      exact induction.1 d inside
    refine ⟨fun c wordly => ?_, whole⟩
    cases inside : isWord d with
    | true => exact (whole inside).cons wordly
    | false =>
      rw [takeName, inside, Bool.false_or]
      split
      · -- a hyphen is taken only before a word character
        rename_i taken
        obtain ⟨rfl, next⟩ : d = '-' ∧ text.head?.any isWord = true := by simpa using taken
        exact (induction.2 next).cons_hyphen wordly
      · exact .singleton wordly

/-! ## Lists -/

theorem isName_of_start? {text rest : Text} {written : WrittenAttribute}
    (found : start? text = some (written, rest)) : IsName written.name := by
  cases text with
  | nil => simp [start?] at found
  | cons c text =>
    rw [start?] at found
    split at found
    · rename_i wordly
      have named := (isName_takeName text).1 c wordly
      split at found
      · obtain ⟨rfl, -⟩ := Prod.mk.inj (Option.some.inj found)
        exact named
      · obtain ⟨rfl, -⟩ := Prod.mk.inj (Option.some.inj found)
        exact named
    · simp at found

theorem isName_of_mem_items {list : Text} {written : WrittenAttribute}
    (member : written ∈ pattern.items list) : IsName written.name := by
  fun_induction Pattern.pieces pattern list with
  | case1 => simp [Pattern.items_nil] at member
  | case2 c text first rest found induction =>
    have named : IsName first.name := isName_of_start? (show start? (c :: text) = _ from found)
    rw [Pattern.items_of_some found] at member
    rcases List.mem_cons.mp member with rfl | later
    · exact named
    · exact induction later
  | case3 c text missed induction =>
    rw [Pattern.items_of_none missed] at member
    exact induction member

/-- A search passes over no word, and takes each word of an attribute into its name or its value. -/
theorem filter_items (list : Text) : list.filter isWord =
    ((pattern.items list).flatMap fun written => (written.resolve none).content).filter isWord := by
  fun_induction Pattern.pieces pattern list with
  | case1 => rw [Pattern.items_nil]; rfl
  | case2 c text first rest found induction =>
    have split : start? (c :: text) = some (first, rest) := found
    rw [Pattern.items_of_some found, List.flatMap_cons, List.filter_append, ← induction,
      (append_of_start? split).1, List.filter_append, source, Attribute.content, List.filter_append,
      List.filter_append, first.value.filter_source]
    rfl
  | case3 c text missed induction =>
    have outside : isWord c = false := by
      have none : start? (c :: text) = none := missed
      rw [start?] at none
      split at none
      · split at none <;> simp at none
      · rename_i outside
        simpa using outside
    rw [Pattern.items_of_none missed, ← induction, List.filter_cons_of_neg (by simp [outside])]

end WrittenAttribute

theorem filter_parseAttributes (list : Text) : list.filter isWord =
    ((parseAttributes none list).flatMap Attribute.content).filter isWord := by
  rw [WrittenAttribute.filter_items, parseAttributes, List.flatMap_map]

theorem isName_of_mem_parseAttributes {table : Option ExpressionTable} {list : Text}
    {attr : Attribute} (member : attr ∈ parseAttributes table list) : IsName attr.name := by
  obtain ⟨written, found, rfl⟩ := List.mem_map.mp member
  exact WrittenAttribute.isName_of_mem_items found

/-- A list without a word has no attributes, since each of them would have a name. -/
theorem parseAttributes_eq_nil_iff (table : Option ExpressionTable) (list : Text) :
    parseAttributes table list = [] ↔ ∀ c ∈ list, isWord c = false := by
  rw [parseAttributes, List.map_eq_nil_iff]
  constructor
  · intro empty c member
    have none : list.filter isWord = [] := by
      rw [WrittenAttribute.filter_items, empty]
      rfl
    simpa using List.filter_eq_nil_iff.mp none c member
  · intro wordless
    rw [List.eq_nil_iff_forall_not_mem]
    intro written member
    obtain ⟨c, part, name, wordly, -⟩ := WrittenAttribute.exists_of_isName
      (WrittenAttribute.isName_of_mem_items member)
    have inside : c ∈ list.filter isWord := by
      rw [WrittenAttribute.filter_items, List.mem_filter]
      refine ⟨List.mem_flatMap.mpr ⟨written, member, ?_⟩, wordly⟩
      simp [Attribute.content, WrittenAttribute.resolve, name]
    have outside := wordless c (List.mem_filter.mp inside).1
    simp [wordly] at outside

theorem renderProps_eq_null_iff (attributes : List Attribute) :
    renderProps attributes = "null".toList ↔ attributes = [] := by
  cases attributes with
  | nil => simp [renderProps]
  | cons attr attributes => simp [renderProps]

/-- Reading an attribute list conserves its words, and finds names only; so its props are `null` if
and only if it holds no word, whether it is blank or not. -/
theorem parseAttributes_conserves (list : Text) :
    list.filter isWord =
        ((parseAttributes none list).flatMap Attribute.content).filter isWord ∧
      (∀ attr ∈ parseAttributes none list, IsName attr.name) ∧
      ∀ table, (propsOfList table list = "null".toList ↔ ∀ c ∈ list, isWord c = false) ∧
        propsOfList table list = renderProps (parseAttributes table list) := by
  refine ⟨filter_parseAttributes list, fun attr => isName_of_mem_parseAttributes, ?_⟩
  intro table
  have general := propsOfList_eq table list
  refine ⟨?_, general⟩
  rw [general, renderProps_eq_null_iff, parseAttributes_eq_nil_iff]

end JsxCalls
