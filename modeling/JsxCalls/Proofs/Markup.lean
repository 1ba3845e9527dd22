import JsxCalls.Return.Segment
import JsxCalls.Proofs.AttributeList

/-!
# Recognising written markup

Elements and return statements are recognised in the form in which they are written: an element
from its tag, its attribute list and its children, and a statement of either form with its end
before the text that follows it.
-/

namespace JsxCalls

/-! ## Trimming -/

namespace Text

theorem dropWhile_eq_self {inClass : Char → Bool} {text : Text} (stops : StopsRun inClass text) :
    text.dropWhile inClass = text := by
  cases text with
  | nil => rfl
  | cons c text => simp [stops c rfl]

theorem of_dropWhile_eq_nil {inClass : Char → Bool} {text : Text}
    (dropped : text.dropWhile inClass = []) : ∀ c ∈ text, inClass c = true := by
  intro c member
  have whole := List.takeWhile_append_dropWhile (p := inClass) (l := text)
  rw [dropped, List.append_nil] at whole
  rw [← whole] at member
  exact of_mem_takeWhile member

theorem exists_run_append {inClass : Char → Bool} {text rest : Text}
    (dropped : text.dropWhile inClass = rest) :
    ∃ run, text = run ++ rest ∧ ∀ c ∈ run, inClass c = true :=
  ⟨text.takeWhile inClass, by rw [← dropped, List.takeWhile_append_dropWhile],
    fun _ => of_mem_takeWhile⟩

theorem trim_eq_self {text : Text} (first : StopsRun isSpace text)
    (last : StopsRun isSpace text.reverse) : trim text = text := by
  rw [trim, dropWhile_eq_self first, trimEnd, dropEndWhile, dropWhile_eq_self last,
    List.reverse_reverse]

theorem trim_bracketed (content : Text) :
    trim ('<' :: (content ++ ['>'])) = '<' :: (content ++ ['>']) := by
  apply trim_eq_self
  · intro c first
    obtain rfl : '<' = c := Option.some.inj first
    decide
  · intro c first
    obtain rfl : '>' = c := by simpa using first
    decide

theorem all_isSpace_of_trim_eq_nil {text : Text} (blank : trim text = []) :
    ∀ c ∈ text, isSpace c = true := by
  have ending : (text.dropWhile isSpace).reverse.dropWhile isSpace = [] := by
    simpa [trim, trimEnd, dropEndWhile] using blank
  have dropped : text.dropWhile isSpace = [] := by
    cases equal : text.dropWhile isSpace with
    | nil => rfl
    | cons c rest =>
      have stops := stopsRun_dropWhile isSpace text c (by rw [equal]; rfl)
      have space := of_dropWhile_eq_nil ending c (by simp [equal])
      exact absurd space (by simp [stops])
  exact of_dropWhile_eq_nil dropped

/-- Trimming takes white space off both ends. -/
theorem exists_trim_eq (text : Text) : ∃ before after, text = before ++ (trim text ++ after) ∧
    (∀ c ∈ before, isSpace c = true) ∧ ∀ c ∈ after, isSpace c = true := by
  obtain ⟨before, front_eq, opens⟩ := exists_run_append (rfl : text.dropWhile isSpace = _)
  obtain ⟨after, end_eq, closes⟩ :=
    exists_run_append (rfl : (text.dropWhile isSpace).reverse.dropWhile isSpace = _)
  refine ⟨before, after.reverse, ?_, opens, fun c member => closes c (List.mem_reverse.mp member)⟩
  have kept : text.dropWhile isSpace = trim text ++ after.reverse := by
    rw [← List.reverse_reverse (text.dropWhile isSpace), end_eq, List.reverse_append]
    rfl
  rw [← kept]
  exact front_eq

theorem trim_infix (text : Text) : trim text <:+: text := by
  obtain ⟨before, after, equal, -⟩ := exists_trim_eq text
  exact ⟨before, after, by rw [List.append_assoc, ← equal]⟩

end Text

/-! ## Elements -/

/-- A blank attribute list has no attributes, so it needs no case of its own. -/
theorem propsOfList_eq (table : Option ExpressionTable) (list : Text) :
    propsOfList table list = renderProps (parseAttributes table list) := by
  rw [propsOfList]
  split
  · rename_i blank
    have spaces := Text.all_isSpace_of_trim_eq_nil blank
    have skipped := WrittenAttribute.items_space_append spaces []
    rw [List.append_nil, Pattern.items_nil] at skipped
    simp only [parseAttributes, skipped]
    rfl
  · rfl

namespace Element

/-- What closes the opening tag of an element, and all that follows in the element. -/
def ending (tag : Text) : Option Text → Text
  | none => ['/', '>']
  | some children => '>' :: (children ++ closingTag tag)

/-- The element as it is written. -/
def source (element : Element) : Text :=
  '<' :: (element.tag ++ (element.attributes ++ ending element.tag element.children))

/-- The element can be read again: its tag is a word, and its attribute list ends before the tag
does. -/
structure Readable (element : Element) : Prop where
  /-- The tag is not empty. -/
  filled : element.tag ≠ []
  /-- The tag consists of word characters. -/
  wordly : ∀ c ∈ element.tag, isWord c = true
  /-- The attribute list does not go on with the tag. -/
  stops : Text.StopsRun isWord element.attributes
  /-- The opening tag is not closed within the attribute list. -/
  inside : '>' ∉ element.attributes

theorem Readable.stopsRun {element : Element} (readable : element.Readable) :
    Text.StopsRun isWord (element.attributes ++ ending element.tag element.children) := by
  obtain ⟨tag, attributes, children⟩ := element
  cases attributes with
  | nil => cases children <;> simp [Text.StopsRun, ending] <;> decide
  | cons c attributes => exact readable.stops

theorem beforeClosing?_closingTag (tag children : Text) {gap : Text}
    (spaces : ∀ c ∈ gap, isSpace c = true) :
    beforeClosing? tag (children ++ (closingTag tag ++ gap)) = some children := by
  have blank : ∀ c ∈ gap.reverse, isSpace c = true := fun c member =>
    spaces c (List.mem_reverse.mp member)
  have last : Text.StopsRun isSpace ((closingTag tag).reverse ++ children.reverse) := by
    intro c first
    obtain rfl : '>' = c := by simpa [closingTag] using first
    decide
  rw [beforeClosing?, List.reverse_append, List.reverse_append, List.append_assoc,
    Text.dropWhile_run blank last, Text.after?_eq_some_iff.mpr rfl]
  simp

/-- An element is read from what is written, and white space behind it is passed over. -/
theorem parse?_source_append {element : Element} (readable : element.Readable) {gap : Text}
    (spaces : ∀ c ∈ gap, isSpace c = true) : parse? (element.source ++ gap) = some element := by
  have ends := readable.stopsRun
  obtain ⟨tag, attributes, children⟩ := element
  obtain ⟨filled, wordly, stops, inside⟩ := readable
  have behind : Text.StopsRun isWord (attributes ++ ending tag children ++ gap) := by
    cases attributes with
    | nil => cases children <;> exact ends
    | cons c attributes => exact ends
  have opened : Text.after? ['<'] (source ⟨tag, attributes, children⟩ ++ gap) =
      some (tag ++ (attributes ++ ending tag children ++ gap)) :=
    Text.after?_eq_some_iff.mpr (by simp [source])
  simp only [parse?, opened, Option.bind_eq_bind, Option.bind_some,
    Text.takeWhile_run wordly behind, Text.dropWhile_run wordly behind]
  cases children with
  | none =>
    have cut : Text.until? '>' (attributes ++ ['/', '>'] ++ gap) =
        some (attributes ++ ['/'], gap) :=
      Text.until?_eq_some_iff.mpr ⟨by simp, by simp [inside]⟩
    have closed : (attributes ++ ['/']).getLast? = some '/' ∧ gap.all isSpace = true :=
      ⟨by simp, List.all_eq_true.mpr spaces⟩
    simp only [ending, cut, Option.bind_some, if_neg filled, if_pos closed, List.dropLast_concat]
  | some children =>
    have cut : Text.until? '>' (attributes ++ '>' :: (children ++ closingTag tag) ++ gap) =
        some (attributes, children ++ (closingTag tag ++ gap)) :=
      Text.until?_eq_some_iff.mpr ⟨by simp, inside⟩
    have visible : ¬ (attributes.getLast? = some '/' ∧
        (children ++ (closingTag tag ++ gap)).all isSpace = true) := by
      have bracket : isSpace '<' = false := by decide
      simp [closingTag, bracket]
    simp only [ending, cut, Option.bind_some, if_neg filled, if_neg visible,
      beforeClosing?_closingTag tag children spaces, Option.map_some]

theorem parse?_source {element : Element} (readable : element.Readable) :
    parse? element.source = some element := by
  have read := parse?_source_append readable (List.forall_mem_nil fun c => isSpace c = true)
  rwa [List.append_nil] at read

theorem exists_of_beforeClosing? {tag text children : Text}
    (found : beforeClosing? tag text = some children) :
    ∃ gap, text = children ++ (closingTag tag ++ gap) ∧ ∀ c ∈ gap, isSpace c = true := by
  obtain ⟨front, cut, rfl⟩ := Option.map_eq_some_iff.mp found
  obtain ⟨gap, equal, spaces⟩ := Text.exists_run_append (Text.after?_eq_some_iff.mp cut)
  refine ⟨gap.reverse, ?_, fun c member => spaces c (List.mem_reverse.mp member)⟩
  rw [← List.reverse_reverse text, equal]
  simp

/-- Only an element with white space behind it is read as one. -/
theorem exists_of_parse? {markup : Text} {element : Element}
    (parsed : parse? markup = some element) :
    element.Readable ∧ ∃ gap, markup = element.source ++ gap ∧ ∀ c ∈ gap, isSpace c = true := by
  simp only [parse?, bind, Option.bind_eq_some_iff] at parsed
  obtain ⟨body, opened, ⟨attributes, rest⟩, cut, parsed⟩ := parsed
  have wordly : ∀ c ∈ body.takeWhile isWord, isWord c = true := fun c => Text.of_mem_takeWhile
  obtain ⟨ends, inside⟩ := Text.until?_eq_some_iff.mp cut
  have markup_eq : markup = '<' :: (body.takeWhile isWord ++ (attributes ++ '>' :: rest)) := by
    rw [Text.after?_eq_some_iff.mp opened, ← ends, List.takeWhile_append_dropWhile]
    rfl
  have stops := Text.stopsRun_dropWhile isWord body
  rw [ends] at stops
  split at parsed
  · simp at parsed
  · rename_i filled
    split at parsed
    · rename_i closed
      obtain ⟨front, rfl⟩ := List.getLast?_eq_some_iff.mp closed.1
      rw [List.dropLast_concat] at parsed
      obtain rfl := Option.some.inj parsed
      refine ⟨⟨filled, wordly, ?_, fun member => inside (by simp [member])⟩, rest, ?_,
        List.all_eq_true.mp closed.2⟩
      · cases front with
        | nil => simp [Text.StopsRun]
        | cons c front => exact stops
      · rw [markup_eq]
        simp [source, ending]
    · obtain ⟨children, found, rfl⟩ := Option.map_eq_some_iff.mp parsed
      obtain ⟨gap, rfl, spaces⟩ := exists_of_beforeClosing? found
      refine ⟨⟨filled, wordly, ?_, inside⟩, gap, ?_, spaces⟩
      · cases attributes with
        | nil => simp [Text.StopsRun]
        | cons c attributes => exact stops
      · rw [markup_eq]
        simp [source, ending]

/-- An element begins with `<` and ends with `>`, with its tag between them. -/
theorem exists_source_eq (element : Element) :
    ∃ content, element.source = '<' :: (content ++ ['>']) ∧
    element.tag.length ≤ content.length := by
  obtain ⟨tag, attributes, children⟩ := element
  cases children with
  | none =>
    refine ⟨tag ++ (attributes ++ ['/']), by simp [source, ending], ?_⟩
    simp only [List.length_append]
    omega
  | some children =>
    refine ⟨tag ++ (attributes ++ '>' :: (children ++ '<' :: '/' :: tag)), ?_, ?_⟩
    · simp [source, ending, closingTag]
    · simp only [List.length_append]
      omega

theorem trim_source (element : Element) : Text.trim element.source = element.source := by
  obtain ⟨content, equal, -⟩ := element.exists_source_eq
  rw [equal, Text.trim_bracketed]

end Element

theorem Converter.convert_source (converter : Converter) {element : Element}
    (readable : element.Readable) (indent : Text) :
    converter.convert element.source indent =
      (converter.call element).render indent converter.style.indentUnit := by
  simp only [convert, Element.trim_source, Element.parse?_source readable]

/-! ## Return statements -/

namespace ReturnStatement

variable {indent rest : Text}

theorem head?_gap_append {gap : Text} (indented : ∀ c ∈ indent, isIndent c = true)
    (filled : gap ≠ []) (spaces : ∀ c ∈ gap, isSpace c = true)
    (stops : Text.StopsRun isSpace rest) :
    head? (indent ++ (keyword ++ (gap ++ rest))) = some (indent, rest) := by
  have ends : Text.StopsRun isIndent (keyword ++ (gap ++ rest)) := by
    intro c first
    obtain rfl : 'r' = c := Option.some.inj first
    decide
  have opened : Text.after? keyword (keyword ++ (gap ++ rest)) = some (gap ++ rest) :=
    Text.after?_eq_some_iff.mpr rfl
  have spaced : (gap ++ rest).head?.any isSpace = true := by
    obtain ⟨c, others, rfl⟩ := List.exists_cons_of_ne_nil filled
    exact spaces c List.mem_cons_self
  simp only [head?, Text.dropWhile_run indented ends, Text.takeWhile_run indented ends, opened,
    Option.bind_eq_bind, Option.bind_some, if_pos spaced, Text.dropWhile_run spaces stops]

theorem head?_append (indented : ∀ c ∈ indent, isIndent c = true)
    (stops : Text.StopsRun isSpace rest) :
    head? (indent ++ (keyword ++ ' ' :: rest)) = some (indent, rest) := by
  have blank : ∀ c ∈ [' '], isSpace c = true := by
    intro c member
    obtain rfl := List.mem_singleton.mp member
    decide
  exact head?_gap_append indented (List.cons_ne_nil ' ' []) blank stops

theorem inline?_source {element : Element} (indented : ∀ c ∈ indent, isIndent c = true)
    (filled : element.tag ≠ []) (inside : ';' ∉ element.source) :
    inline? (indent ++ (keyword ++ ' ' :: (element.source ++ ';' :: rest))) =
      some (⟨indent, element.source⟩, rest) := by
  obtain ⟨content, equal, long⟩ := element.exists_source_eq
  have positive := List.length_pos_iff.mpr filled
  have stops : Text.StopsRun isSpace (element.source ++ ';' :: rest) := by
    intro c first
    rw [equal] at first
    obtain rfl : '<' = c := Option.some.inj first
    decide
  have opened : Text.after? ['<'] (element.source ++ ';' :: rest) =
      some (content ++ ['>'] ++ ';' :: rest) :=
    Text.after?_eq_some_iff.mpr (by simp [equal])
  have cut : Text.until? ';' (content ++ ['>'] ++ ';' :: rest) = some (content ++ ['>'], rest) := by
    refine Text.until?_eq_some_iff.mpr ⟨rfl, fun member => inside ?_⟩
    rw [equal]
    exact List.mem_cons_of_mem _ member
  have ends : 2 ≤ (content ++ ['>']).length ∧ (content ++ ['>']).getLast? = some '>' := by
    refine ⟨?_, by simp⟩
    simp only [List.length_append, List.length_singleton]
    omega
  simp only [inline?, head?_append indented stops, opened, cut, Option.bind_eq_bind,
    Option.bind_some, if_pos ends, ← equal]

theorem closing?_eq_some_iff {text tag : Text} :
    closing? text = some (tag, rest) ↔ ∃ name gap, tag = Element.closingTag name ∧
      text = Element.closingTag name ++ (gap ++ ')' :: ';' :: rest) ∧ name ≠ [] ∧ '>' ∉ name ∧
      ∀ c ∈ gap, isSpace c = true := by
  constructor
  · intro found
    simp only [closing?, bind, Option.bind_eq_some_iff] at found
    obtain ⟨behind, opened, ⟨name, outside⟩, cut, after, ended, found⟩ := found
    split at found
    · simp at found
    · rename_i filled
      simp only [Option.some.injEq, Prod.mk.injEq] at found
      obtain ⟨rfl, rfl⟩ := found
      obtain ⟨rfl, inside⟩ := Text.until?_eq_some_iff.mp cut
      obtain ⟨gap, rfl, spaces⟩ := Text.exists_run_append (Text.after?_eq_some_iff.mp ended)
      refine ⟨name, gap, rfl, ?_, filled, inside, spaces⟩
      rw [Text.after?_eq_some_iff.mp opened]
      simp [Element.closingTag]
  · rintro ⟨name, gap, rfl, rfl, filled, inside, spaces⟩
    have opened : Text.after? ['<', '/'] (Element.closingTag name ++ (gap ++ ')' :: ';' :: rest)) =
        some (name ++ '>' :: (gap ++ ')' :: ';' :: rest)) :=
      Text.after?_eq_some_iff.mpr (by simp [Element.closingTag])
    have cut : Text.until? '>' (name ++ '>' :: (gap ++ ')' :: ';' :: rest)) =
        some (name, gap ++ ')' :: ';' :: rest) := Text.until?_eq_some_iff.mpr ⟨rfl, inside⟩
    have stops : Text.StopsRun isSpace (')' :: ';' :: rest) := by
      intro c first
      obtain rfl : ')' = c := Option.some.inj first
      decide
    have ended : Text.after? [')', ';'] (')' :: ';' :: rest) = some rest :=
      Text.after?_eq_some_iff.mpr rfl
    simp only [closing?, opened, cut, Text.dropWhile_run spaces stops, ended, Option.bind_eq_bind,
      Option.bind_some, if_neg filled]
    rfl

/-- The markup ends with the first closing tag. -/
theorem throughClosing?_append {tag content gap : Text} (filled : tag ≠ [])
    (inside : '>' ∉ tag) (plain : '<' ∉ content) (spaces : ∀ c ∈ gap, isSpace c = true) :
    throughClosing? (content ++ (Element.closingTag tag ++ (gap ++ ')' :: ';' :: rest))) =
      some (content ++ Element.closingTag tag, rest) := by
  induction content with
  | nil =>
    have closed : closing? (Element.closingTag tag ++ (gap ++ ')' :: ';' :: rest)) =
        some (Element.closingTag tag, rest) :=
      closing?_eq_some_iff.mpr ⟨tag, gap, rfl, rfl, filled, inside, spaces⟩
    simp only [Element.closingTag, List.nil_append, List.cons_append] at closed ⊢
    simp only [throughClosing?, closed]
  | cons c content induction =>
    have different : '<' ≠ c := fun equal => plain (equal ▸ List.mem_cons_self)
    have missed : closing? (c :: (content ++ (Element.closingTag tag ++
        (gap ++ ')' :: ';' :: rest)))) = none := by
      simp [closing?, Text.after?, different]
    have later := induction fun member => plain (List.mem_cons_of_mem c member)
    simp [throughClosing?, missed, later]

/-- Behind the opening tag, a parenthesized statement depends on the next closing tag only. -/
theorem parenthesized?_append {before opening content : Text}
    (indented : ∀ c ∈ indent, isIndent c = true) (opens : ∀ c ∈ before, isSpace c = true)
    (inside : '>' ∉ opening) :
    parenthesized? (indent ++ (keyword ++ ' ' :: '(' ::
        (before ++ '<' :: (opening ++ '>' :: content)))) =
      (throughClosing? content).map fun found =>
        (⟨indent, '<' :: opening ++ '>' :: found.1⟩, found.2) := by
  have stops : Text.StopsRun isSpace ('(' :: (before ++ '<' :: (opening ++ '>' :: content))) := by
    intro c first
    obtain rfl : '(' = c := Option.some.inj first
    decide
  have visible : Text.StopsRun isSpace ('<' :: (opening ++ '>' :: content)) := by
    intro c first
    obtain rfl : '<' = c := Option.some.inj first
    decide
  have opened : ∀ c : Char, ∀ text : Text, Text.after? [c] (c :: text) = some text :=
    fun c text => Text.after?_eq_some_iff.mpr rfl
  have cut : Text.until? '>' (opening ++ '>' :: content) = some (opening, content) :=
    Text.until?_eq_some_iff.mpr ⟨rfl, inside⟩
  simp only [parenthesized?, head?_append indented stops, opened, Text.dropWhile_run opens visible,
    cut, Option.bind_eq_bind, Option.bind_some]
  cases throughClosing? content <;> rfl

theorem parenthesized?_source {tag attributes content before gap : Text}
    (indented : ∀ c ∈ indent, isIndent c = true)
    (readable : Element.Readable ⟨tag, attributes, some content⟩) (plain : '<' ∉ content)
    (opens : ∀ c ∈ before, isSpace c = true) (closes : ∀ c ∈ gap, isSpace c = true) :
    parenthesized? (indent ++ (keyword ++ ' ' :: '(' :: (before ++
        (Element.source ⟨tag, attributes, some content⟩ ++ (gap ++ ')' :: ';' :: rest))))) =
      some (⟨indent, Element.source ⟨tag, attributes, some content⟩⟩, rest) := by
  have outside : '>' ∉ tag := fun member => absurd (readable.wordly _ member) (by decide)
  have text : Element.source ⟨tag, attributes, some content⟩ ++ (gap ++ ')' :: ';' :: rest) =
      '<' :: (tag ++ attributes ++ '>' :: (content ++
        (Element.closingTag tag ++ (gap ++ ')' :: ';' :: rest)))) := by
    simp [Element.source, Element.ending]
  rw [text, parenthesized?_append indented opens (by simp [outside, readable.inside]),
    throughClosing?_append readable.filled outside plain closes]
  simp [Element.source, Element.ending]

end ReturnStatement

end JsxCalls
