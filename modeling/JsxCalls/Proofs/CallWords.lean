import JsxCalls.Proofs.Markup
import JsxCalls.Proofs.Occurrence
import JsxCalls.Proofs.Quoting

/-!
# The words of a call

A call is written with few words of its own, and with signs between all its parts. So another word
stands in a call only if it stands in one of the parts: the receiver, the tag, an attribute or the
children.
-/

namespace JsxCalls

/-- The words that a call is written with, whatever it calls. -/
def callWords : List Text :=
  ["createElement", "null", "true", "className", "htmlFor"].map String.toList

/-- A word of letters that is not among the words of every call. -/
structure Foreign (word : Text) : Prop where
  filled : word ≠ []
  letters : ∀ c ∈ word, c.isAlpha = true
  other : ∀ part ∈ callWords, ∃ c ∈ word, c ∉ part

theorem foreign_keyword : Foreign ReturnStatement.keyword where
  filled := by decide
  letters := List.all_eq_true.mp (by decide)
  other := by
    intro part member
    have others : part = "null".toList ∨ part = "className".toList ∨ part = "true".toList ∨
        'u' ∉ part := by
      revert part
      decide
    rcases others with rfl | rfl | rfl | outside
    · exact ⟨'r', by decide, by decide⟩
    · exact ⟨'r', by decide, by decide⟩
    · exact ⟨'n', by decide, by decide⟩
    · exact ⟨'u', by decide, outside⟩

theorem foreign_mark : Foreign Placeholder.mark where
  filled := by decide
  letters := List.all_eq_true.mp (by decide)
  other part member := by
    have outside : ∀ part ∈ callWords, 'P' ∉ part := by decide
    exact ⟨'P', by decide, outside part member⟩

/-- Calls are written as code: the receiver is a path of names, and indentation is white space. -/
structure CallStyle.Regular (style : CallStyle) : Prop where
  receiver : ∀ c ∈ style.receiver, isWord c = true ∨ c = '.'
  unit : ∀ c ∈ style.indentUnit, isSpace c = true

theorem CallStyle.Regular.notMem_receiver {style : CallStyle} (regular : style.Regular) {c : Char}
    (outside : isWord c = false) (other : c ≠ '.') : c ∉ style.receiver := by
  intro member
  rcases regular.receiver c member with wordly | dot
  · simp [outside] at wordly
  · exact other dot

/-- A call begins with a name or a dot. -/
theorem CallStyle.Regular.exists_cons {style : CallStyle} (regular : style.Regular) (rest : Text) :
    ∃ c others, style.receiver ++ '.' :: rest = c :: others ∧ (isWord c = true ∨ c = '.') := by
  cases equal : style.receiver with
  | nil => exact ⟨'.', rest, rfl, .inr rfl⟩
  | cons c others => exact ⟨c, others ++ '.' :: rest, rfl, regular.receiver c (by simp [equal])⟩

/-- Calls are written in a way that no source can be confused by: the receiver holds neither an
opening bracket nor the mark of placeholders, and indentation is white space. -/
structure CallStyle.Clear (style : CallStyle) : Prop where
  bracketless : '<' ∉ style.receiver
  unmarked : ¬ Placeholder.mark <:+: style.receiver
  unit : ∀ c ∈ style.indentUnit, isSpace c = true

/-- Calls are written as code, and the receiver does not hold the mark of placeholders. -/
structure CallStyle.Plain (style : CallStyle) : Prop extends style.Regular where
  unmarked : ¬ Placeholder.mark <:+: style.receiver

theorem CallStyle.plain_default : CallStyle.Plain {} := by
  have path : ("React".toList.all fun c => isWord c || c = '.') = true := by decide
  refine ⟨⟨?_, List.all_eq_true.mp (by decide)⟩, Text.not_infix_of_holds_eq_false (by decide)⟩
  simpa using List.all_eq_true.mp path

theorem CallStyle.Plain.clear {style : CallStyle} (plain : style.Plain) : style.Clear :=
  ⟨plain.notMem_receiver (by decide) (by decide), plain.unmarked, plain.unit⟩

theorem isAlpha_of_isSpace {c : Char} (space : isSpace c = true) : c.isAlpha = false := by
  have outside := of_isSpace (fun c => !c.isAlpha) space (by decide +kernel)
  simpa using outside

theorem isSpace_of_isIndent {c : Char} (indented : isIndent c = true) : isSpace c = true := by
  have cases : c = ' ' ∨ c = '\t' := by simpa [isIndent] using indented
  rcases cases with rfl | rfl <;> decide

namespace Foreign

variable {word left right : Text} (foreign : Foreign word)
include foreign

theorem notMem {c : Char} (sign : c.isAlpha = false) : c ∉ word := by
  intro member
  simp [foreign.letters c member] at sign

theorem append_cons_iff {c : Char} (sign : c.isAlpha = false) :
    word <:+: left ++ c :: right ↔ word <:+: left ∨ word <:+: right :=
  Text.infix_append_cons_iff (foreign.notMem sign)

theorem cons_iff {c : Char} (sign : c.isAlpha = false) :
    word <:+: c :: right ↔ word <:+: right :=
  Text.infix_cons_iff_of_notMem (foreign.notMem sign) foreign.filled

theorem not_infix_callWord {part : Text} (member : part ∈ callWords) : ¬ word <:+: part := by
  intro found
  obtain ⟨c, inside, outside⟩ := foreign.other part member
  exact outside (found.mem inside)

theorem signs_append_iff (signs : ∀ c ∈ left, c.isAlpha = false) :
    word <:+: left ++ right ↔ word <:+: right := by
  induction left with
  | nil => rfl
  | cons c left induction =>
    rw [List.cons_append, foreign.cons_iff (signs c List.mem_cons_self)]
    exact induction fun d member => signs d (List.mem_cons_of_mem c member)

theorem not_infix_signs (signs : ∀ c ∈ left, c.isAlpha = false) : ¬ word <:+: left := by
  intro found
  have nothing : word <:+: left ++ [] ↔ word <:+: [] := foreign.signs_append_iff signs
  rw [List.append_nil, List.infix_nil] at nothing
  exact foreign.filled (nothing.mp found)

/-! ## Attributes -/

theorem infix_of_singleQuoted {text : Text} (found : word <:+: Text.singleQuoted text) :
    word <:+: text := by
  rw [Text.singleQuoted, List.cons_append, foreign.cons_iff (by decide),
    foreign.append_cons_iff (by decide)] at found
  rcases found with inside | nothing
  · exact Text.infix_of_escapeQuotes (foreign.notMem (by decide)) inside
  · exact absurd (List.infix_nil.mp nothing) foreign.filled

theorem infix_of_key {name : Text} {value : AttributeValue}
    (found : word <:+: Attribute.key ⟨name, value⟩) : word <:+: name := by
  unfold Attribute.key at found
  split at found
  · exact absurd found (foreign.not_infix_callWord (by decide))
  · split at found
    · exact absurd found (foreign.not_infix_callWord (by decide))
    · split at found
      · rw [List.cons_append, foreign.cons_iff (by decide),
          foreign.append_cons_iff (by decide)] at found
        rcases found with inside | nothing
        · exact inside
        · exact absurd (List.infix_nil.mp nothing) foreign.filled
      · exact found

theorem infix_of_entry {attr : Attribute} (found : word <:+: attr.entry) :
    word <:+: attr.name ∨ word <:+: attr.value.render := by
  have text : attr.entry = attr.key ++ ':' :: ' ' :: attr.value.render := by
    simp [Attribute.entry]
  rw [text, foreign.append_cons_iff (by decide), foreign.cons_iff (by decide)] at found
  rcases found with inKey | inValue
  · exact .inl (foreign.infix_of_key inKey)
  · exact .inr inValue

theorem exists_of_infix_renderProps {attributes : List Attribute}
    (found : word <:+: renderProps attributes) : ∃ attr ∈ attributes, word <:+: attr.entry := by
  have joined : ∀ attributes : List Attribute,
      word <:+: List.intercalate ", ".toList (attributes.map Attribute.entry) →
        ∃ attr ∈ attributes, word <:+: attr.entry := by
    intro attributes found
    induction attributes with
    | nil => exact absurd (List.infix_nil.mp found) foreign.filled
    | cons attr attributes induction =>
      cases attributes with
      | nil => exact ⟨attr, List.mem_cons_self, by simpa using found⟩
      | cons next attributes =>
        have text : List.intercalate ", ".toList
            ((attr :: next :: attributes).map Attribute.entry) =
            attr.entry ++ ',' :: ' ' ::
              List.intercalate ", ".toList ((next :: attributes).map Attribute.entry) := by
          simp [List.intercalate]
        rw [text, foreign.append_cons_iff (by decide), foreign.cons_iff (by decide)] at found
        rcases found with here | later
        · exact ⟨attr, List.mem_cons_self, here⟩
        · obtain ⟨other, member, inside⟩ := induction later
          exact ⟨other, List.mem_cons_of_mem _ member, inside⟩
  cases attributes with
  | nil => exact absurd found (foreign.not_infix_callWord (by decide))
  | cons attr attributes =>
    apply joined
    have text : renderProps (attr :: attributes) = '{' :: ' ' ::
        (List.intercalate ", ".toList ((attr :: attributes).map Attribute.entry) ++
          [' ', '}']) := rfl
    rw [text, foreign.cons_iff (by decide), foreign.cons_iff (by decide),
      foreign.append_cons_iff (by decide)] at found
    exact found.resolve_right (foreign.not_infix_signs (by simp))

end Foreign

/-! ## Calls -/

/-- Props begin with a sign, or they are a single word. -/
theorem props_cases (table : Option ExpressionTable) (list : Text) :
    propsOfList table list = "null".toList ∨ ∃ text, propsOfList table list = '{' :: text := by
  rw [propsOfList_eq]
  cases parseAttributes table list with
  | nil => exact .inl rfl
  | cons attr attributes => exact .inr ⟨_, rfl⟩

theorem childrenArgument_eq_some_iff {children argument : Text} :
    childrenArgument children = some argument ↔
      Text.trim children ≠ [] ∧ argument = Text.singleQuoted (Text.trim children) := by
  simp only [childrenArgument]
  split
  · rename_i blank
    simp [blank]
  · rename_i filled
    rw [Option.some.injEq, eq_comm]
    exact (and_iff_right filled).symm

theorem Converter.exists_quoted_of_mem_children (converter : Converter) (element : Element) :
    ∀ children ∈ (converter.call element).children, ∃ text, children = '\'' :: text := by
  intro children member
  obtain ⟨content, -, argued⟩ := Option.bind_eq_some_iff.mp member
  obtain ⟨-, rfl⟩ := childrenArgument_eq_some_iff.mp argued
  exact ⟨_, rfl⟩

/-- What stands behind the receiver of a call and the dot. -/
def ElementCall.behindDot (call : ElementCall) (indent unit : Text) : Text :=
  match call.children with
  | none => "createElement".toList ++ '(' :: '\'' ::
      (call.tag ++ '\'' :: ',' :: ' ' :: (call.props ++ [')']))
  | some children => "createElement".toList ++ '(' :: '\n' :: (indent ++ (unit ++ '\'' ::
      (call.tag ++ '\'' :: ',' :: '\n' :: (indent ++ (unit ++ (call.props ++ ',' :: '\n' ::
        (indent ++ (unit ++ (children ++ '\n' :: (indent ++ [')']))))))))))

theorem ElementCall.render_eq (call : ElementCall) (indent unit : Text) :
    call.render indent unit = call.receiver ++ '.' :: call.behindDot indent unit := by
  obtain ⟨receiver, tag, props, children⟩ := call
  cases children <;> simp [render, behindDot]

/-- Behind the keyword of a written call stands the receiver, which is no markup. -/
theorem CallStyle.Regular.inline?_receiver_eq_none {style : CallStyle} (regular : style.Regular)
    {indent : Text} (indented : ∀ c ∈ indent, isIndent c = true) (rest : Text) :
    ReturnStatement.inline?
      (indent ++ (ReturnStatement.keyword ++ ' ' :: (style.receiver ++ '.' :: rest))) = none := by
  obtain ⟨c, others, text, named⟩ := regular.exists_cons rest
  have space : isSpace c = false := by
    cases isSpace_c : isSpace c with
    | false => rfl
    | true =>
      rcases named with wordly | rfl
      · simp [isWord_of_isSpace isSpace_c] at wordly
      · exact absurd isSpace_c (by decide)
  have bracket : '<' ≠ c := by
    rintro rfl
    rcases named with wordly | dot
    · exact absurd wordly (by decide)
    · exact absurd dot (by decide)
  rw [text]
  simp [ReturnStatement.inline?,
    ReturnStatement.head?_append indented (Text.stopsRun_cons space others), Text.after?, bracket]

theorem Foreign.infix_of_behindDot {word : Text} (foreign : Foreign word) {call : ElementCall}
    {indent unit : Text} (indented : ∀ c ∈ indent, c.isAlpha = false)
    (unit_signs : ∀ c ∈ unit, c.isAlpha = false) (found : word <:+: call.behindDot indent unit) :
    word <:+: call.tag ∨ word <:+: call.props ∨ ∃ children ∈ call.children, word <:+: children := by
  have own : ¬ word <:+: "createElement".toList := foreign.not_infix_callWord (by decide)
  have none : ¬ word <:+: [] := fun found => foreign.filled (List.infix_nil.mp found)
  have line : ∀ rest, word <:+: indent ++ (unit ++ rest) ↔ word <:+: rest := fun rest =>
    (foreign.signs_append_iff indented).trans (foreign.signs_append_iff unit_signs)
  rw [ElementCall.behindDot] at found
  split at found
  · rename_i equal
    simp (disch := decide) only [foreign.append_cons_iff, foreign.cons_iff, own, none] at found
    simpa [equal] using found
  · rename_i children equal
    simp (disch := decide) only [foreign.append_cons_iff, foreign.cons_iff, own, none, line,
      foreign.not_infix_signs indented] at found
    simpa [equal] using found

end JsxCalls
