import Mathlib.Algebra.BigOperators.Group.List.Basic
import Mathlib.Algebra.GroupWithZero.Nat
import JsxCalls.Proofs.CallWords
import JsxCalls.Proofs.StatementForm

/-!
# Lines that start with a return

The lines of a text that start with the keyword are counted at the line breaks before them. Signs
that stand neither in indentation nor in the keyword cut a text into parts whose counts add up. So a
call has no more such lines than the element it is made from, unless an expression is written out
in it.
-/

namespace JsxCalls

open ReturnStatement

/-! ## Counting line breaks -/

/-- The text starts with the keyword, behind spaces and tabs. -/
def startsReturn (text : Text) : Bool :=
  (Text.after? keyword (text.dropWhile isIndent)).isSome

/-- How many line breaks of a text have a text of the given kind behind them. -/
def breaks (kind : Text → Bool) : Text → Nat
  | [] => 0
  | c :: text => (if c = '\n' ∧ kind text = true then 1 else 0) + breaks kind text

/-- How many lines of a text start with the keyword, behind spaces and tabs. -/
def returnLines (text : Text) : Nat :=
  breaks startsReturn ('\n' :: text)

theorem startsReturn_iff {text : Text} : startsReturn text = true ↔
    ∃ indent behind, text = indent ++ (keyword ++ behind) ∧ ∀ c ∈ indent, isIndent c = true := by
  rw [startsReturn, Option.isSome_iff_exists]
  constructor
  · rintro ⟨behind, found⟩
    obtain ⟨indent, text_eq, indented⟩ := Text.exists_run_append (Text.after?_eq_some_iff.mp found)
    exact ⟨indent, behind, text_eq, indented⟩
  · rintro ⟨indent, behind, rfl, indented⟩
    have stops : Text.StopsRun isIndent (keyword ++ behind) := Text.stopsRun_cons (by decide) _
    rw [Text.dropWhile_run indented stops]
    exact ⟨behind, Text.after?_eq_some_iff.mpr rfl⟩

theorem startsReturn_append {left : Text} (starts : startsReturn left = true) (right : Text) :
    startsReturn (left ++ right) = true := by
  obtain ⟨indent, behind, rfl, indented⟩ := startsReturn_iff.mp starts
  exact startsReturn_iff.mpr ⟨indent, behind ++ right, by simp, indented⟩

section Breaks

variable {kind : Text → Bool}

theorem breaks_cons_of_ne {c : Char} (within : c ≠ '\n') (text : Text) :
    breaks kind (c :: text) = breaks kind text := by
  simp [breaks, within]

theorem breaks_line_append {line : Text} (within : '\n' ∉ line) (text : Text) :
    breaks kind (line ++ text) = breaks kind text := by
  induction line with
  | nil => rfl
  | cons c line induction =>
    rw [List.mem_cons, not_or] at within
    rw [List.cons_append, breaks_cons_of_ne (Ne.symm within.1), induction within.2]

theorem breaks_of_notMem {line : Text} (within : '\n' ∉ line) : breaks kind line = 0 := by
  simpa [breaks] using breaks_line_append within []

theorem breaks_le_of_suffix {part text : Text} (last : part <:+ text) :
    breaks kind part ≤ breaks kind text := by
  obtain ⟨front, rfl⟩ := last
  induction front with
  | nil => exact Nat.le_refl _
  | cons c front induction => exact Nat.le_trans induction (Nat.le_add_left ..)

/-- A bound on the line breaks of two texts is kept when both get the same first character. -/
theorem breaks_cons_le {other : Text → Bool} (count slack : Nat) {c : Char} {text rest : Text}
    (imp : kind text = true → other rest = true)
    (later : breaks kind text + count ≤ breaks other rest + slack) :
    breaks kind (c :: text) + count ≤ breaks other (c :: rest) + slack := by
  have here : (if c = '\n' ∧ kind text = true then 1 else 0) ≤
      if c = '\n' ∧ other rest = true then 1 else 0 := by
    split
    · rename_i starts
      exact Nat.le_of_eq (if_pos ⟨starts.1, imp starts.2⟩).symm
    · exact Nat.zero_le _
  rw [breaks, breaks]
  omega

theorem breaks_mono {other : Text → Bool} (imp : ∀ text, kind text = true → other text = true)
    (text : Text) : breaks kind text ≤ breaks other text := by
  induction text with
  | nil => exact Nat.le_refl _
  | cons c text induction => exact breaks_cons_le 0 0 (imp text) induction

end Breaks

/-- No part of a text has more lines than the text. -/
theorem breaks_add_le (left right : Text) :
    breaks startsReturn left + breaks startsReturn right ≤ breaks startsReturn (left ++ right) := by
  induction left with
  | nil => simp [breaks]
  | cons c left induction =>
    exact breaks_cons_le (breaks startsReturn right) 0
      (fun starts => startsReturn_append starts right)
      induction

theorem breaks_le_of_isInfix {part text : Text} (inside : part <:+: text) :
    breaks startsReturn part ≤ breaks startsReturn text := by
  obtain ⟨before, after, rfl⟩ := inside
  have first := breaks_add_le before part
  have second := breaks_add_le (before ++ part) after
  omega

/-! ## Signs between lines -/

/-- The character stands neither in indentation nor in the keyword. -/
def isStop (c : Char) : Bool :=
  !isIndent c && c ∉ keyword

theorem startsReturn_append_cons {c : Char} (stop : isStop c = true) (left right : Text) :
    startsReturn (left ++ c :: right) = startsReturn left := by
  obtain ⟨visible, other⟩ : isIndent c = false ∧ c ∉ keyword := by simpa [isStop] using stop
  rw [Bool.eq_iff_iff]
  refine ⟨fun starts => ?_, fun starts => startsReturn_append starts _⟩
  obtain ⟨indent, behind, text_eq, indented⟩ := startsReturn_iff.mp starts
  have absent : c ∉ indent ++ keyword := by
    rw [List.mem_append, not_or]
    exact ⟨fun member => by simp [indented c member] at visible, other⟩
  rw [← List.append_assoc] at text_eq
  obtain ⟨between, rfl, -⟩ := Text.exists_append_of_separator absent text_eq
  exact startsReturn_iff.mpr ⟨indent, between, by simp, indented⟩

theorem breaks_append_cons {c : Char} (stop : isStop c = true) (left right : Text) :
    breaks startsReturn (left ++ c :: right) =
      breaks startsReturn left + breaks startsReturn (c :: right) := by
  induction left with
  | nil => simp [breaks]
  | cons d left induction =>
    rw [List.cons_append, breaks, induction, startsReturn_append_cons stop, ← Nat.add_assoc]
    rfl

theorem startsReturn_of_append_singleton {c : Char} (other : c ∉ keyword) {left : Text}
    (starts : startsReturn (left ++ [c]) = true) : startsReturn left = true := by
  obtain ⟨indent, behind, text_eq, indented⟩ := startsReturn_iff.mp starts
  rcases List.eq_nil_or_concat behind with rfl | ⟨kept, last, rfl⟩
  · have split : left ++ [c] = (indent ++ "retur".toList) ++ ['n'] := by
      rw [text_eq, List.append_assoc]
      rfl
    obtain rfl : c = 'n' := List.singleton_inj.mp (List.append_inj_right' split rfl)
    exact absurd (by decide) other
  · have split : left ++ [c] = (indent ++ (keyword ++ kept)) ++ [last] := by simpa using text_eq
    exact startsReturn_iff.mpr ⟨indent, kept, List.append_inj_left' split rfl, indented⟩

theorem breaks_append_singleton {c : Char} (other : c ∉ keyword) (left : Text) :
    breaks startsReturn (left ++ [c]) = breaks startsReturn left := by
  induction left with
  | nil => simp [breaks, startsReturn, Text.after?, keyword]
  | cons d left induction =>
    have same : startsReturn (left ++ [c]) = startsReturn left := by
      rw [Bool.eq_iff_iff]
      exact ⟨startsReturn_of_append_singleton other, fun starts => startsReturn_append starts _⟩
    rw [List.cons_append, breaks, same, induction]
    rfl

/-- White space before a sign starts no return. -/
theorem breaks_spaces_append {spaces : Text} (blank : ∀ c ∈ spaces, isSpace c = true) {c : Char}
    (visible : isSpace c = false) (other : c ≠ 'r') (text : Text) :
    breaks startsReturn (spaces ++ c :: text) = breaks startsReturn (c :: text) := by
  induction spaces with
  | nil => rfl
  | cons d spaces induction =>
    have blanks : ∀ c ∈ spaces, isSpace c = true := fun c member =>
      blank c (List.mem_cons_of_mem d member)
    have starts : ¬ startsReturn (spaces ++ c :: text) = true := by
      intro starts
      obtain ⟨indent, behind, text_eq, indented⟩ := startsReturn_iff.mp starts
      have stops : Text.StopsRun isSpace (keyword ++ behind) := Text.stopsRun_cons (by decide) _
      have runs := congrArg (List.dropWhile isSpace) text_eq
      rw [Text.dropWhile_run blanks (Text.stopsRun_cons visible text), Text.dropWhile_run
        (fun c member => isSpace_of_isIndent (indented c member)) stops] at runs
      exact other (List.cons.inj runs).1
    rw [List.cons_append, breaks, if_neg fun here => starts here.2, Nat.zero_add, induction blanks]

/-! ## Whole lines -/

theorem Text.WholeLines.exists_newline_cons {block : Text} (whole : WholeLines block) :
    ∃ lines, '\n' :: block = lines ++ ['\n'] := by
  rcases whole with rfl | ⟨front, rfl⟩
  · exact ⟨[], rfl⟩
  · exact ⟨'\n' :: front, rfl⟩

theorem returnLines_append {block : Text} (whole : Text.WholeLines block) (text : Text) :
    returnLines (block ++ text) = returnLines block + returnLines text := by
  obtain ⟨lines, equal⟩ := whole.exists_newline_cons
  rw [returnLines, returnLines, ← List.cons_append, equal, List.append_assoc, List.singleton_append,
    breaks_append_cons (by decide), breaks_append_singleton (by decide)]
  rfl

theorem breaks_newline_dropLine_le (kind : Text → Bool) (nothing : kind [] = false) (text : Text) :
    breaks kind ('\n' :: Text.dropLine text) ≤ breaks kind text := by
  by_cases last : Text.dropLine text = []
  · rw [last, breaks, if_neg fun here => by simp [nothing] at here]
    exact Nat.zero_le _
  · obtain ⟨line, -, split⟩ := Text.exists_eq_append_dropLine last
    exact breaks_le_of_suffix ⟨line, split.symm⟩

/-! ## Literals and attributes -/

theorem startsReturn_of_escapeQuotes {escaped : Bool} {text : Text}
    (starts : startsReturn (Text.escapeQuotes escaped text) = true) : startsReturn text = true := by
  obtain ⟨indent, behind, text_eq, indented⟩ := startsReturn_iff.mp starts
  have plain : '\\' ∉ indent ++ keyword := by
    rw [List.mem_append, not_or]
    exact ⟨fun member => absurd (indented _ member) (by decide), by decide⟩
  have found : indent ++ keyword <+: Text.escapeQuotes escaped text :=
    ⟨behind, by rw [text_eq, List.append_assoc]⟩
  obtain ⟨rest, rfl⟩ := Text.prefix_of_escapeQuotes plain found
  exact startsReturn_iff.mpr ⟨indent, rest, by simp, indented⟩

theorem breaks_escapeQuotes_le (escaped : Bool) (text : Text) :
    breaks startsReturn (Text.escapeQuotes escaped text) ≤ breaks startsReturn text := by
  induction text generalizing escaped with
  | nil => exact Nat.le_refl _
  | cons c text induction =>
    rw [Text.escapeQuotes]
    split
    · rename_i quote
      rw [breaks_cons_of_ne (by decide), quote.1, breaks_cons_of_ne (by decide),
        breaks_cons_of_ne (by decide)]
      exact induction false
    · exact breaks_cons_le 0 0 startsReturn_of_escapeQuotes (induction _)

theorem breaks_quoted (text : Text) :
    breaks startsReturn ('\'' :: text ++ ['\'']) = breaks startsReturn text := by
  rw [List.cons_append, breaks_cons_of_ne (by decide), breaks_append_singleton (by decide)]

theorem breaks_singleQuoted_le (text : Text) :
    breaks startsReturn (Text.singleQuoted text) ≤ breaks startsReturn text := by
  rw [Text.singleQuoted, breaks_quoted]
  exact breaks_escapeQuotes_le false text

/-- How many lines that start with the keyword come in with the expression behind a placeholder. -/
def WrittenValue.returnsIn (table : Option ExpressionTable) : WrittenValue → Nat
  | .masked token =>
    match table.bind (·.resolve? token) with
    | some expression => breaks startsReturn expression.body
    | none => 0
  | _ => 0

section Attributes

variable (table : Option ExpressionTable)

theorem AttributeValue.breaks_ofExpression_le (code : Text) :
    breaks startsReturn (AttributeValue.ofExpression code).render ≤ breaks startsReturn code := by
  rw [ofExpression]
  split
  · have own : breaks startsReturn (AttributeValue.implicit).render = 0 := by decide
    rw [own]
    exact Nat.zero_le _
  · exact Nat.le_refl _

theorem WrittenValue.breaks_render_le (written : WrittenValue) :
    breaks startsReturn (written.value table).render ≤
      breaks startsReturn written.source + written.returnsIn table := by
  -- The text of a value is a part of the value as it stands.
  have inside : ∀ (first second last : Char) (text : Text), breaks startsReturn text ≤
      breaks startsReturn (first :: second :: text ++ [last]) := fun first second last text =>
    breaks_le_of_isInfix ⟨[first, second], [last], rfl⟩
  cases written with
  | braced body => exact Nat.le_trans (AttributeValue.breaks_ofExpression_le body) (inside ..)
  | doubleQuoted text => exact Nat.le_trans (breaks_singleQuoted_le text) (inside ..)
  | singleQuoted text => exact Nat.le_trans (breaks_singleQuoted_le text) (inside ..)
  | masked token =>
    cases resolved : table.bind (·.resolve? token) with
    | some expression =>
      simp only [value, returnsIn, resolved]
      exact Nat.le_trans (AttributeValue.breaks_ofExpression_le expression.body)
        (Nat.le_add_left ..)
    | none =>
      simp only [value, source, returnsIn, resolved]
      exact Nat.le_of_eq (breaks_cons_of_ne (by decide) token).symm
  | absent =>
    have own : breaks startsReturn "true".toList = 0 := by decide
    exact Nat.le_of_eq own

theorem Attribute.breaks_key_le (attr : Attribute) :
    breaks startsReturn attr.key ≤ breaks startsReturn attr.name := by
  unfold Attribute.key
  split
  · exact Nat.le_trans (Nat.le_of_eq (breaks_of_notMem (by decide))) (Nat.zero_le _)
  · split
    · exact Nat.le_trans (Nat.le_of_eq (breaks_of_notMem (by decide))) (Nat.zero_le _)
    · split
      · exact Nat.le_of_eq (breaks_quoted attr.name)
      · exact Nat.le_refl _

theorem WrittenAttribute.breaks_entry_le (written : WrittenAttribute) :
    breaks startsReturn (written.resolve table).entry ≤
      breaks startsReturn written.source + written.value.returnsIn table := by
  have text : (written.resolve table).entry = (written.resolve table).key ++
      ':' :: ' ' :: (written.value.value table).render := by
    simp [Attribute.entry, WrittenAttribute.resolve]
  have key := (written.resolve table).breaks_key_le
  have value := written.value.breaks_render_le table
  have parts := breaks_add_le written.name written.value.source
  rw [text, breaks_append_cons (by decide), breaks_cons_of_ne (by decide),
    breaks_cons_of_ne (by decide), WrittenAttribute.source]
  change breaks startsReturn (written.resolve table).key ≤ breaks startsReturn written.name at key
  omega

theorem breaks_entries_le (attributes : List WrittenAttribute) :
    breaks startsReturn (List.intercalate ", ".toList
        ((attributes.map (WrittenAttribute.resolve table)).map Attribute.entry)) ≤
      (attributes.map fun written =>
        breaks startsReturn written.source + written.value.returnsIn table).sum := by
  induction attributes with
  | nil => exact Nat.le_refl _
  | cons written attributes induction =>
    have first := written.breaks_entry_le table
    cases attributes with
    | nil => simpa using first
    | cons next attributes =>
      have text : List.intercalate ", ".toList (((written :: next :: attributes).map
            (WrittenAttribute.resolve table)).map Attribute.entry) =
          (written.resolve table).entry ++ ',' :: ' ' :: List.intercalate ", ".toList
            (((next :: attributes).map (WrittenAttribute.resolve table)).map Attribute.entry) := by
        simp [List.intercalate]
      rw [text, breaks_append_cons (by decide), breaks_cons_of_ne (by decide),
        breaks_cons_of_ne (by decide), List.map_cons (l := next :: attributes), List.sum_cons]
      exact Nat.add_le_add first induction

theorem sum_items_le (list : Text) :
    ((WrittenAttribute.pattern.items list).map fun written =>
      breaks startsReturn written.source).sum ≤ breaks startsReturn list := by
  cases list with
  | nil => simp [Pattern.items_nil]
  | cons c text =>
    cases matched : WrittenAttribute.pattern.start? (c :: text) with
    | none =>
      rw [Pattern.items_of_none matched]
      have later := sum_items_le text
      have whole := breaks_add_le [c] text
      rw [List.singleton_append] at whole
      omega
    | some result =>
      obtain ⟨written, rest⟩ := result
      have shorter : rest.length < (c :: text).length := WrittenAttribute.pattern.shorter matched
      have later := sum_items_le rest
      have parts := breaks_add_le written.source rest
      have start : WrittenAttribute.start? (c :: text) = some (written, rest) := matched
      rw [Pattern.items_of_some matched, List.map_cons, List.sum_cons,
        (WrittenAttribute.append_of_start? start).1]
      omega
termination_by list.length
decreasing_by
  · exact Nat.lt_succ_self _
  · exact shorter

/-- The lines that start with the keyword and come in with the expressions of an attribute list. -/
def returnsInList (list : Text) : Nat :=
  ((WrittenAttribute.pattern.items list).map fun written => written.value.returnsIn table).sum

theorem breaks_props_le (list : Text) : breaks startsReturn (propsOfList table list) ≤
    breaks startsReturn list + returnsInList table list := by
  have entries := breaks_entries_le table (WrittenAttribute.pattern.items list)
  have sources := sum_items_le list
  rw [List.sum_map_add] at entries
  rw [propsOfList_eq, parseAttributes, returnsInList]
  generalize WrittenAttribute.pattern.items list = attributes at entries sources
  cases attributes with
  | nil =>
    have own : breaks startsReturn "null".toList = 0 := by decide
    exact Nat.le_trans (Nat.le_of_eq own) (Nat.zero_le _)
  | cons written attributes =>
    have text : renderProps ((written :: attributes).map (WrittenAttribute.resolve table)) =
        '{' :: ' ' :: (List.intercalate ", ".toList (((written :: attributes).map
          (WrittenAttribute.resolve table)).map Attribute.entry) ++ [' '] ++ ['}']) := by
      simp [renderProps]
    rw [text, breaks_cons_of_ne (by decide), breaks_cons_of_ne (by decide),
      breaks_append_singleton (by decide), breaks_append_singleton (by decide)]
    omega

theorem exists_props_cons (list : Text) : ∃ c text, propsOfList table list = c :: text ∧
    isSpace c = false ∧ c ≠ 'r' := by
  rcases props_cases table list with word | ⟨text, opened⟩
  · exact ⟨'n', "ull".toList, word, by decide, by decide⟩
  · exact ⟨'{', text, opened, by decide, by decide⟩

end Attributes

/-! ## Calls -/

theorem ElementCall.breaks_behindDot {call : ElementCall} {indent unit : Text}
    (blank : ∀ c ∈ indent, isSpace c = true) (spaces : ∀ c ∈ unit, isSpace c = true)
    (within : '\n' ∉ call.tag)
    (opened : ∃ c text, call.props = c :: text ∧ isSpace c = false ∧ c ≠ 'r')
    (quoted : ∀ children ∈ call.children, ∃ text, children = '\'' :: text) :
    breaks startsReturn (call.behindDot indent unit) = breaks startsReturn call.props +
      (call.children.map (breaks startsReturn)).getD 0 := by
  obtain ⟨receiver, tag, props, children⟩ := call
  obtain ⟨first, others, rfl, visible, other⟩ := opened
  have function : '\n' ∉ "createElement".toList := by decide
  cases children with
  | none =>
    rw [behindDot, breaks_line_append function, breaks_cons_of_ne (by decide),
      breaks_cons_of_ne (by decide), breaks_line_append within, breaks_cons_of_ne (by decide),
      breaks_cons_of_ne (by decide), breaks_cons_of_ne (by decide),
      breaks_append_singleton (by decide)]
    rfl
  | some children =>
    obtain ⟨text, rfl⟩ := quoted children rfl
    -- Each argument stands behind a line break and white space.
    have line : ∀ c text, isSpace c = false → c ≠ 'r' →
        breaks startsReturn ('\n' :: (indent ++ (unit ++ c :: text))) =
          breaks startsReturn (c :: text) := by
      intro c text visible other
      have blanks : ∀ d ∈ '\n' :: (indent ++ unit), isSpace d = true := by
        intro d member
        rcases List.mem_cons.mp member with rfl | member
        · decide
        · exact (List.mem_append.mp member).elim (blank d) (spaces d)
      simpa using breaks_spaces_append blanks visible other text
    have last : breaks startsReturn ('\n' :: (indent ++ [')'])) = 0 := by
      have blanks : ∀ d ∈ '\n' :: indent, isSpace d = true := by
        intro d member
        rcases List.mem_cons.mp member with rfl | member
        · decide
        · exact blank d member
      exact breaks_spaces_append blanks (by decide) (by decide) []
    rw [behindDot]
    simp only [List.cons_append]
    rw [breaks_line_append function, breaks_cons_of_ne (by decide),
      line _ _ (by decide) (by decide), breaks_cons_of_ne (by decide),
      breaks_line_append within, breaks_cons_of_ne (by decide),
      breaks_cons_of_ne (by decide), line _ _ visible other, ← List.cons_append,
      breaks_append_cons (by decide), breaks_cons_of_ne (c := ',') (by decide),
      line '\'' _ (by decide) (by decide), ← List.cons_append, breaks_append_cons (by decide), last]
    rfl

/-- A call has no more lines that start with the keyword than the element and the expressions that
are written out in it. -/
theorem Converter.breaks_call_le (converter : Converter) (regular : converter.style.Regular)
    {element : Element} (readable : element.Readable) {indent : Text}
    (blank : ∀ c ∈ indent, isSpace c = true) :
    breaks startsReturn ((converter.call element).render indent converter.style.indentUnit) ≤
      breaks startsReturn element.source + returnsInList converter.table element.attributes := by
  obtain ⟨tag, attributes, children⟩ := element
  have props := breaks_props_le converter.table attributes
  have within : '\n' ∉ tag := fun member => absurd (readable.wordly _ member) (by decide)
  have contents : ((children.bind childrenArgument).map (breaks startsReturn)).getD 0 ≤
      breaks startsReturn (Element.ending tag children) := by
    cases argued : children.bind childrenArgument with
    | none => exact Nat.zero_le _
    | some argument =>
      obtain ⟨content, rfl, argued⟩ := Option.bind_eq_some_iff.mp argued
      obtain ⟨-, rfl⟩ := childrenArgument_eq_some_iff.mp argued
      have inside : Text.trim content <:+: Element.ending tag (some content) :=
        (Text.trim_infix content).trans ⟨['>'], Element.closingTag tag, rfl⟩
      exact Nat.le_trans (breaks_singleQuoted_le _) (breaks_le_of_isInfix inside)
  have source : breaks startsReturn attributes + breaks startsReturn (Element.ending tag children) ≤
      breaks startsReturn (Element.source ⟨tag, attributes, children⟩) := by
    have inside : attributes ++ Element.ending tag children <:+:
        Element.source ⟨tag, attributes, children⟩ := ⟨'<' :: tag, [], by simp [Element.source]⟩
    exact Nat.le_trans (breaks_add_le _ _) (breaks_le_of_isInfix inside)
  have call := ElementCall.breaks_behindDot blank regular.unit within (exists_props_cons _ _)
    (converter.exists_quoted_of_mem_children ⟨tag, attributes, children⟩)
  rw [ElementCall.render_eq, Converter.call,
    breaks_line_append (regular.notMem_receiver (by decide) (by decide)),
    breaks_cons_of_ne (by decide)]
  exact Nat.le_trans (Nat.le_of_eq call) (by dsimp only [Converter.call]; omega)

end JsxCalls
