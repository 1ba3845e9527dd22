import JsxCalls.Proofs.CallWords
import JsxCalls.Proofs.Spelling

/-!
# Expressions that a call carries

The expressions of an element reach its call in two ways: the body of an attribute's expression is
written at once, and any other expression is restored later where its placeholder stands. Either
way the call carries them in the order in which they stand in the element. An expression of the tag
would be carried once, but stands in a closing tag a second time. Apart from the expressions, the
call has fewer opening brackets than the element.
-/

namespace JsxCalls

open Placeholder

/-! ## Words in order -/

/-- The words stand in the text, one behind the other. -/
def InOrder : List Text → Text → Prop
  | [], _ => True
  | word :: words, text => ∃ before behind, text = before ++ (word ++ behind) ∧ InOrder words behind

namespace InOrder

variable {words others : List Text} {left right : Text}

theorem append_left (ordered : InOrder words right) (front : Text) :
    InOrder words (front ++ right) := by
  cases words with
  | nil => trivial
  | cons word words =>
    obtain ⟨before, behind, rfl, later⟩ := ordered
    exact ⟨front ++ before, behind, by simp, later⟩

theorem append (ordered : InOrder words left) (more : InOrder others right) :
    InOrder (words ++ others) (left ++ right) := by
  induction words generalizing left with
  | nil => exact more.append_left left
  | cons word words induction =>
    obtain ⟨before, behind, rfl, later⟩ := ordered
    exact ⟨before, behind ++ right, by simp, induction later⟩

end InOrder

/-! ## Carrying -/

/-- A character at which two parts of a text are joined: it is part of no word and opens no tag. -/
def IsJoint (c : Char) : Prop :=
  isWord c = false ∧ c ≠ '<'

instance decidableIsJoint (c : Char) : Decidable (IsJoint c) :=
  inferInstanceAs (Decidable (_ ∧ _))

theorem isJoint_of_isSpace {c : Char} (space : isSpace c = true) : IsJoint c :=
  ⟨isWord_of_isSpace space, fun equal => absurd space (by rw [equal]; decide)⟩

theorem isJoint_of_isSpace_or {c d : Char} (joint : IsJoint d) (either : isSpace c = true ∨ c = d) :
    IsJoint c := by
  rcases either with space | rfl
  · exact isJoint_of_isSpace space
  · exact joint

/-- The number of opening brackets in the bodies of the numbered expressions. -/
def ExpressionTable.openings (table : ExpressionTable) : List Nat → Nat
  | [] => 0
  | number :: numbers => (table.bodyAt number).count '<' + table.openings numbers

/-- The text is spelled with some of the numbers. When it is restored the bodies of all the numbered
expressions stand in it in order, and apart from them at most so many opening brackets. -/
structure Carries (table : ExpressionTable) (numbers : List Nat) (openings : Nat) (text : Text) :
    Prop where
  whole : ∃ kept, Spells table.entries.length kept text ∧ kept ⊆ numbers
  ordered : InOrder (numbers.map table.bodyAt) (table.restore text)
  bounded : (table.restore text).count '<' ≤ openings + table.openings numbers

variable {table : ExpressionTable}

@[simp]
theorem ExpressionTable.openings_nil : table.openings [] = 0 := rfl

@[simp]
theorem ExpressionTable.openings_cons (number : Nat) (numbers : List Nat) :
    table.openings (number :: numbers) =
      (table.bodyAt number).count '<' + table.openings numbers := rfl

@[simp]
theorem ExpressionTable.openings_append (numbers others : List Nat) :
    table.openings (numbers ++ others) = table.openings numbers + table.openings others := by
  induction numbers with
  | nil => simp
  | cons number numbers induction => simp [induction, Nat.add_assoc]

theorem ExpressionTable.openings_le {numbers others : List Nat} (fewer : numbers.Sublist others) :
    table.openings numbers ≤ table.openings others := by
  induction fewer with
  | slnil => exact Nat.le_refl _
  | cons number _ induction =>
    rw [table.openings_cons]
    omega
  | cons_cons number _ induction =>
    rw [table.openings_cons, table.openings_cons]
    omega

namespace Carries

variable {numbers others : List Nat} {few more : Nat} {left right : Text}

theorem mono (carries : Carries table numbers few left) (fewer : few ≤ more) :
    Carries table numbers more left :=
  ⟨carries.whole, carries.ordered, by have := carries.bounded; omega⟩

theorem append_cons {c : Char} (joint : IsJoint c) (first : Carries table numbers few left)
    (second : Carries table others more right) :
    Carries table (numbers ++ others) (few + more) (left ++ c :: right) where
  whole := by
    obtain ⟨kept, spells, known⟩ := first.whole
    obtain ⟨keptToo, spellsToo, knownToo⟩ := second.whole
    exact ⟨kept ++ keptToo,
      (spells_append_cons_iff joint.1).mpr ⟨kept, keptToo, rfl, spells, spellsToo⟩,
      List.append_subset.mpr ⟨List.subset_append_of_subset_left others known,
        List.subset_append_of_subset_right numbers knownToo⟩⟩
  ordered := by
    rw [List.map_append, table.restore_append_cons joint.1]
    exact first.ordered.append (second.ordered.append_left [c])
  bounded := by
    have here := first.bounded
    have later := second.bounded
    rw [table.restore_append_cons joint.1, List.count_append, List.count_cons_of_ne joint.2,
      table.openings_append]
    omega

theorem cons {c : Char} (joint : IsJoint c) (carries : Carries table numbers few right) :
    Carries table numbers few (c :: right) where
  whole := by
    obtain ⟨kept, spells, known⟩ := carries.whole
    exact ⟨kept, (spells_cons_iff joint.1).mpr spells, known⟩
  ordered := by
    rw [table.restore_cons joint.1]
    exact carries.ordered.append_left [c]
  bounded := by
    rw [table.restore_cons joint.1, List.count_cons_of_ne joint.2]
    exact carries.bounded

theorem joints_append {joints : Text} (all : ∀ c ∈ joints, IsJoint c)
    (carries : Carries table numbers few right) : Carries table numbers few (joints ++ right) := by
  induction joints with
  | nil => exact carries
  | cons c joints induction =>
    have later := induction fun d member => all d (List.mem_cons_of_mem c member)
    exact later.cons (all c List.mem_cons_self)

/-- Expressions without a trace can be carried anywhere. -/
theorem append_nil (first : Carries table numbers few left)
    (second : Carries table others more []) :
    Carries table (numbers ++ others) few left where
  whole := by
    obtain ⟨kept, spells, known⟩ := first.whole
    exact ⟨kept, spells, List.subset_append_of_subset_left others known⟩
  ordered := by
    have both := first.ordered.append second.ordered
    rwa [table.restore_nil, List.append_nil, ← List.map_append] at both
  bounded := by
    have here := first.bounded
    rw [table.openings_append]
    omega

theorem of_unmarked {text : Text} (unmarked : ¬ mark <:+: text) (plain : '<' ∉ text) :
    Carries table [] 0 text where
  whole := ⟨[], spells_of_unmarked unmarked, List.Subset.refl []⟩
  ordered := trivial
  bounded := by
    rw [ExpressionTable.restore, restoreFrom_eq_self unmarked, List.count_eq_zero.mpr plain]
    exact Nat.zero_le _

theorem nil : Carries table [] 0 [] :=
  of_unmarked (by simp [mark_eq]) List.not_mem_nil

end Carries

theorem inOrder_flatMap (pieces : List (Piece Nat)) :
    InOrder ((numbersIn pieces).map table.bodyAt)
      (pieces.flatMap (Piece.replaced table.sourceAt)) := by
  induction pieces with
  | nil => trivial
  | cons piece pieces induction =>
    cases piece with
    | char c => exact induction.append_left [c]
    | item number =>
      exact ⟨['{'], '}' :: pieces.flatMap (Piece.replaced table.sourceAt),
        by simp [Piece.replaced, ExpressionTable.sourceAt], induction.append_left ['}']⟩

theorem count_flatMap (pieces : List (Piece Nat)) :
    (pieces.flatMap (Piece.replaced table.sourceAt)).count '<' =
      (spell pieces).count '<' + table.openings (numbersIn pieces) := by
  induction pieces with
  | nil => rfl
  | cons piece pieces induction =>
    cases piece with
    | char c =>
      simp only [List.flatMap_cons, Piece.replaced, List.singleton_append, List.count_cons,
        spell_char, numbersIn_char, induction]
      omega
    | item number =>
      have absent : (token number).count '<' = 0 :=
        List.count_eq_zero.mpr (notMem_token_of_isWord (by decide) number)
      simp [Piece.replaced, ExpressionTable.sourceAt, List.count_append, induction, absent]
      omega

theorem carries_true : Carries table [] 0 AttributeValue.implicit.render :=
  .of_unmarked (Text.not_infix_of_holds_eq_false (by decide +kernel)) (by decide)

section Unmarked

variable (unmarked : table.Unmarked)
include unmarked

theorem Spells.count_restore {numbers : List Nat} {text : Text}
    (spells : Spells table.entries.length numbers text) :
    (table.restore text).count '<' = text.count '<' + table.openings numbers := by
  obtain ⟨known, pieces, rfl, rfl, clean⟩ := spells
  rw [(restore_spell unmarked clean known).1, count_flatMap]

theorem Spells.carries {numbers : List Nat} {text : Text}
    (spells : Spells table.entries.length numbers text) :
    Carries table numbers (text.count '<') text where
  whole := ⟨numbers, spells, List.Subset.refl numbers⟩
  ordered := by
    obtain ⟨known, pieces, rfl, rfl, clean⟩ := spells
    rw [(restore_spell unmarked clean known).1]
    exact inOrder_flatMap pieces
  bounded := Nat.le_of_eq (spells.count_restore unmarked)

theorem carries_body (number : Nat) : Carries table [number] 0 (table.bodyAt number) where
  whole := ⟨[], spells_of_unmarked (unmarked number), List.nil_subset _⟩
  ordered := by
    rw [ExpressionTable.restore, restoreFrom_eq_self (unmarked number)]
    exact ⟨[], [], by simp, trivial⟩
  bounded := by
    rw [ExpressionTable.restore, restoreFrom_eq_self (unmarked number)]
    simp

/-! ## Attributes -/

/-- Nothing is left of an expression with nothing between its braces. -/
theorem carries_ofExpression_body (number : Nat) :
    Carries table [number] 0 (AttributeValue.ofExpression (table.bodyAt number)).render := by
  rw [AttributeValue.ofExpression]
  split
  · rename_i empty
    have body := carries_body unmarked number
    rw [empty] at body
    exact carries_true.append_nil body
  · exact carries_body unmarked number

theorem Spells.carries_ofExpression {numbers : List Nat} {code : Text}
    (spells : Spells table.entries.length numbers code) :
    Carries table numbers (code.count '<') (AttributeValue.ofExpression code).render := by
  rw [AttributeValue.ofExpression]
  split
  · rename_i empty
    rw [empty, spells_nil_iff] at spells
    subst spells
    exact carries_true.mono (Nat.zero_le _)
  · exact spells.carries unmarked

end Unmarked

theorem escapeQuotes_token (escaped : Bool) (index : Nat) (text : Text) :
    Text.escapeQuotes escaped (token index ++ text) =
      token index ++ Text.escapeQuotes false text := by
  have plain : '\'' ∉ token index := fun member =>
    absurd (isWord_of_mem_token member) (by decide)
  have ends : token index =
      ('_' :: '_' :: (mark ++ '_' :: (Text.ofNat index ++ ['_']))) ++ ['_'] := by
    simp [token_eq]
  have flag : Text.escapesNext escaped (token index) = false := by
    rw [ends]
    exact Text.escapesNext_concat escaped _ (by decide)
  rw [Text.escapeQuotes_append, Text.escapeQuotes_eq_self plain, flag]

/-- In a masked text, quotes are escaped around the placeholders. -/
theorem escapeQuotes_spell (escaped : Bool) (pieces : List (Piece Nat)) :
    Text.escapeQuotes escaped (spell pieces) = spell (escapePieces escaped pieces) := by
  fun_induction escapePieces escaped pieces with
  | case1 escaped => rfl
  | case2 escaped c pieces bare induction => simp [Text.escapeQuotes, bare, induction]
  | case3 escaped c pieces kept induction => simp [Text.escapeQuotes, kept, induction]
  | case4 escaped number pieces induction =>
    rw [spell_item, escapeQuotes_token, induction, spell_item]

theorem numbersIn_escapePieces (escaped : Bool) (pieces : List (Piece Nat)) :
    numbersIn (escapePieces escaped pieces) = numbersIn pieces := by
  fun_induction escapePieces escaped pieces with
  | case1 escaped => rfl
  | case2 escaped c pieces bare induction => simp [induction]
  | case3 escaped c pieces kept induction => simp [induction]
  | case4 escaped number pieces induction => simp [induction]

/-- A backslash before a quote comes into no placeholder. -/
theorem Spells.escapeQuotes {count : Nat} {numbers : List Nat} {text : Text}
    (spells : Spells count numbers text) (escaped : Bool) :
    Spells count numbers (Text.escapeQuotes escaped text) := by
  obtain ⟨known, pieces, rfl, rfl, clean⟩ := spells
  exact ⟨known, escapePieces escaped pieces, (escapeQuotes_spell escaped pieces).symm,
    numbersIn_escapePieces escaped pieces,
    fun found => clean (infix_of_infix_escapePieces (by decide) found)⟩

theorem Spells.singleQuoted {count : Nat} {numbers : List Nat} {text : Text}
    (spells : Spells count numbers text) : Spells count numbers (Text.singleQuoted text) := by
  rw [Text.singleQuoted, List.cons_append, spells_cons_iff (by decide),
    spells_append_cons_iff (by decide)]
  exact ⟨numbers, [], by simp, spells.escapeQuotes false, spells_nil_iff.mpr rfl⟩

theorem Text.count_singleQuoted (text : Text) : (singleQuoted text).count '<' = text.count '<' := by
  have escaped : ∀ (text : Text) (escaped : Bool),
      (escapeQuotes escaped text).count '<' = text.count '<' := by
    intro text
    induction text with
    | nil => intro escaped; rfl
    | cons c text induction =>
      intro escaped
      rw [escapeQuotes]
      split <;> simp [List.count_cons, induction]
  simp [singleQuoted, List.count_append, escaped]

theorem Spells.exists_of_delimited {numbers : List Nat} {opening closing : Char}
    {body rest written : Text}
    (spells : Spells table.entries.length numbers ('=' :: opening :: body ++ [closing] ++ rest))
    (opens : isWord opening = false) (closes : isWord closing = false)
    {openings : Nat} (carried : ∀ inside, Spells table.entries.length inside body →
      Carries table inside openings written) :
    ∃ first second, numbers = first ++ second ∧ Carries table first openings written ∧
      Spells table.entries.length second rest := by
  rw [List.append_assoc, List.cons_append, List.cons_append, spells_cons_iff (by decide),
    spells_cons_iff opens] at spells
  obtain ⟨first, second, equal, inside, behind⟩ := (spells_append_cons_iff closes).mp spells
  exact ⟨first, second, equal, carried first inside, behind⟩

theorem WrittenValue.exists_of_start?_masked {text token rest : Text}
    (found : start? text = some (.masked token, rest)) :
    ∃ behind, text = '=' :: behind ∧ Placeholder.start? behind = some (token, rest) := by
  unfold start? at found
  split at found
  all_goals try
    obtain ⟨⟨body, behind⟩, cut, equal⟩ := Option.map_eq_some_iff.mp found
  · simp at equal
  · simp at equal
  · simp at equal
  · cases equal
    exact ⟨_, rfl, cut⟩
  · simp at found

theorem Placeholder.opening_prefix_of_start? {text token rest : Text}
    (found : Placeholder.start? text = some (token, rest)) : opening <+: text := by
  unfold Placeholder.start? at found
  split at found
  · simp at found
  · rename_i behind opened
    exact ⟨behind, (Text.after?_eq_some_iff.mp opened).symm⟩

/-- In a spelled text, the placeholder of a value is a whole one. -/
theorem Spells.exists_of_start? {count : Nat} {numbers : List Nat} {text word rest : Text}
    (spells : Spells count numbers text) (found : Placeholder.start? text = some (word, rest)) :
    ∃ number others, numbers = number :: others ∧ number < count ∧ word = token number ∧
      Spells count others rest := by
  obtain ⟨number, others, behind, rfl, known, rfl, later⟩ :=
    spells.exists_of_opening (opening_prefix_of_start? found)
  rw [Placeholder.start?_token] at found
  obtain ⟨rfl, rfl⟩ := Prod.mk.inj (Option.some.inj found)
  exact ⟨number, others, rfl, known, rfl, later⟩

theorem Spells.attributeKey {count : Nat} {numbers : List Nat} {name : Text}
    (spells : Spells count numbers name) (value : AttributeValue) :
    Spells count numbers (Attribute.key ⟨name, value⟩) := by
  have plain : ∀ {word other : Text}, name = word → ¬ mark <:+: word → ¬ mark <:+: other →
      Spells count numbers other := by
    rintro word other rfl unmarked absent
    rw [spells.eq_nil unmarked]
    exact spells_of_unmarked absent
  unfold Attribute.key
  split
  · rename_i same
    exact plain same (Text.not_infix_of_holds_eq_false (by decide +kernel))
      (Text.not_infix_of_holds_eq_false (by decide +kernel))
  · split
    · rename_i same
      exact plain same (Text.not_infix_of_holds_eq_false (by decide +kernel))
        (Text.not_infix_of_holds_eq_false (by decide +kernel))
    · split
      · rw [List.cons_append, spells_cons_iff (by decide), spells_append_cons_iff (by decide)]
        exact ⟨numbers, [], by simp, spells, spells_nil_iff.mpr rfl⟩
      · exact spells

theorem Attribute.count_key_le (name : Text) (value : AttributeValue) :
    (Attribute.key ⟨name, value⟩).count '<' ≤ name.count '<' := by
  unfold Attribute.key
  split
  · exact Nat.zero_le _
  · split
    · exact Nat.zero_le _
    · split
      · simp [List.count_append]
      · exact Nat.le_refl _

theorem WrittenAttribute.stopsRun_dropName (text : Text) :
    Text.StopsRun isWord (dropName text) := by
  induction text with
  | nil => simp [dropName, Text.StopsRun]
  | cons c text induction =>
    rw [dropName]
    split
    · exact induction
    · rename_i outside
      intro d first
      obtain rfl : c = d := Option.some.inj first
      rw [Bool.or_eq_true, not_or] at outside
      simpa using outside.1

section Unmarked

variable (unmarked : table.Unmarked)
include unmarked

theorem Spells.exists_carries_value {numbers : List Nat} {text rest : Text} {value : WrittenValue}
    (spells : Spells table.entries.length numbers text)
    (found : WrittenValue.start? text = some (value, rest)) :
    ∃ first second, numbers = first ++ second ∧
      Carries table first (value.source.count '<') (value.value (some table)).render ∧
      Spells table.entries.length second rest := by
  have text_eq := WrittenValue.append_of_start? found
  cases value with
  | braced body =>
    rw [text_eq] at spells
    exact spells.exists_of_delimited (by decide) (by decide) fun _ inside =>
      (inside.carries_ofExpression unmarked).mono (by simp [WrittenValue.source])
  | doubleQuoted body =>
    rw [text_eq] at spells
    exact spells.exists_of_delimited (by decide) (by decide) fun _ inside =>
      (inside.singleQuoted.carries unmarked).mono
        (by simp [WrittenValue.source, Text.count_singleQuoted])
  | singleQuoted body =>
    rw [text_eq] at spells
    exact spells.exists_of_delimited (by decide) (by decide) fun _ inside =>
      (inside.singleQuoted.carries unmarked).mono
        (by simp [WrittenValue.source, Text.count_singleQuoted])
  | masked word =>
    obtain ⟨behind, rfl, placed⟩ := WrittenValue.exists_of_start?_masked found
    rw [spells_cons_iff (by decide)] at spells
    obtain ⟨number, others, rfl, known, rfl, later⟩ := spells.exists_of_start? placed
    refine ⟨[number], others, rfl, Carries.mono ?_ (Nat.zero_le _), later⟩
    have body := carries_ofExpression_body unmarked number
    simp only [ExpressionTable.bodyAt, ExpressionTable.get?, List.getElem?_eq_getElem known,
      Option.map_some, Option.getD_some] at body
    simpa only [WrittenValue.value, ExpressionTable.resolve?, index?_token, Option.bind_some,
      ExpressionTable.get?, List.getElem?_eq_getElem known] using body
  | absent =>
    rw [text_eq] at spells
    exact ⟨[], numbers, rfl, carries_true, spells⟩

theorem Spells.exists_carries_entry {numbers : List Nat} {text rest : Text}
    {written : WrittenAttribute} (spells : Spells table.entries.length numbers text)
    (found : WrittenAttribute.start? text = some (written, rest)) :
    ∃ first second, numbers = first ++ second ∧
      Carries table first (written.source.count '<') (written.resolve (some table)).entry ∧
      Spells table.entries.length second rest := by
  cases text with
  | nil => simp [WrittenAttribute.start?] at found
  | cons c text =>
    rw [← WrittenAttribute.takeName_append_dropName text, ← List.cons_append] at spells
    obtain ⟨inName, others, rfl, name, behind⟩ :=
      spells.exists_of_stopsRun (WrittenAttribute.stopsRun_dropName text)
    have entry : ∀ {inValue : List Nat} {value : WrittenValue},
        Carries table inValue (value.source.count '<') (value.value (some table)).render →
          Carries table (inName ++ inValue)
            (WrittenAttribute.source ⟨c :: WrittenAttribute.takeName text, value⟩ |>.count '<')
            (Attribute.entry ⟨c :: WrittenAttribute.takeName text, value.value (some table)⟩) := by
      intro inValue value carries
      have key := ((name.attributeKey (value.value (some table))).carries unmarked).mono
        (Attribute.count_key_le _ _)
      have joined := key.append_cons (show IsJoint ':' by decide)
        (carries.cons (show IsJoint ' ' by decide))
      rw [WrittenAttribute.source, List.count_append]
      simpa [Attribute.entry] using joined
    simp only [WrittenAttribute.start?] at found
    split at found
    · split at found
      · rename_i valued
        obtain ⟨rfl, rfl⟩ := Prod.mk.inj (Option.some.inj found)
        obtain ⟨inValue, second, rfl, carries, later⟩ := behind.exists_carries_value unmarked valued
        exact ⟨inName ++ inValue, second, (List.append_assoc ..).symm, entry carries, later⟩
      · obtain ⟨rfl, rfl⟩ := Prod.mk.inj (Option.some.inj found)
        refine ⟨inName, others, rfl, ?_, behind⟩
        have alone := @entry [] .absent carries_true
        rwa [List.append_nil] at alone
    · simp at found

/-- What is skipped between the attributes is part of no word, so it holds no placeholder. -/
theorem Spells.carries_entries {numbers : List Nat} {list : Text}
    (spells : Spells table.entries.length numbers list) :
    Carries table numbers (list.count '<') (List.intercalate ", ".toList
      ((parseAttributes (some table) list).map Attribute.entry)) := by
  rw [parseAttributes]
  cases list with
  | nil =>
    rw [spells_nil_iff.mp spells, Pattern.items_nil]
    exact .nil
  | cons c list =>
    cases found : WrittenAttribute.start? (c :: list) with
    | none =>
      have sign : isWord c = false := by
        simp only [WrittenAttribute.start?] at found
        split at found
        · split at found <;> simp at found
        · simp_all
      have missed : WrittenAttribute.pattern.start? (c :: list) = none := found
      have later := Spells.carries_entries ((spells_cons_iff sign).mp spells)
      rw [parseAttributes, ← Pattern.items_of_none missed] at later
      exact later.mono List.count_le_count_cons
    | some result =>
      obtain ⟨written, rest⟩ := result
      have matched : WrittenAttribute.pattern.start? (c :: list) = some (written, rest) := found
      have shorter := WrittenAttribute.pattern.shorter matched
      obtain ⟨first, second, rfl, entry, behind⟩ := spells.exists_carries_entry unmarked found
      have later := Spells.carries_entries behind
      rw [parseAttributes] at later
      rw [Pattern.items_of_some matched, List.map_cons, List.map_cons,
        (WrittenAttribute.append_of_start? found).1, List.count_append]
      cases others : (WrittenAttribute.pattern.items rest).map
          (WrittenAttribute.resolve (some table)) with
      | nil =>
        rw [others] at later
        simpa [List.intercalate] using (entry.append_nil later).mono (Nat.le_add_right _ _)
      | cons next attributes =>
        rw [others] at later
        have joined := entry.append_cons (show IsJoint ',' by decide)
          (later.cons (show IsJoint ' ' by decide))
        simpa [List.intercalate] using joined
termination_by list.length

theorem Spells.carries_props {numbers : List Nat} {list : Text}
    (spells : Spells table.entries.length numbers list) :
    Carries table numbers (list.count '<') (propsOfList (some table) list) := by
  have entries := spells.carries_entries unmarked
  rw [propsOfList_eq]
  cases equal : parseAttributes (some table) list with
  | nil =>
    rw [equal] at entries
    have null : Carries table [] 0 "null".toList :=
      .of_unmarked (Text.not_infix_of_holds_eq_false (by decide +kernel)) (by decide)
    exact (null.append_nil entries).mono (Nat.zero_le _)
  | cons attr attributes =>
    rw [equal] at entries
    have text : renderProps (attr :: attributes) = '{' :: ' ' ::
        (List.intercalate ", ".toList ((attr :: attributes).map Attribute.entry) ++
          ' ' :: '}' :: []) := rfl
    have closed := entries.append_cons (show IsJoint ' ' by decide)
      (Carries.nil.cons (show IsJoint '}' by decide))
    rw [List.append_nil, Nat.add_zero] at closed
    rw [text]
    exact (closed.cons (by decide)).cons (by decide)

end Unmarked

/-! ## Calls -/

theorem Spells.trim {count : Nat} {numbers : List Nat} {text : Text}
    (spells : Spells count numbers text) : Spells count numbers (Text.trim text) := by
  obtain ⟨before, after, equal, opens, closes⟩ := Text.exists_trim_eq text
  rw [equal, spells_signs_append_iff fun c member => isWord_of_isSpace (opens c member),
    spells_append_signs_iff fun c member => isWord_of_isSpace (closes c member)] at spells
  exact spells

theorem carries_render {call : ElementCall} {indent unit : Text}
    {inTag inProps inChildren : List Nat} {tagCount propsCount childrenCount : Nat}
    (unmarked : ¬ mark <:+: call.receiver) (plain : '<' ∉ call.receiver)
    (indented : ∀ c ∈ indent, isSpace c = true) (spaced : ∀ c ∈ unit, isSpace c = true)
    (tag : Carries table inTag tagCount call.tag)
    (props : Carries table inProps propsCount call.props)
    (children : Carries table inChildren childrenCount (call.children.getD [])) :
    Carries table (inTag ++ (inProps ++ inChildren)) (tagCount + (propsCount + childrenCount))
      (call.render indent unit) := by
  have own : Carries table [] 0 "createElement".toList :=
    .of_unmarked (Text.not_infix_of_holds_eq_false (by decide +kernel)) (by decide)
  have indentation : ∀ {numbers count text}, Carries table numbers count text →
      Carries table numbers count (indent ++ text) := fun carries =>
    carries.joints_append fun c member => isJoint_of_isSpace (indented c member)
  have line : ∀ {numbers count text}, Carries table numbers count text →
      Carries table numbers count (indent ++ (unit ++ text)) := fun carries =>
    indentation (carries.joints_append fun c member => isJoint_of_isSpace (spaced c member))
  have called : ∀ {numbers count text}, Carries table numbers count text →
      Carries table numbers count
      (call.receiver ++ '.' :: ("createElement".toList ++ '(' :: text)) := by
    intro numbers count text carries
    have whole := (Carries.of_unmarked unmarked plain).append_cons (show IsJoint '.' by decide)
      (own.append_cons (show IsJoint '(' by decide) carries)
    rwa [Nat.zero_add, Nat.zero_add] at whole
  rw [ElementCall.render_eq, ElementCall.behindDot]
  cases equal : call.children with
  | none =>
    rw [equal] at children
    have closed := props.append_cons (show IsJoint ')' by decide) .nil
    have named := tag.append_cons (show IsJoint '\'' by decide)
      ((closed.cons (show IsJoint ' ' by decide)).cons (show IsJoint ',' by decide))
    rw [List.append_nil] at named
    rw [← List.append_assoc]
    exact ((called (named.cons (by decide))).append_nil children).mono (by omega)
  | some argument =>
    rw [equal] at children
    have closed := children.append_cons (show IsJoint '\n' by decide)
      (indentation (Carries.nil.cons (show IsJoint ')' by decide)))
    rw [List.append_nil] at closed
    have filled := props.append_cons (show IsJoint ',' by decide)
      ((line closed).cons (show IsJoint '\n' by decide))
    have named := tag.append_cons (show IsJoint '\'' by decide)
      (((line filled).cons (show IsJoint '\n' by decide)).cons (show IsJoint ',' by decide))
    exact called ((line (named.cons (by decide))).cons (by decide))

/-! ## Elements -/

/-- The text carries some of the numbered expressions, and it carries all of them if no number
stands twice. -/
def Conveys (table : ExpressionTable) (numbers : List Nat) (openings : Nat) (text : Text) : Prop :=
  ∃ carried, Carries table carried openings text ∧ carried.Sublist numbers ∧
    (numbers.Nodup → carried = numbers)

namespace Conveys

variable {numbers others : List Nat} {few more : Nat} {left right : Text}

theorem of_carries (carries : Carries table numbers few left) : Conveys table numbers few left :=
  ⟨numbers, carries, List.Sublist.refl numbers, fun _ => rfl⟩

theorem map (conveys : Conveys table numbers few left)
    (carry : ∀ {carried}, Carries table carried few left → Carries table carried more right) :
    Conveys table numbers more right := by
  obtain ⟨carried, carries, rest⟩ := conveys
  exact ⟨carried, carry carries, rest⟩

theorem append_cons {c : Char} (joint : IsJoint c) (first : Conveys table numbers few left)
    (second : Conveys table others more right) :
    Conveys table (numbers ++ others) (few + more) (left ++ c :: right) := by
  obtain ⟨carried, carries, known, all⟩ := first
  obtain ⟨carriedToo, carriesToo, knownToo, allToo⟩ := second
  refine ⟨carried ++ carriedToo, carries.append_cons joint carriesToo, known.append knownToo,
    fun once => ?_⟩
  have parts := List.nodup_append.mp once
  rw [all parts.1, allToo parts.2.1]

end Conveys

section Unmarked

variable (unmarked : table.Unmarked)
include unmarked

theorem Spells.carries_childrenArgument {numbers : List Nat} {children : Text}
    (spells : Spells table.entries.length numbers children) :
    Carries table numbers (children.count '<') ((childrenArgument children).getD []) := by
  have trimmed := spells.trim
  rw [childrenArgument]
  split
  · rename_i blank
    rw [blank, spells_nil_iff] at trimmed
    rw [trimmed]
    exact Carries.nil.mono (Nat.zero_le _)
  · refine (trimmed.singleQuoted.carries unmarked).mono ?_
    rw [Text.count_singleQuoted]
    exact (Text.trim_infix children).sublist.count_le '<'

variable {style : CallStyle} (clear : style.Clear)
include clear

/-- The tag of an element is read once and stands in its closing tag again, as the brackets do. -/
theorem Element.Readable.conveys {element : Element} (readable : element.Readable)
    {numbers : List Nat} (spells : Spells table.entries.length numbers element.source)
    {indent : Text} (indented : ∀ c ∈ indent, isSpace c = true) :
    ∃ openings, openings < element.source.count '<' ∧ Conveys table numbers openings
      ((Converter.call ⟨style, some table⟩ element).render indent style.indentUnit) := by
  obtain ⟨tag, attributes, children⟩ := element
  rw [Element.source, spells_cons_iff (by decide)] at spells
  obtain ⟨inTag, others, rfl, tagged, behind⟩ := spells.exists_of_stopsRun readable.stopsRun
  cases children with
  | none =>
    obtain ⟨inList, inEnd, rfl, listed, ends⟩ := (spells_append_cons_iff (by decide)).mp behind
    obtain rfl : inEnd = [] := by
      rwa [spells_cons_iff (by decide), spells_nil_iff] at ends
    refine ⟨tag.count '<' + (attributes.count '<' + 0), ?_, .of_carries ?_⟩
    · simp [Element.source, Element.ending, List.count_append]
    · exact carries_render clear.unmarked clear.bracketless indented clear.unit
        (tagged.carries unmarked) (listed.carries_props unmarked) .nil
  | some children =>
    obtain ⟨inList, others, rfl, listed, rest⟩ := (spells_append_cons_iff (by decide)).mp behind
    obtain ⟨inChildren, inEnd, rfl, content, ends⟩ := (spells_append_cons_iff (by decide)).mp rest
    obtain rfl : inTag = inEnd := by
      have again : Spells table.entries.length inEnd (tag ++ ['>']) :=
        (spells_cons_iff (by decide)).mp ends
      rw [spells_append_signs_iff (List.forall_mem_singleton.mpr (by decide))] at again
      exact tagged.unique again
    have carries : Carries table (inTag ++ (inList ++ inChildren))
        (tag.count '<' + (attributes.count '<' + children.count '<')) ((Converter.call
          ⟨style, some table⟩ ⟨tag, attributes, some children⟩).render indent style.indentUnit) :=
      carries_render clear.unmarked clear.bracketless indented clear.unit
        (tagged.carries unmarked) (listed.carries_props unmarked)
        (content.carries_childrenArgument unmarked)
    refine ⟨_, ?_, _, carries, ?_, fun once => ?_⟩
    · simp (disch := decide) only [Element.source, Element.ending, List.count_append,
        List.count_cons_self, List.count_cons_of_ne]
      omega
    · exact (List.Sublist.refl inTag).append
        ((List.Sublist.refl inList).append (List.sublist_append_left inChildren inTag))
    · have empty : inTag = [] := by
        rw [List.eq_nil_iff_forall_not_mem]
        intro number member
        exact (List.nodup_append.mp once).2.2 number member number (by simp [member]) rfl
      simp [empty]

theorem Spells.conveys_convert {numbers : List Nat} {markup : Text}
    (spells : Spells table.entries.length numbers markup) {indent : Text}
    (indented : ∀ c ∈ indent, isSpace c = true) :
    Conveys table numbers (markup.count '<')
      (Converter.convert ⟨style, some table⟩ markup indent) := by
  have trimmed := spells.trim
  have fewer : (Text.trim markup).count '<' ≤ markup.count '<' :=
    (Text.trim_infix markup).sublist.count_le '<'
  rw [Converter.convert]
  cases parsed : Element.parse? (Text.trim markup) with
  | none => exact .of_carries ((trimmed.carries unmarked).mono fewer)
  | some element =>
    obtain ⟨readable, gap, equal, spaces⟩ := Element.exists_of_parse? parsed
    rw [equal, spells_append_signs_iff fun c member => isWord_of_isSpace (spaces c member)]
      at trimmed
    obtain ⟨openings, less, conveys⟩ := readable.conveys unmarked clear trimmed indented
    refine conveys.map fun carries => carries.mono ?_
    rw [equal, List.count_append] at fewer
    omega

end Unmarked

end JsxCalls
