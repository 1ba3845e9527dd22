import Mathlib.Data.Nat.Digits.Defs
import Mathlib.Data.List.Induction
import JsxCalls.Proofs.AttributeList

/-!
# Numbers of placeholders

A placeholder is told from all others by its number: none stands within another one, and a text is
resolved by exactly the decimal number between the two ends of a placeholder. The number may have
leading zeros and any length. It could as well be kept in a machine word that refuses what it cannot
hold, since no table has an entry for such a number.
-/

namespace JsxCalls

/-! ## Decimal numbers -/

/-- The value of a decimal digit. -/
def digitValue (c : Char) : Nat :=
  c.toNat - '0'.toNat

/-- The number that decimal digits write, of which the last one counts the units. -/
def decimalValue (digits : Text) : Nat :=
  Nat.ofDigits 10 (digits.reverse.map digitValue)

theorem decimalValue_concat (digits : Text) (c : Char) :
    decimalValue (digits ++ [c]) = 10 * decimalValue digits + digitValue c := by
  rw [decimalValue, List.reverse_append, List.reverse_singleton, List.singleton_append,
    List.map_cons, Nat.ofDigits_cons, Nat.add_comm, decimalValue]

theorem ofDigitChars_eq (digits : Text) : Nat.ofDigitChars 10 digits 0 = decimalValue digits := by
  induction digits using List.reverseRecOn with
  | nil => rfl
  | append_singleton digits c induction =>
    rw [Nat.ofDigitChars_append, induction, decimalValue_concat, Nat.ofDigitChars_cons,
      Nat.ofDigitChars_nil, digitValue]

/-! ## Machine words -/

namespace Word

/-- The word that holds a number. -/
def ofNat? (n : Nat) : Option UInt64 :=
  if n < UInt64.size then some (UInt64.ofNat n) else none

/-- The number with one more digit from `0` to `9` behind it, if a word holds it. -/
def push? (word : UInt64) (c : Char) : Option UInt64 :=
  if c.isDigit then
    (ofNat? (10 * word.toNat)).bind fun tens => ofNat? (tens.toNat + digitValue c)
  else none

/-- The number that digits write, if a word holds it. It is given up at the first digit with which
it grows too large. -/
def read? (digits : Text) : Option UInt64 :=
  digits.foldlM push? 0

theorem toNat_ofNat_of_le {n : Nat} (word : UInt64) (le : n ≤ word.toNat) :
    (UInt64.ofNat n).toNat = n :=
  UInt64.toNat_ofNat_of_lt' (Nat.lt_of_le_of_lt le word.toNat_lt_size)

theorem ofNat?_eq_some_iff {n : Nat} {word : UInt64} : ofNat? n = some word ↔ word.toNat = n := by
  rw [ofNat?]
  split
  · rename_i fits
    rw [Option.some_inj, ← UInt64.toNat_inj, UInt64.toNat_ofNat_of_lt' fits, eq_comm]
  · rename_i large
    have small := word.toNat_lt_size
    simp only [reduceCtorEq, false_iff]
    omega

/-- One step of reading. It fails exactly if the character is no digit or the number too large. -/
theorem push?_eq_some_iff {word next : UInt64} {c : Char} :
    push? word c = some next ↔
      c.isDigit = true ∧ next.toNat = 10 * word.toNat + digitValue c := by
  rw [push?]
  split
  · rename_i isDigit
    simp only [Option.bind_eq_some_iff, ofNat?_eq_some_iff]
    constructor
    · rintro ⟨tens, product, sum⟩
      exact ⟨isDigit, by rw [sum, product]⟩
    · rintro ⟨-, sum⟩
      have product : (UInt64.ofNat (10 * word.toNat)).toNat = 10 * word.toNat :=
        toNat_ofNat_of_le next (by omega)
      exact ⟨_, product, by rw [sum, product]⟩
  · rename_i other
    simp [other]

/-- A word is read from digits exactly if it holds their value. -/
theorem read?_eq_some_iff {digits : Text} {word : UInt64} :
    read? digits = some word ↔
      (∀ c ∈ digits, c.isDigit = true) ∧ word.toNat = decimalValue digits := by
  induction digits using List.reverseRecOn generalizing word with
  | nil =>
    rw [read?, List.foldlM_nil, Option.pure_def, Option.some_inj, ← UInt64.toNat_inj, eq_comm]
    exact (and_iff_right (List.forall_mem_nil _)).symm
  | append_singleton digits c induction =>
    have step : read? (digits ++ [c]) = (read? digits).bind (push? · c) := by
      rw [read?, List.foldlM_append, Option.bind_eq_bind]
      simp only [List.foldlM_cons, List.foldlM_nil, Option.pure_def, Option.bind_eq_bind,
        Option.bind_fun_some, read?]
    simp only [step, Option.bind_eq_some_iff, push?_eq_some_iff, induction, List.forall_mem_append,
      List.forall_mem_singleton, decimalValue_concat]
    constructor
    · rintro ⟨before, ⟨isDigits, value⟩, isDigit, sum⟩
      exact ⟨⟨isDigits, isDigit⟩, by rw [sum, value]⟩
    · rintro ⟨⟨isDigits, isDigit⟩, sum⟩
      -- the digits before the last one write a smaller number, which a word holds as well
      have before : (UInt64.ofNat (decimalValue digits)).toNat = decimalValue digits :=
        toNat_ofNat_of_le word (by omega)
      exact ⟨_, ⟨isDigits, before⟩, isDigit, by rw [sum, before]⟩

end Word

/-! ## What stands between the two ends -/

namespace Placeholder

/-- The text consists of the two ends of a placeholder and a run of characters of the class. -/
structure Encloses (inClass : Char → Bool) (text run : Text) : Prop where
  filled : run ≠ []
  inside : ∀ c ∈ run, inClass c = true
  between : text = opening ++ run ++ closing

/-- The run of characters of a class between the two ends of a placeholder. -/
def enclosed? (inClass : Char → Bool) (text : Text) : Option Text :=
  match Text.after? opening text with
  | none => none
  | some rest =>
    let run := rest.takeWhile inClass
    if run ≠ [] ∧ rest.dropWhile inClass = closing then some run else none

theorem enclosed?_eq_some_iff {inClass : Char → Bool} (outside : inClass '_' = false)
    {text run : Text} : enclosed? inClass text = some run ↔ Encloses inClass text run := by
  constructor
  · intro found
    rw [enclosed?] at found
    split at found
    · simp at found
    · rename_i rest opened
      dsimp only at found
      split at found
      · rename_i closed
        obtain rfl := Option.some.inj found
        refine ⟨closed.1, fun c => Text.of_mem_takeWhile, ?_⟩
        rw [Text.after?_eq_some_iff.mp opened, List.append_assoc, ← closed.2,
          List.takeWhile_append_dropWhile]
      · simp at found
  · rintro ⟨filled, inside, rfl⟩
    have stops : Text.StopsRun inClass closing := Text.stopsRun_cons outside ['_']
    rw [enclosed?, Text.after?_eq_some_iff.mpr (List.append_assoc opening run closing)]
    dsimp only
    rw [Text.takeWhile_run inside stops, Text.dropWhile_run inside stops, if_pos ⟨filled, rfl⟩]

theorem index?_eq (text : Text) :
    index? text = (enclosed? Char.isDigit text).map (Nat.ofDigitChars 10 · 0) := by
  rw [index?, enclosed?]
  cases Text.after? opening text with
  | none => rfl
  | some rest =>
    dsimp only
    rw [apply_ite (Option.map _)]
    rfl

theorem index?_eq_some_iff {text : Text} {index : Nat} : index? text = some index ↔
    ∃ digits, Encloses Char.isDigit text digits ∧ decimalValue digits = index := by
  rw [index?_eq, Option.map_eq_some_iff]
  refine exists_congr fun digits => ?_
  rw [enclosed?_eq_some_iff rfl, ofDigitChars_eq]

/-- The run between the two ends is determined by the text. -/
theorem Encloses.eq_of_between {inClass : Char → Bool} {run other : Text}
    (encloses : Encloses inClass (opening ++ other ++ closing) run) : run = other :=
  List.append_cancel_left (List.append_cancel_right encloses.between.symm)

/-- No placeholder stands within another one. -/
theorem eq_of_token_infix_token {i j : Nat} (found : token i <:+: token j) : i = j := by
  obtain ⟨before, behind, equal⟩ := found
  have spelled : spell [.item j] = before ++ (token i ++ behind) := by
    rw [spell_item, spell_nil, List.append_nil, ← equal, List.append_assoc]
  rcases spell_token_cases spelled with ⟨front, back, pieces, -⟩ | ⟨digit, -, inside⟩
  · have member : Piece.item i ∈ [Piece.item j] := by
      rw [pieces]
      exact List.mem_append_right front List.mem_cons_self
    exact Piece.item.inj (List.mem_singleton.mp member)
  · -- a single placeholder is spelled without characters
    have member : Piece.char digit ∈ [Piece.item j] := by
      refine inside.subset (List.mem_map_of_mem ?_)
      simp
    cases List.mem_singleton.mp member

end Placeholder

/-! ## Resolving a placeholder -/

namespace ExpressionTable

open Placeholder

variable {table : ExpressionTable}

theorem resolve?_eq_some_iff {text : Text} {expression : Expression} :
    table.resolve? text = some expression ↔ ∃ digits, Encloses Char.isDigit text digits ∧
      table.entries[decimalValue digits]? = some expression := by
  rw [resolve?, Option.bind_eq_some_iff]
  constructor
  · rintro ⟨index, read, known⟩
    obtain ⟨digits, encloses, rfl⟩ := index?_eq_some_iff.mp read
    exact ⟨digits, encloses, known⟩
  · rintro ⟨digits, encloses, known⟩
    exact ⟨_, index?_eq_some_iff.mpr ⟨digits, encloses, rfl⟩, known⟩

theorem resolve?_token (index : Nat) : table.resolve? (token index) = table.get? index := by
  rw [resolve?, index?_token, Option.bind_some]

theorem resolve?_eq_none {text : Text}
    (unknown : ∀ digits, Encloses Char.isDigit text digits →
      table.entries[decimalValue digits]? = none) : table.resolve? text = none := by
  rw [Option.eq_none_iff_forall_ne_some]
  intro expression found
  obtain ⟨digits, encloses, known⟩ := resolve?_eq_some_iff.mp found
  rw [unknown digits encloses] at known
  exact Option.some_ne_none _ known.symm

/-- The numbers of the entries fit into machine words, so it makes no difference if the number of a
placeholder is read into one. -/
theorem resolve?_eq_bind_read? (fits : table.entries.length ≤ UInt64.size) (text : Text) :
    table.resolve? text =
      ((enclosed? isDecimal text).bind Word.read?).bind fun word => table.get? word.toNat := by
  refine Option.ext fun expression => ?_
  simp only [resolve?_eq_some_iff, Option.bind_eq_some_iff, Word.read?_eq_some_iff]
  constructor
  · rintro ⟨digits, encloses, known⟩
    have small : decimalValue digits < table.entries.length :=
      (List.getElem?_eq_some_iff.mp known).1
    have word : (UInt64.ofNat (decimalValue digits)).toNat = decimalValue digits :=
      UInt64.toNat_ofNat_of_lt' (by omega)
    have decimals : Encloses isDecimal text digits :=
      ⟨encloses.filled, fun c member => isDecimal_of_isDigit (encloses.inside c member),
        encloses.between⟩
    refine ⟨_, ⟨digits, ?_, encloses.inside, word⟩, ?_⟩
    · exact (enclosed?_eq_some_iff rfl).mpr decimals
    · rwa [get?, word]
  · rintro ⟨word, ⟨digits, enclosed, isDigits, value⟩, known⟩
    have encloses := (enclosed?_eq_some_iff rfl).mp enclosed
    refine ⟨digits, ⟨encloses.filled, isDigits, encloses.between⟩, ?_⟩
    rwa [← value]

end ExpressionTable

namespace Placeholder

/-- Placeholders are told apart by their numbers. None stands within another one, each resolves to
the entry with its number, and a text resolves to an entry exactly if it consists of the two ends of
a placeholder and the decimal digits of the entry's number. Other digits give nothing. Neither do
numbers that machine words do not hold, so the number could be read into one. -/
theorem token_unambiguous :
    (∀ i j, i ≠ j → ¬ token i <:+: token j) ∧
      ∀ table : ExpressionTable,
        (∀ index, table.resolve? (token index) = table.get? index) ∧
        (∀ text expression, table.resolve? text = some expression ↔
          ∃ digits, Encloses Char.isDigit text digits ∧
            table.entries[decimalValue digits]? = some expression) ∧
        (∀ run : Text, (∃ c ∈ run, c.isDigit = false) →
          table.resolve? (opening ++ run ++ closing) = none) ∧
        (table.entries.length ≤ 2 ^ 64 →
          (∀ digits : Text, 2 ^ 64 ≤ decimalValue digits →
            table.resolve? (opening ++ digits ++ closing) = none) ∧
          ∀ text, table.resolve? text = ((enclosed? isDecimal text).bind Word.read?).bind
            fun word => table.get? word.toNat) := by
  refine ⟨fun i j differ found => differ (eq_of_token_infix_token found), fun table => ?_⟩
  refine ⟨fun index => table.resolve?_token index,
    fun text expression => ExpressionTable.resolve?_eq_some_iff, ?_, fun fits => ⟨?_, ?_⟩⟩
  · rintro run ⟨c, member, other⟩
    apply ExpressionTable.resolve?_eq_none
    intro digits encloses
    obtain rfl := encloses.eq_of_between
    rw [encloses.inside c member] at other
    exact absurd other Bool.noConfusion
  · intro digits large
    apply ExpressionTable.resolve?_eq_none
    intro run encloses
    obtain rfl := encloses.eq_of_between
    exact List.getElem?_eq_none (Nat.le_trans fits large)
  · exact ExpressionTable.resolve?_eq_bind_read? fits

/-- A table with the numbers zero and one. -/
def twoEntries : ExpressionTable :=
  ⟨[⟨"a".toList⟩, ⟨"b".toList⟩]⟩

/-- A number with leading zeros is resolved; one that wraps around to the same in a machine word is
not, nor is one in other digits. -/
theorem token_unambiguous_twoEntries :
    ¬ token 1 <:+: token 11 ∧
      twoEntries.resolve? "__PROTECTED_0001__".toList = some ⟨"b".toList⟩ ∧
      twoEntries.resolve? "__PROTECTED_18446744073709551617__".toList = none ∧
      twoEntries.resolve? "__PROTECTED_\u0661__".toList = none := by
  obtain ⟨apart, resolves⟩ := token_unambiguous
  obtain ⟨-, resolved, other, fits⟩ := resolves twoEntries
  refine ⟨apart 1 11 (by decide), ?_, ?_, ?_⟩
  · refine (resolved _ _).mpr ⟨"0001".toList, ⟨by decide, ?_, rfl⟩, ?_⟩
    · exact List.all_eq_true.mp (by decide)
    · rw [← ofDigitChars_eq]
      rfl
  · refine (fits (by decide)).1 "18446744073709551617".toList ?_
    rw [← ofDigitChars_eq]
    decide
  · exact other ['\u0661'] ⟨'\u0661', List.mem_singleton_self _, rfl⟩

end Placeholder

end JsxCalls
