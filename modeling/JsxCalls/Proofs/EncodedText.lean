import Mathlib.Tactic.SplitIfs
import JsxCalls.Text.Utf8

/-!
# Texts in bytes

A character below 128 has one byte, and this byte stands in no other character. So such a character
can be looked for in the bytes of a text. The bytes of a text have no fault, and they are shown as
the text.
-/

namespace JsxCalls.Utf8

/-! ## Bytes of characters -/

theorem encode_append (left right : Text) : encode (left ++ right) = encode left ++ encode right :=
  List.flatMap_append

theorem encode_cons (c : Char) (text : Text) :
    encode (c :: text) = String.utf8EncodeChar c ++ encode text :=
  List.flatMap_cons

theorem encode_ne_nil {text : Text} (filled : text ≠ []) : encode text ≠ [] := by
  obtain ⟨c, others, rfl⟩ := List.exists_cons_of_ne_nil filled
  rw [encode_cons]
  exact List.append_ne_nil_of_left_ne_nil String.utf8EncodeChar_ne_nil _

theorem encode_inj {text other : Text} : encode text = encode other ↔ text = other := by
  constructor
  · intro same
    have decoded := decode?_encode text
    rw [same, decode?_encode] at decoded
    exact (Option.some.inj decoded).symm
  · exact congrArg encode

/-- A character that has only one byte. -/
def IsSingle (c : Char) : Prop :=
  c.toNat < 0x80

theorem IsSingle.encodeChar {c : Char} (single : IsSingle c) :
    String.utf8EncodeChar c = [byte c] :=
  if_pos (Nat.le_of_lt_succ single)

theorem IsSingle.byte_lt {c : Char} (single : IsSingle c) : (byte c).toNat < 0x80 := by
  rw [byte, UInt8.toNat_ofNat']
  exact Nat.lt_of_le_of_lt (Nat.mod_le _ _) single

/-- All bytes of a character that has several are at least 128. -/
theorem le_of_mem_encodeChar {c : Char} (several : ¬ IsSingle c) {b : UInt8}
    (member : b ∈ String.utf8EncodeChar c) : 0x80 ≤ b.toNat := by
  have long : ¬ c.val.toNat ≤ 0x7F := fun short => several (Nat.lt_succ_of_le short)
  rw [String.utf8EncodeChar] at member
  simp only [if_neg long] at member
  split_ifs at member <;>
    simp only [List.mem_cons, List.not_mem_nil, or_false] at member <;>
    rcases member with rfl | rfl | rfl | rfl <;> rw [UInt8.toNat_ofNat'] <;> omega

theorem byte_mem_encodeChar_iff {c d : Char} (single : IsSingle c) :
    byte c ∈ String.utf8EncodeChar d ↔ c = d := by
  constructor
  · intro member
    by_cases short : IsSingle d
    · rw [short.encodeChar, List.mem_singleton, ← UInt8.toNat_inj, byte, byte, UInt8.toNat_ofNat',
        UInt8.toNat_ofNat'] at member
      rw [IsSingle] at single short
      exact Char.toNat_inj.mp (by omega)
    · exact absurd (le_of_mem_encodeChar short member) (Nat.not_le.mpr single.byte_lt)
  · rintro rfl
    rw [single.encodeChar]
    exact List.mem_singleton_self _

/-- A character with one byte stands in a text if its byte stands in the bytes of the text. -/
theorem byte_mem_encode_iff {c : Char} (single : IsSingle c) {text : Text} :
    byte c ∈ encode text ↔ c ∈ text := by
  rw [encode, List.mem_flatMap]
  constructor
  · rintro ⟨d, member, within⟩
    rwa [(byte_mem_encodeChar_iff single).mp within]
  · exact fun member => ⟨c, member, (byte_mem_encodeChar_iff single).mpr rfl⟩

/-- The same holds behind the first character and behind the first byte. -/
theorem byte_mem_drop_encode_iff {c : Char} (single : IsSingle c) {text : Text} :
    byte c ∈ (encode text).drop 1 ↔ c ∈ text.drop 1 := by
  cases text with
  | nil => simp [encode]
  | cons d text =>
    have within : byte c ∉ (String.utf8EncodeChar d).drop 1 := by
      intro member
      by_cases short : IsSingle d
      · simp [short.encodeChar] at member
      · exact absurd (le_of_mem_encodeChar short (List.mem_of_mem_drop member))
          (Nat.not_le.mpr single.byte_lt)
    have filled : 1 ≤ (String.utf8EncodeChar d).length :=
      List.length_pos_iff.mpr String.utf8EncodeChar_ne_nil
    rw [encode_cons, List.drop_append_of_le_length filled, List.mem_append, or_iff_right within,
      byte_mem_encode_iff single]
    rfl

/-! ## Texts without faults -/

/-- A character that was started is read to its end. -/
theorem faultWithin?_started {low high second : UInt8} {others : Bytes} (index started : Nat)
    (fits : low ≤ second ∧ second ≤ high) (follow : ∀ b ∈ others, 0x80 ≤ b ∧ b ≤ 0xBF)
    (rest : Bytes) :
    faultWithin? index (some (started, low, high, others.length)) (second :: (others ++ rest)) =
      faultWithin? (index + started + 1 + others.length) none rest := by
  induction others generalizing low high second started with
  | nil => rw [List.length_nil, faultWithin?, if_pos fits, List.nil_append, Nat.add_zero]
  | cons third others induction =>
    obtain ⟨next, later⟩ := List.forall_mem_cons.mp follow
    rw [List.length_cons, faultWithin?, if_pos fits, List.cons_append, induction _ next later]
    congr 1
    omega

theorem faultWithin?_several {low high first second : UInt8} (others : Bytes) (index : Nat)
    (large : ¬ first < 0x80) (lead : followers? first = some (low, high, others.length))
    (fits : low ≤ second ∧ second ≤ high) (follow : ∀ b ∈ others, 0x80 ≤ b ∧ b ≤ 0xBF)
    (rest : Bytes) :
    faultWithin? index none (first :: second :: (others ++ rest)) =
      faultWithin? (index + (others.length + 2)) none rest := by
  rw [faultWithin?, if_neg large, lead]
  dsimp only
  rw [faultWithin?_started index 1 fits follow]
  congr 1
  omega

section Bytes

variable {n : Nat} (small : n < 0x100)
include small

theorem ofNat_lt_iff {b : UInt8} : UInt8.ofNat n < b ↔ n < b.toNat := by
  rw [UInt8.lt_iff_toNat_lt, UInt8.toNat_ofNat', Nat.mod_eq_of_lt small]

theorem within_ofNat_iff {low high : UInt8} :
    low ≤ UInt8.ofNat n ∧ UInt8.ofNat n ≤ high ↔ low.toNat ≤ n ∧ n ≤ high.toNat := by
  rw [UInt8.le_iff_toNat_le, UInt8.le_iff_toNat_le, UInt8.toNat_ofNat', Nat.mod_eq_of_lt small]

theorem ofNat_eq_iff {b : UInt8} : UInt8.ofNat n = b ↔ n = b.toNat := by
  rw [← UInt8.toNat_inj, UInt8.toNat_ofNat', Nat.mod_eq_of_lt small]

/-- What may follow a first byte, by its number. -/
theorem followers?_ofNat : followers? (UInt8.ofNat n) =
    if 0xC2 ≤ n ∧ n ≤ 0xDF then some (0x80, 0xBF, 0)
    else if n = 0xE0 then some (0xA0, 0xBF, 1)
    else if n = 0xED then some (0x80, 0x9F, 1)
    else if 0xE1 ≤ n ∧ n ≤ 0xEF then some (0x80, 0xBF, 1)
    else if n = 0xF0 then some (0x90, 0xBF, 2)
    else if 0xF1 ≤ n ∧ n ≤ 0xF3 then some (0x80, 0xBF, 2)
    else if n = 0xF4 then some (0x80, 0x8F, 2)
    else none := by
  simp only [followers?, within_ofNat_iff small, ofNat_eq_iff small]
  rfl

end Bytes

/-- A byte with the six bits of a number that lie behind others. -/
theorem trailing_within (n : Nat) :
    (0x80 : UInt8) ≤ UInt8.ofNat (n % 64 + 0x80) ∧ UInt8.ofNat (n % 64 + 0x80) ≤ 0xBF := by
  refine (within_ofNat_iff (by omega)).mpr ⟨Nat.le_add_left _ _, ?_⟩
  change n % 64 + 0x80 ≤ 0xBF
  omega

/-- The first byte of a character of three bytes allows the second one. -/
theorem exists_followers?_three (code : Nat) (least : 0x800 ≤ code) (most : code ≤ 0xFFFF)
    (valid : code < 0xD800 ∨ 0xDFFF < code) : ∃ low high,
      followers? (UInt8.ofNat (code / 4096 % 16 + 224)) = some (low, high, 1) ∧
        low ≤ UInt8.ofNat (code / 64 % 64 + 128) ∧ UInt8.ofNat (code / 64 % 64 + 128) ≤ high := by
  rw [followers?_ofNat (by omega), if_neg (by omega)]
  simp only [@within_ofNat_iff (code / 64 % 64 + 128) (by omega)]
  split_ifs with zero surrogate other
  · exact ⟨_, _, rfl, show 0xA0 ≤ _ ∧ _ ≤ 0xBF by omega⟩
  · exact ⟨_, _, rfl, show 0x80 ≤ _ ∧ _ ≤ 0x9F by omega⟩
  · exact ⟨_, _, rfl, show 0x80 ≤ _ ∧ _ ≤ 0xBF by omega⟩
  all_goals omega

/-- The first byte of a character of four bytes allows the second one. -/
theorem exists_followers?_four (code : Nat) (least : 0x10000 ≤ code) (most : code < 0x110000) :
    ∃ low high, followers? (UInt8.ofNat (code / 262144 % 8 + 240)) = some (low, high, 2) ∧
      low ≤ UInt8.ofNat (code / 4096 % 64 + 128) ∧
      UInt8.ofNat (code / 4096 % 64 + 128) ≤ high := by
  rw [followers?_ofNat (by omega), if_neg (by omega), if_neg (by omega), if_neg (by omega),
    if_neg (by omega)]
  simp only [@within_ofNat_iff (code / 4096 % 64 + 128) (by omega)]
  split_ifs with zero other last
  · exact ⟨_, _, rfl, show 0x90 ≤ _ ∧ _ ≤ 0xBF by omega⟩
  · exact ⟨_, _, rfl, show 0x80 ≤ _ ∧ _ ≤ 0xBF by omega⟩
  · exact ⟨_, _, rfl, show 0x80 ≤ _ ∧ _ ≤ 0x8F by omega⟩
  · omega

/-- The bytes of a character are read to their end. -/
theorem faultWithin?_encodeChar (index : Nat) (c : Char) (rest : Bytes) :
    faultWithin? index none (String.utf8EncodeChar c ++ rest) =
      faultWithin? (index + (String.utf8EncodeChar c).length) none rest := by
  have bound : c.val.toNat < 0xD800 ∨ 0xDFFF < c.val.toNat ∧ c.val.toNat < 0x110000 := c.valid
  have large : ∀ {n : Nat}, n < 0x100 → 0x80 ≤ n → ¬ UInt8.ofNat n < 0x80 := fun small least => by
    rw [ofNat_lt_iff small]
    exact Nat.not_lt.mpr least
  rw [String.utf8EncodeChar]
  generalize c.val.toNat = code at bound ⊢
  split_ifs with one two three
  · have single : UInt8.ofNat code < 0x80 := (ofNat_lt_iff (by omega)).mpr (Nat.lt_succ_of_le one)
    rw [List.singleton_append, faultWithin?, if_pos single]
    rfl
  · have lead : followers? (UInt8.ofNat (code / 64 % 32 + 192)) = some (0x80, 0xBF, 0) := by
      rw [followers?_ofNat (by omega), if_pos (by omega)]
    exact faultWithin?_several [] index (large (by omega) (by omega)) lead (trailing_within code)
      (List.forall_mem_nil _) rest
  · obtain ⟨low, high, lead, fits⟩ := exists_followers?_three code (by omega) three (by omega)
    exact faultWithin?_several [_] index (large (by omega) (by omega)) lead fits
      (List.forall_mem_singleton.mpr (trailing_within code)) rest
  · obtain ⟨low, high, lead, fits⟩ := exists_followers?_four code (by omega) (by omega)
    have others : ∀ b ∈ [UInt8.ofNat (code / 64 % 64 + 0x80), UInt8.ofNat (code % 64 + 0x80)],
        0x80 ≤ b ∧ b ≤ 0xBF :=
      List.forall_mem_cons.mpr ⟨trailing_within (code / 64),
        List.forall_mem_singleton.mpr (trailing_within code)⟩
    exact faultWithin?_several _ index (large (by omega) (by omega)) lead fits others rest

theorem faultWithin?_encode (index : Nat) (text : Text) :
    faultWithin? index none (encode text) = none := by
  induction text generalizing index with
  | nil => rfl
  | cons c text induction => rw [encode_cons, faultWithin?_encodeChar, induction]

/-- A text is shown as it is. -/
theorem lossy_encode (text : Text) : lossy (encode text) = text := by
  rw [lossy]
  split
  · rw [decode?_encode, Option.getD_some]
  all_goals
    rename_i found
    rw [fault?, faultWithin?_encode] at found
    simp at found

end JsxCalls.Utf8
