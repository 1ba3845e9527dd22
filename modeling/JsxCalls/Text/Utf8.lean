import JsxCalls.Text.Basic

/-!
# UTF-8

Files and streams hold bytes, and so do the names of files. A text is stored as its UTF-8 encoding.
Bytes that are no such encoding are described by the place of the first fault, and they are shown
with a mark for every fault.
-/

namespace JsxCalls

/-- The content of a file or a stream, the name of a file, or an argument. -/
abbrev Bytes := List UInt8

namespace Utf8

/-- The bytes of a text. -/
def encode (text : Text) : Bytes :=
  text.flatMap String.utf8EncodeChar

/-- The bytes of a string. -/
def bytes (string : String) : Bytes :=
  encode string.toList

/-- The byte of a character that has only one. -/
def byte (c : Char) : UInt8 :=
  c.toNat.toUInt8

/-- The text that bytes encode. -/
def decode? (bytes : Bytes) : Option Text :=
  (String.fromUTF8? bytes.toByteArray).map String.toList

theorem decode?_encode (text : Text) : decode? (encode text) = some text := by
  have bytes : (encode text).toByteArray = (String.ofList text).toByteArray := by
    simp [encode, List.utf8Encode]
  have read : String.fromUTF8? (String.ofList text).toByteArray = some (String.ofList text) :=
    dif_pos (String.ofList text).isValidUTF8
  rw [decode?, bytes, read, Option.map_some, String.toList_ofList]

theorem decode?_eq_some_iff {bytes : Bytes} {text : Text} :
    decode? bytes = some text ↔ bytes = encode text := by
  constructor
  · intro decoded
    obtain ⟨string, read, rfl⟩ := Option.map_eq_some_iff.mp decoded
    have bytes_eq : string.toByteArray = bytes.toByteArray := by
      rw [String.fromUTF8?] at read
      split at read
      · rw [← Option.some.inj read]
        rfl
      · simp at read
    rw [← List.toByteArray_inj, ← bytes_eq]
    exact String.utf8Encode_toList.symm
  · rintro rfl
    exact decode?_encode text

/-- The first fault in a sequence of bytes. -/
structure Fault where
  /-- How many bytes before the fault are valid. -/
  index : Nat
  /-- How many bytes cannot be part of any character, or nothing if the bytes end within a
  character. -/
  length : Option Nat
deriving DecidableEq, Repr

/-- The bytes that may follow the first byte of a character: the range of the second byte and the
number of continuation bytes behind it. -/
def followers? (first : UInt8) : Option (UInt8 × UInt8 × Nat) :=
  if 0xC2 ≤ first ∧ first ≤ 0xDF then some (0x80, 0xBF, 0)
  else if first = 0xE0 then some (0xA0, 0xBF, 1)
  else if first = 0xED then some (0x80, 0x9F, 1)
  else if 0xE1 ≤ first ∧ first ≤ 0xEF then some (0x80, 0xBF, 1)
  else if first = 0xF0 then some (0x90, 0xBF, 2)
  else if 0xF1 ≤ first ∧ first ≤ 0xF3 then some (0x80, 0xBF, 2)
  else if first = 0xF4 then some (0x80, 0x8F, 2)
  else none

/-- The first fault in bytes before which `index` bytes are valid. The bytes of a character that is
not yet complete are counted by `started`, the range of its next byte is given, and `missing` more
continuation bytes follow that one. -/
def faultWithin? (index : Nat) : Option (Nat × UInt8 × UInt8 × Nat) → Bytes → Option Fault
  | none, [] => none
  | some _, [] => some ⟨index, none⟩
  | none, byte :: bytes =>
    if byte < 0x80 then faultWithin? (index + 1) none bytes
    else
      match followers? byte with
      | none => some ⟨index, some 1⟩
      | some (low, high, missing) => faultWithin? index (some (1, low, high, missing)) bytes
  | some (started, low, high, missing), byte :: bytes =>
    if low ≤ byte ∧ byte ≤ high then
      match missing with
      | 0 => faultWithin? (index + started + 1) none bytes
      | missing + 1 => faultWithin? index (some (started + 1, 0x80, 0xBF, missing)) bytes
    else some ⟨index, some started⟩

/-- The first fault in a sequence of bytes. -/
def fault? (bytes : Bytes) : Option Fault :=
  faultWithin? 0 none bytes

/-- How a fault is described. -/
def Fault.message (fault : Fault) : String :=
  match fault.length with
  | some length => s!"invalid utf-8 sequence of {length} bytes from index {fault.index}"
  | none => s!"incomplete utf-8 byte sequence from index {fault.index}"

/-! ## Showing bytes -/

theorem length_pos_of_faultWithin? {index : Nat} {started : Option (Nat × UInt8 × UInt8 × Nat)}
    {bytes : Bytes} {fault : Fault} {length : Nat}
    (counted : ∀ character ∈ started, 0 < character.1)
    (found : faultWithin? index started bytes = some fault) (cut : fault.length = some length) :
    0 < length ∧ bytes ≠ [] := by
  fun_induction faultWithin? index started bytes with
  | case1 index => simp at found
  | case2 index character => simp [← Option.some.inj found] at cut
  | case3 index byte bytes single induction => exact ⟨(induction (by simp) found).1, by simp⟩
  | case4 index byte bytes long strange =>
    obtain rfl : 1 = length := by simpa [← Option.some.inj found] using cut
    exact ⟨Nat.one_pos, by simp⟩
  | case5 index byte bytes long low high missing first induction =>
    exact ⟨(induction (by simp) found).1, by simp⟩
  | case6 index started low high byte bytes fits induction =>
    exact ⟨(induction (by simp) found).1, by simp⟩
  | case7 index started low high byte bytes fits missing induction =>
    exact ⟨(induction (by simp) found).1, by simp⟩
  | case8 index started low high missing byte bytes misfit =>
    obtain rfl : started = length := by simpa [← Option.some.inj found] using cut
    exact ⟨counted _ rfl, by simp⟩

/-- The mark for bytes that are no text. -/
def replacement : Char := '\uFFFD'

/-- The text that bytes encode, with a mark in the place of every fault. -/
def lossy (bytes : Bytes) : Text :=
  match _ : fault? bytes with
  | none => (decode? bytes).getD []
  | some ⟨index, none⟩ => (decode? (bytes.take index)).getD [] ++ [replacement]
  | some ⟨index, some length⟩ =>
    (decode? (bytes.take index)).getD [] ++ replacement :: lossy (bytes.drop (index + length))
termination_by bytes.length
decreasing_by
  have counted := length_pos_of_faultWithin? (by simp) ‹fault? bytes = _› rfl
  have filled := List.length_pos_iff.mpr counted.2
  rw [List.length_drop]
  omega

end Utf8

end JsxCalls
