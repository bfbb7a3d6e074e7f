import MavPayload.Text.Utf8
import Mathlib.Tactic.SplitIfs

/-! Text that has been written as octets is read back as it was, one character at a time
and whatever octets follow. -/
namespace MavPayload.Text.Utf8

private theorem start_one : ∀ value < 0x80,
    start (UInt8.ofNat value) = ([Char.ofNat value],none) := by
  decide

private theorem start_two : ∀ lead < 0x20, 2 ≤ lead →
    start (UInt8.ofNat (lead + 0xC0)) = ([],some ⟨0,0x80,0xBF,lead⟩) := by
  decide

private theorem start_three : ∀ lead < 0x10,
    start (UInt8.ofNat (lead + 0xE0)) =
      ([],some ⟨1,if lead = 0 then 0xA0 else 0x80,if lead = 0xD then 0x9F else 0xBF,lead⟩) := by
  decide

private theorem start_four : ∀ lead < 5,
    start (UInt8.ofNat (lead + 0xF0)) =
      ([],some ⟨2,if lead = 0 then 0x90 else 0x80,if lead = 4 then 0x8F else 0xBF,lead⟩) := by
  decide

private theorem within {low high : UInt8} {tail : Nat} (least : low.toNat ≤ tail + 0x80)
    (greatest : tail + 0x80 ≤ high.toNat) :
    low ≤ UInt8.ofNat (tail + 0x80) ∧ UInt8.ofNat (tail + 0x80) ≤ high := by
  have bound := high.toNat_lt
  rw [UInt8.le_iff_toNat_le,UInt8.le_iff_toNat_le,UInt8.toNat_ofNat',Nat.mod_eq_of_lt (by omega)]
  exact ⟨least,greatest⟩

private theorem tail_value {tail : Nat} (small : tail < 0x40) :
    (UInt8.ofNat (tail + 0x80)).toNat - 0x80 = tail := by
  rw [UInt8.toNat_ofNat',Nat.mod_eq_of_lt (by omega),Nat.add_sub_cancel]

/-- The second of three octets is in the range that the first one sets, which shuts out
overlong forms and surrogates. -/
private theorem second_of_three {value : Nat} (least : 0x7FF < value) (greatest : value ≤ 0xFFFF)
    (valid : value < 0xD800 ∨ 0xDFFF < value) :
    (if value / 4096 = 0 then (0xA0 : UInt8) else 0x80).toNat ≤ value / 64 % 0x40 + 0x80 ∧
      value / 64 % 0x40 + 0x80 ≤
        (if value / 4096 = 0xD then (0x9F : UInt8) else 0xBF).toNat := by
  constructor <;> split_ifs <;> simp only [UInt8.reduceToNat] <;> omega

/-- The second of four octets is in the range that the first one sets, which shuts out
overlong forms and what is above the last character. -/
private theorem second_of_four {value : Nat} (least : 0xFFFF < value)
    (greatest : value < 0x110000) :
    (if value / 262144 = 0 then (0x90 : UInt8) else 0x80).toNat ≤ value / 4096 % 0x40 + 0x80 ∧
      value / 4096 % 0x40 + 0x80 ≤
        (if value / 262144 = 4 then (0x8F : UInt8) else 0xBF).toNat := by
  constructor <;> split_ifs <;> simp only [UInt8.reduceToNat] <;> omega

theorem readFrom_start {byte : UInt8} {chars : List Char} {next : Option Unfinished}
    (started : start byte = (chars,next)) (rest : List UInt8) :
    readFrom none (byte :: rest) = chars ++ readFrom next rest := by
  simp only [readFrom,step,started]

theorem readFrom_more {more lead tail : Nat} {low high : UInt8}
    (least : low.toNat ≤ tail + 0x80) (greatest : tail + 0x80 ≤ high.toNat) (small : tail < 0x40)
    (rest : List UInt8) :
    readFrom (some ⟨more + 1,low,high,lead⟩) (UInt8.ofNat (tail + 0x80) :: rest) =
      readFrom (some ⟨more,0x80,0xBF,lead * 64 + tail⟩) rest := by
  simp only [readFrom,step,proceed,within least greatest,and_self,if_true,tail_value small,
    List.nil_append]

theorem readFrom_last {lead tail : Nat} {low high : UInt8}
    (least : low.toNat ≤ tail + 0x80) (greatest : tail + 0x80 ≤ high.toNat) (small : tail < 0x40)
    (rest : List UInt8) :
    readFrom (some ⟨0,low,high,lead⟩) (UInt8.ofNat (tail + 0x80) :: rest) =
      Char.ofNat (lead * 64 + tail) :: readFrom none rest := by
  simp only [readFrom,step,proceed,within least greatest,and_self,if_true,tail_value small,
    List.cons_append,List.nil_append]

theorem readFrom_encodeChar (char : Char) (rest : List UInt8) :
    readFrom none (String.utf8EncodeChar char ++ rest) = char :: readFrom none rest := by
  have valid : char.val.toNat < 0xD800 ∨
    (0xDFFF < char.val.toNat ∧ char.val.toNat < 0x110000) := char.valid
  have same : Char.ofNat char.val.toNat = char := Char.ofNat_toNat char
  have tail (value : Nat) : value % 0x40 < 0x40 := Nat.mod_lt _ (by decide)
  simp only [String.utf8EncodeChar]
  generalize char.val.toNat = value at valid same ⊢
  have least (value : Nat) : (0x80 : UInt8).toNat ≤ value % 0x40 + 0x80 := Nat.le_add_left _ _
  have greatest (value : Nat) : value % 0x40 + 0x80 ≤ (0xBF : UInt8).toNat :=
    Nat.add_le_add_right (Nat.le_of_lt_succ (tail value)) 0x80
  -- One case for each length.
  split_ifs with one two three
  · simp only [List.cons_append,List.nil_append]
    rw [readFrom_start (start_one value (by omega)),same]
    rfl
  · have lead : value / 64 % 0x20 = value / 64 := by omega
    simp only [List.cons_append,List.nil_append,lead]
    rw [readFrom_start (start_two (value / 64) (by omega) (by omega)),List.nil_append,
      readFrom_last (least _) (greatest _) (tail _)]
    rw [show value / 64 * 64 + value % 64 = value by omega,same]
  · have lead : value / 4096 % 0x10 = value / 4096 := by omega
    have second := second_of_three (by omega) (by omega) (by omega : value < 0xD800 ∨ 0xDFFF < value)
    simp only [List.cons_append,List.nil_append,lead]
    rw [readFrom_start (start_three (value / 4096) (by omega)),List.nil_append,
      readFrom_more second.1 second.2 (tail _),readFrom_last (least _) (greatest _) (tail _)]
    rw [show (value / 4096 * 64 + value / 64 % 64) * 64 + value % 64 = value by omega,same]
  · have lead : value / 262144 % 0x08 = value / 262144 := by omega
    have second := second_of_four (by omega) (by omega : value < 0x110000)
    simp only [List.cons_append,List.nil_append,lead]
    rw [readFrom_start (start_four (value / 262144) (by omega)),List.nil_append,
      readFrom_more second.1 second.2 (tail _),readFrom_more (least _) (greatest _) (tail _),
      readFrom_last (least _) (greatest _) (tail _)]
    rw [show ((value / 262144 * 64 + value / 4096 % 64) * 64 + value / 64 % 64) * 64 +
      value % 64 = value by omega,same]

theorem readFrom_torn (char : Char) {count : Nat} (begun : 0 < count)
    (short : count < (String.utf8EncodeChar char).length) :
    readFrom none ((String.utf8EncodeChar char).take count) = [replacement] := by
  have valid : char.val.toNat < 0xD800 ∨
    (0xDFFF < char.val.toNat ∧ char.val.toNat < 0x110000) := char.valid
  have tail (value : Nat) : value % 0x40 < 0x40 := Nat.mod_lt _ (by decide)
  simp only [String.utf8EncodeChar] at short ⊢
  generalize char.val.toNat = value at valid short ⊢
  have least (value : Nat) : (0x80 : UInt8).toNat ≤ value % 0x40 + 0x80 := Nat.le_add_left _ _
  have greatest (value : Nat) : value % 0x40 + 0x80 ≤ (0xBF : UInt8).toNat :=
    Nat.add_le_add_right (Nat.le_of_lt_succ (tail value)) 0x80
  -- For each length, the octets that are left are read up to the end, which finds a
  -- character unfinished.
  split_ifs at short ⊢ with one two three
  · simp only [List.length_singleton] at short
    omega
  · have lead : value / 64 % 0x20 = value / 64 := by omega
    simp only [List.length_cons,List.length_nil] at short
    obtain rfl : count = 1 := by omega
    rw [List.take_succ_cons,lead,readFrom_start (start_two (value / 64) (by omega) (by omega))]
    rfl
  · have lead : value / 4096 % 0x10 = value / 4096 := by omega
    have second := second_of_three (by omega) (by omega) (by omega : value < 0xD800 ∨ 0xDFFF < value)
    simp only [List.length_cons,List.length_nil] at short
    have counts : count = 1 ∨ count = 2 := by omega
    rcases counts with rfl | rfl <;>
      simp only [List.take_succ_cons,List.take_zero,lead]
    · rw [readFrom_start (start_three (value / 4096) (by omega))]
      rfl
    · rw [readFrom_start (start_three (value / 4096) (by omega)),List.nil_append,
        readFrom_more second.1 second.2 (tail _)]
      rfl
  · have lead : value / 262144 % 0x08 = value / 262144 := by omega
    have second := second_of_four (by omega) (by omega : value < 0x110000)
    simp only [List.length_cons,List.length_nil] at short
    have counts : count = 1 ∨ count = 2 ∨ count = 3 := by omega
    rcases counts with rfl | rfl | rfl <;>
      simp only [List.take_succ_cons,List.take_zero,lead]
    · rw [readFrom_start (start_four (value / 262144) (by omega))]
      rfl
    · rw [readFrom_start (start_four (value / 262144) (by omega)),List.nil_append,
        readFrom_more second.1 second.2 (tail _)]
      rfl
    · rw [readFrom_start (start_four (value / 262144) (by omega)),List.nil_append,
        readFrom_more second.1 second.2 (tail _),readFrom_more (least _) (greatest _) (tail _)]
      rfl

/-- No character has an octet of zero but the one with the number zero. -/
theorem zero_mem_encodeChar {char : Char} :
    0 ∈ String.utf8EncodeChar char ↔ char = '\x00' := by
  constructor
  · intro member
    have octet {value : Nat} (small : value < 256) (zero : 0 = UInt8.ofNat value) : value = 0 := by
      have number := congrArg UInt8.toNat zero
      rw [UInt8.toNat_ofNat',Nat.mod_eq_of_lt small] at number
      exact number.symm
    simp only [String.utf8EncodeChar] at member
    split_ifs at member with one two three <;>
      simp only [List.mem_cons,List.not_mem_nil,or_false] at member
    · have zero : char.val.toNat = 0 := octet (by omega) member
      rw [← Char.ofNat_toNat char]
      exact congrArg Char.ofNat zero
    · rcases member with zero | zero <;> exact absurd (octet (by omega) zero) (by omega)
    · rcases member with zero | zero | zero <;> exact absurd (octet (by omega) zero) (by omega)
    · rcases member with zero | zero | zero | zero <;>
        exact absurd (octet (by omega) zero) (by omega)
  · rintro rfl
    decide

theorem zero_mem_encodeChars {chars : List Char} :
    0 ∈ chars.flatMap String.utf8EncodeChar ↔ '\x00' ∈ chars := by
  constructor
  · intro member
    obtain ⟨char,inside,zero⟩ := List.mem_flatMap.mp member
    rwa [zero_mem_encodeChar.mp zero] at inside
  · intro member
    exact List.mem_flatMap.mpr ⟨_,member,zero_mem_encodeChar.mpr rfl⟩

theorem readFrom_encodeChars (chars : List Char) (rest : List UInt8) :
    readFrom none (chars.flatMap String.utf8EncodeChar ++ rest) = chars ++ readFrom none rest := by
  induction chars with
  | nil => rfl
  | cons char others ih =>
    rw [List.flatMap_cons,List.append_assoc,readFrom_encodeChar,ih,List.cons_append]

theorem decodeLossy_encode (text : String) : decodeLossy (encode text) = text := by
  have read := readFrom_encodeChars text.toList []
  rw [List.append_nil] at read
  rw [decodeLossy,encode,read,readFrom,List.append_nil,String.ofList_toList]

end MavPayload.Text.Utf8
