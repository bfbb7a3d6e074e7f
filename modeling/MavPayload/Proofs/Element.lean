import MavPayload.Element
import MavPayload.Proofs.Text.Utf8
import Mathlib.Data.List.TakeWhile

/-! One element of a field, written and read again. A number comes back bit for bit. A
text comes back as far as the buffer carries it, which may be less than all of it. -/
namespace MavPayload

@[simp] theorem littleEndian_length (count value : Nat) :
    (littleEndian count value).length = count := by
  induction count generalizing value with
  | zero => rfl
  | succ count ih => simp [littleEndian,ih]

theorem ofLittleEndian_littleEndian (count value : Nat) :
    ofLittleEndian (littleEndian count value) = value % Nat.pow 256 count := by
  induction count generalizing value with
  | zero => simp [littleEndian,ofLittleEndian,Nat.pow,Nat.mod_one]
  | succ count ih =>
    have octet : (UInt8.ofNat (value % 256)).toNat = value % 256 := by
      rw [UInt8.toNat_ofNat']
      exact Nat.mod_mod _ _
    have power : Nat.pow 256 (count + 1) = 256 * Nat.pow 256 count := Nat.mul_comm _ _
    rw [littleEndian,ofLittleEndian,ih,octet,power,Nat.mod_mul]

@[simp] theorem ofLittleEndian_zeros (count : Nat) :
    ofLittleEndian (List.replicate count 0) = 0 := by
  induction count with
  | zero => rfl
  | succ count ih => simp [List.replicate_succ,ofLittleEndian,ih]

theorem littleEndian_ofLittleEndian (bytes : List UInt8) :
    littleEndian bytes.length (ofLittleEndian bytes) = bytes := by
  induction bytes with
  | nil => rfl
  | cons byte rest ih =>
    have small := byte.toNat_lt
    have low : (byte.toNat + 256 * ofLittleEndian rest) % 256 = byte.toNat := by omega
    have high : (byte.toNat + 256 * ofLittleEndian rest) / 256 = ofLittleEndian rest := by omega
    rw [List.length_cons,ofLittleEndian,littleEndian,low,high,ih,UInt8.ofNat_toNat]

theorem ofLittleEndian_lt (bytes : List UInt8) :
    ofLittleEndian bytes < Nat.pow 256 bytes.length := by
  induction bytes with
  | nil => decide
  | cons byte rest ih =>
    have small := byte.toNat_lt
    have power : Nat.pow 256 (rest.length + 1) = 256 * Nat.pow 256 rest.length := Nat.mul_comm _ _
    rw [ofLittleEndian,List.length_cons,power]
    omega

/-- Each of several parts of one size stands where its place says. -/
theorem flatMap_part {α : Type} {size : Nat} {part : α → List UInt8}
    (sized : ∀ item, (part item).length = size) (items : List α) {place : Nat}
    (inside : place < items.length) :
    ((items.flatMap part).drop (size * place)).take size = part items[place] := by
  induction items generalizing place with
  | nil => cases inside
  | cons first rest ih =>
    have width := sized first
    cases place with
    | zero => rw [Nat.mul_zero,List.drop_zero,List.flatMap_cons,List.take_left' width]; rfl
    | succ place =>
      rw [Nat.mul_succ,Nat.add_comm,← List.drop_drop,List.flatMap_cons,List.drop_left' width]
      exact ih (Nat.lt_of_succ_lt_succ inside)

theorem getElem?_overwrite (bytes buffer : List UInt8) (place : Nat) :
    (overwrite bytes buffer)[place]? =
      if place < bytes.length then bytes[place]? else buffer[place]? := by
  rw [overwrite]
  split
  · rename_i within
    rw [List.getElem?_append_left within]
  · rename_i beyond
    rw [List.getElem?_append_right (by omega),List.getElem?_drop]
    congr 1
    omega

theorem overwrite_length {bytes buffer : List UInt8} (room : bytes.length ≤ buffer.length) :
    (overwrite bytes buffer).length = buffer.length := by
  rw [overwrite,List.length_append,List.length_drop]
  omega

namespace NumericType

@[simp] theorem encode_length (type : NumericType) (bits : BitVec type.width) :
    (type.encode bits).length = type.size :=
  littleEndian_length _ _

theorem patterns_eq (type : NumericType) : Nat.pow 256 type.size = Nat.pow 2 type.width :=
  (Nat.pow_mul 2 8 type.size).symm

@[simp] theorem decode_encode (type : NumericType) (bits : BitVec type.width) :
    type.decode (type.encode bits) = bits := by
  have small : bits.toNat < Nat.pow 256 type.size := by
    rw [patterns_eq]
    exact bits.isLt
  rw [decode,List.take_of_length_le (by simp),encode,ofLittleEndian_littleEndian,
    Nat.mod_eq_of_lt small,BitVec.ofNat_toNat,BitVec.setWidth_eq]

theorem encode_decode {type : NumericType} {bytes : List UInt8} (sized : bytes.length = type.size) :
    type.encode (type.decode bytes) = bytes := by
  have small : (type.decode bytes).toNat = ofLittleEndian bytes := by
    have bound := ofLittleEndian_lt bytes
    rw [sized,patterns_eq] at bound
    rw [decode,List.take_of_length_le (Nat.le_of_eq sized),BitVec.toNat_ofNat]
    exact Nat.mod_eq_of_lt bound
  rw [encode,small,← sized,littleEndian_ofLittleEndian]

theorem decode_zeros (type : NumericType) (count : Nat) :
    type.decode (List.replicate count 0) = 0 := by
  simp [decode,List.take_replicate]

end NumericType

namespace CharBuffer

section

variable {α : Type} [BEq α] [LawfulBEq α] {zero : α} {front : List α}

theorem takeWhile_nonzero (nonzero : zero ∉ front) : front.takeWhile (· != zero) = front := by
  rw [List.takeWhile_eq_self_iff]
  intro item member
  rw [bne_iff_ne]
  rintro rfl
  exact nonzero member

theorem takeWhile_nonzero_cons (nonzero : zero ∉ front) (rest : List α) :
    (front ++ zero :: rest).takeWhile (· != zero) = front := by
  rw [List.takeWhile_append_of_pos (List.takeWhile_eq_self_iff.mp (takeWhile_nonzero nonzero))]
  simp

end

/-- The text that a buffer of `length` octets carries of a text: its first octets before
the first zero, read as far as they are characters. -/
def carried (length : Nat) (text : String) : String :=
  Text.Utf8.decodeLossy (((Text.Utf8.encode text).take length).takeWhile (· != 0))

@[simp] theorem encode_length (length : Nat) (text : String) :
    (encode length text).length = length := by
  simp only [encode,List.length_append,List.length_replicate,List.length_take]
  omega

theorem decode_encode (length : Nat) (text : String) :
    decode length (encode length text) = carried length text := by
  have zeros (count : Nat) :
      (List.replicate count (0 : UInt8)).takeWhile (· != 0) = [] := by
    cases count <;> simp [List.replicate_succ]
  have cut (bytes : List UInt8) (count : Nat) :
      (bytes ++ List.replicate count 0).takeWhile (· != 0) = bytes.takeWhile (· != 0) := by
    rw [List.takeWhile_append,zeros,List.append_nil]
    split
    · rename_i all
      exact ((List.takeWhile_prefix _).eq_of_length all).symm
    · rfl
  rw [decode,List.take_of_length_le (by simp)]
  simp only [encode,cut,carried]

theorem carried_eq_self {length : Nat} {text : String}
    (fits : (Text.Utf8.encode text).length ≤ length) (noZero : '\x00' ∉ text.toList) :
    carried length text = text := by
  have nonzero : 0 ∉ Text.Utf8.encode text :=
    fun member => noZero (Text.Utf8.zero_mem_encodeChars.mp member)
  rw [carried,List.take_of_length_le fits,takeWhile_nonzero nonzero,Text.Utf8.decodeLossy_encode]

theorem carried_empty (length : Nat) : carried length "" = "" := by
  rw [carried]
  simp [Text.Utf8.encode,Text.Utf8.decodeLossy,Text.Utf8.readFrom]

end CharBuffer

end MavPayload
