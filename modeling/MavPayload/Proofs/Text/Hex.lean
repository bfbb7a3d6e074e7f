import MavPayload.Text.Hex
import MavPayload.Text.Utf8

/-! Octets come back from their hexadecimal digits, which are all of one octet themselves. -/
namespace MavPayload.Text.Hex

/-- A digit is one octet of a text, and that octet is read as the digit. -/
theorem utf8EncodeChar_digit (value : Nat) (small : value < 16) :
    ∃ byte, String.utf8EncodeChar (digit value) = [byte] ∧
      value? (Char.ofNat byte.toNat) = some value := by
  revert value
  have each : ∀ value < 16,
      String.utf8EncodeChar (digit value) = [UInt8.ofNat (digit value).toNat] ∧
        value? (Char.ofNat (UInt8.ofNat (digit value).toNat).toNat) = some value := by
    decide
  exact fun value small => ⟨_,each value small⟩

theorem high_lt (byte : UInt8) : byte.toNat / 16 < 16 := by
  have bound := byte.toNat_lt
  omega

theorem low_lt (byte : UInt8) : byte.toNat % 16 < 16 :=
  Nat.mod_lt _ (by decide)

theorem pair_octets (byte : UInt8) :
    ∃ high low, (pair byte).flatMap String.utf8EncodeChar = [high,low] ∧
      value? (Char.ofNat high.toNat) = some (byte.toNat / 16) ∧
      value? (Char.ofNat low.toNat) = some (byte.toNat % 16) := by
  obtain ⟨high,highText,highRead⟩ := utf8EncodeChar_digit _ (high_lt byte)
  obtain ⟨low,lowText,lowRead⟩ := utf8EncodeChar_digit _ (low_lt byte)
  refine ⟨high,low,?_,highRead,lowRead⟩
  simp only [pair,List.flatMap_cons,List.flatMap_nil,highText,lowText,List.append_nil,
    List.singleton_append]

theorem encode_octets_length (bytes : List UInt8) :
    ((encode bytes).flatMap String.utf8EncodeChar).length = 2 * bytes.length := by
  induction bytes with
  | nil => rfl
  | cons byte rest ih =>
    obtain ⟨high,low,text,_⟩ := pair_octets byte
    rw [encode] at ih
    rw [encode,List.flatMap_cons,List.flatMap_append,List.length_append,text,ih]
    simp only [List.length_cons,List.length_nil]
    omega

theorem decodePairs_encode (position : Nat) (bytes : List UInt8) :
    decodePairs position ((encode bytes).flatMap String.utf8EncodeChar) = .ok bytes := by
  induction bytes generalizing position with
  | nil => rfl
  | cons byte rest ih =>
    obtain ⟨high,low,text,highRead,lowRead⟩ := pair_octets byte
    have later := ih (position + 2)
    have whole : 16 * (byte.toNat / 16) + byte.toNat % 16 = byte.toNat := Nat.div_add_mod _ _
    rw [encode] at later
    rw [encode,List.flatMap_cons,List.flatMap_append,text]
    simp only [List.cons_append,List.nil_append,decodePairs,highRead,lowRead,later,whole,
      UInt8.ofNat_toNat]
    rfl

theorem decode_encode (bytes : List UInt8) :
    decode (Utf8.encode (String.ofList (encode bytes))) = .ok bytes := by
  have even : ¬2 * bytes.length % 2 = 1 := by omega
  rw [Utf8.encode,String.toList_ofList,decode,encode_octets_length,if_neg even,decodePairs_encode]

theorem spaced_cons (first second : UInt8) (rest : List UInt8) :
    spaced (first :: second :: rest) = pair first ++ ' ' :: spaced (second :: rest) := by
  simp [spaced,List.intercalate]

theorem spaced_ends (first : UInt8) (rest : List UInt8) :
    (∃ back, spaced (first :: rest) = pair first ++ back) ∧
      ∃ front value, value < 16 ∧ spaced (first :: rest) = front ++ [digit value] := by
  induction rest generalizing first with
  | nil =>
    have alone : spaced [first] = pair first := by simp [spaced,List.intercalate]
    rw [alone]
    exact ⟨⟨[],(List.append_nil _).symm⟩,[digit (first.toNat / 16)],_,low_lt first,rfl⟩
  | cons second rest ih =>
    obtain ⟨_,front,value,small,same⟩ := ih second
    rw [spaced_cons,same]
    exact ⟨⟨_,rfl⟩,pair first ++ ' ' :: front,value,small,by simp⟩

end MavPayload.Text.Hex
