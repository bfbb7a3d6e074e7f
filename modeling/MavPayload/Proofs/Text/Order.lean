import MavPayload.Text.Utf8
import Mathlib.Data.String.Basic
import Mathlib.Tactic.SplitIfs

/-! The order of texts. Characters encode in such a way that texts compare by their octets as
they do by their characters. -/
namespace MavPayload.Text.Utf8

theorem ofNat_lt_iff {first second : Nat} (small : first < 256) (bounded : second < 256) :
    UInt8.ofNat first < UInt8.ofNat second ↔ first < second := by
  rw [UInt8.lt_iff_toNat_lt,UInt8.toNat_ofNat',UInt8.toNat_ofNat',Nat.mod_eq_of_lt small,
    Nat.mod_eq_of_lt bounded]

theorem ofNat_inj {first second : Nat} (small : first < 256) (bounded : second < 256) :
    UInt8.ofNat first = UInt8.ofNat second ↔ first = second := by
  rw [← UInt8.toNat_inj,UInt8.toNat_ofNat',UInt8.toNat_ofNat',Nat.mod_eq_of_lt small,
    Nat.mod_eq_of_lt bounded]

/-- The octets of two characters differ before either of them ends. -/
theorem encodeChar_lt {first second : Char} (less : first < second) (left right : List UInt8) :
    String.utf8EncodeChar first ++ left < String.utf8EncodeChar second ++ right := by
  have least : first.val.toNat < second.val.toNat := less
  have most : second.val.toNat < 0x110000 := by
    have valid : second.val.toNat < 0xD800 ∨
      (0xDFFF < second.val.toNat ∧ second.val.toNat < 0x110000) := second.valid
    omega
  simp only [String.utf8EncodeChar]
  generalize first.val.toNat = low at least ⊢
  generalize second.val.toNat = high at least most ⊢
  have digits : low / 64 < high / 64 ∨ low / 64 = high / 64 ∧ low % 64 < high % 64 := by omega
  -- One case for each two lengths. Where these differ, the first octets do.
  rcases digits with front | ⟨same,last⟩ <;> split_ifs <;>
    simp (disch := omega) only [List.cons_append,List.nil_append,List.cons_lt_cons_iff,
      ofNat_lt_iff,ofNat_inj] <;> omega

theorem encodeChars_lt {first second : List Char} (less : first < second) :
    first.flatMap String.utf8EncodeChar < second.flatMap String.utf8EncodeChar := by
  induction less with
  | nil =>
    rename_i char rest
    cases octets : String.utf8EncodeChar char with
    | nil =>
      have size := String.length_utf8EncodeChar char
      rw [octets] at size
      exact absurd size (Nat.ne_of_lt char.utf8Size_pos)
    | cons octet others => simp [octets]
  | rel before => exact encodeChar_lt before _ _
  | cons _ ih => exact List.append_left_lt ih

theorem encode_lt_iff {first second : String} : encode first < encode second ↔ first < second := by
  have increasing {first second : String} (less : first < second) : encode first < encode second :=
    encodeChars_lt (String.lt_iff.mp less)
  refine ⟨fun before => ?_,increasing⟩
  rcases lt_trichotomy first second with less | rfl | more
  · exact less
  · exact absurd before (List.lt_irrefl _)
  · exact absurd before (List.lt_asymm (increasing more))

end MavPayload.Text.Utf8
