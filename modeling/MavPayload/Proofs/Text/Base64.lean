import MavPayload.Text.Base64

/-! Octets come back from their base64 text. -/
namespace MavPayload.Text.Base64

theorem value?_digit (value : Nat) (small : value < 64) :
    value? (digit value) = some value ∧ digit value ≠ '=' := by
  revert value
  decide

theorem value?_first (a : UInt8) :
    value? (digit (a.toNat / 4)) = some (a.toNat / 4) :=
  (value?_digit _ (by have := a.toNat_lt; omega)).1

theorem value?_second (a b : UInt8) :
    value? (digit (a.toNat % 4 * 16 + b.toNat / 16)) = some (a.toNat % 4 * 16 + b.toNat / 16) :=
  (value?_digit _ (by have := b.toNat_lt; omega)).1

theorem value?_third (b c : UInt8) :
    value? (digit (b.toNat % 16 * 4 + c.toNat / 64)) = some (b.toNat % 16 * 4 + c.toNat / 64) :=
  (value?_digit _ (by have := c.toNat_lt; omega)).1

theorem octet_eq {octet : UInt8} {value : Nat} (same : value = octet.toNat) :
    UInt8.ofNat value = octet := by
  rw [same,UInt8.ofNat_toNat]

theorem first_octet (a b : UInt8) :
    UInt8.ofNat (4 * (a.toNat / 4) + (a.toNat % 4 * 16 + b.toNat / 16) / 16) = a :=
  octet_eq (by have := b.toNat_lt; omega)

theorem second_octet (a b c : UInt8) :
    UInt8.ofNat ((a.toNat % 4 * 16 + b.toNat / 16) % 16 * 16 +
      (b.toNat % 16 * 4 + c.toNat / 64) / 4) = b :=
  octet_eq (by have := b.toNat_lt; have := c.toNat_lt; omega)

theorem third_octet (b c : UInt8) :
    UInt8.ofNat ((b.toNat % 16 * 4 + c.toNat / 64) % 4 * 64 + c.toNat % 64) = c :=
  octet_eq (by have := c.toNat_lt; omega)

theorem decodeGroup?_encode (a b c : UInt8) :
    decodeGroup? (digit (a.toNat / 4)) (digit (a.toNat % 4 * 16 + b.toNat / 16))
      (digit (b.toNat % 16 * 4 + c.toNat / 64)) (digit (c.toNat % 64)) = some [a,b,c] := by
  have last := (value?_digit (c.toNat % 64) (by omega)).1
  simp only [decodeGroup?,value?_first,value?_second,value?_third,last,Option.bind_eq_bind,
    Option.bind_some,first_octet,second_octet,third_octet]
  rfl

theorem decode?_group (a b c : Char) {d : Char} (digit : d ≠ '=') (rest : List Char) :
    decode? (a :: b :: c :: d :: rest) = do
      let group ← decodeGroup? a b c d
      return group ++ (← decode? rest) := by
  rw [decode?]
  exact fun _ same => absurd same digit

theorem decode?_encode (bytes : List UInt8) : decode? (encode bytes) = some bytes := by
  induction bytes using encode.induct with
  | case1 => rfl
  | case2 a =>
    have zero : (0 : UInt8).toNat = 0 := rfl
    have second := value?_second a 0
    have whole := first_octet a 0
    rw [zero,Nat.zero_div,Nat.add_zero] at second whole
    have unused : a.toNat % 4 * 16 % 16 = 0 := by omega
    rw [encode,decode?,decodeEnd?]
    simp only [value?_first,second,Option.bind_eq_bind,Option.bind_some,unused,if_true,whole]
  | case3 a b =>
    have zero : (0 : UInt8).toNat = 0 := rfl
    have third := value?_third b 0
    have whole := second_octet a b 0
    rw [zero,Nat.zero_div,Nat.add_zero] at third whole
    have unused : b.toNat % 16 * 4 % 4 = 0 := by omega
    rw [encode,decode?,decodeEnd?]
    simp only [value?_first,value?_second,third,Option.bind_eq_bind,Option.bind_some,unused,if_true,
      first_octet,whole]
    exact (value?_digit _ (by omega)).2
  | case4 a b c rest ih =>
    have digit := (value?_digit (c.toNat % 64) (by omega)).2
    rw [encode,decode?_group _ _ _ digit,decodeGroup?_encode,ih]
    rfl

end MavPayload.Text.Base64
