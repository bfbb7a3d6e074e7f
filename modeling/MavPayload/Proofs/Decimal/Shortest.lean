import MavPayload.Decimal.Shortest
import MavPayload.Proofs.Binary.Format

/-! The decimal chosen for a number reads as that number. Candidates are read before one is
chosen; if none is, the number written out in full takes their place, and it lies well
between the decimals that are too far away to be computed. -/
namespace MavPayload.Decimal

theorem value_eq (decimal : Decimal) :
    decimal.value = decimal.digits * (10 : Rat) ^ decimal.exponent := by
  rw [value,Binary.scaled_eq (by decide),Nat.cast_ofNat]

theorem digitCount_le_iff {value count : Nat} (positive : 0 < count) :
    digitCount value ≤ count ↔ value < 10 ^ count :=
  Nat.length_toDigits_le_iff (by decide) positive

theorem digitCount_pos (value : Nat) : 0 < digitCount value :=
  Nat.length_toDigits_pos

theorem lt_pow_digitCount (value : Nat) : value < 10 ^ digitCount value :=
  (digitCount_le_iff (digitCount_pos value)).mp (le_refl _)

theorem pow_digitCount_le {value : Nat} (positive : 0 < value) :
    10 ^ (digitCount value - 1) ≤ value := by
  by_contra less
  rw [not_le] at less
  rcases Nat.eq_zero_or_pos (digitCount value - 1) with single | more
  · rw [single] at less
    omega
  · have fewer := (digitCount_le_iff more).mpr less
    omega

theorem digitCount_shift {value : Nat} (positive : 0 < value) (zeros : Nat) :
    digitCount (value * 10 ^ zeros) = digitCount value + zeros := by
  induction zeros with
  | zero => simp
  | succ zeros ih =>
    have shifted : 0 < value * 10 ^ zeros := by positivity
    rw [Nat.pow_succ,← Nat.mul_assoc,digitCount,Nat.toDigits_of_base_le (by decide) (by omega),
      Nat.mul_div_cancel _ (by decide),List.length_append,List.length_singleton]
    rw [digitCount] at ih
    omega

theorem value_shift (digits zeros : Nat) (exponent : Int) :
    value ⟨digits * 10 ^ zeros,exponent - zeros⟩ = value ⟨digits,exponent⟩ := by
  have nonzero : (10 : Rat) ^ zeros ≠ 0 := by positivity
  rw [value_eq,value_eq,zpow_sub₀ (by decide),zpow_natCast]
  push_cast
  field_simp

/-- Zeros behind the last digit do not change what a decimal reads as. -/
theorem read_shift (format : Binary.Format) {digits : Nat} (positive : 0 < digits) (zeros : Nat)
    (exponent : Int) :
    read format ⟨digits * 10 ^ zeros,exponent - zeros⟩ = read format ⟨digits,exponent⟩ := by
  have shifted : digits * 10 ^ zeros ≠ 0 := by positivity
  have top : ((digitCount digits + zeros : Nat) : Int) + (exponent - zeros) =
      digitCount digits + exponent := by
    push_cast
    ring
  simp only [read,value_shift,digitCount_shift positive,shifted,positive.ne',top,false_or]

theorem read_zero (format : Binary.Format) (exponent : Int) : read format ⟨0,exponent⟩ = 0 := by
  simp [read]

theorem read_eq_round {decimal : Decimal} (positive : 0 < decimal.digits)
    (low : (10 : Rat) ^ (-farAway) ≤ decimal.value) (high : decimal.value < (10 : Rat) ^ farAway)
    (format : Binary.Format) : decimal.read format = format.round decimal.value := by
  have count := digitCount_pos decimal.digits
  have power : (0 : Rat) < (10 : Rat) ^ decimal.exponent := by positivity
  have below : decimal.value < (10 : Rat) ^ ((digitCount decimal.digits : Int) + decimal.exponent) := by
    have cast : (decimal.digits : Rat) < (10 : Rat) ^ digitCount decimal.digits := by
      exact_mod_cast lt_pow_digitCount decimal.digits
    rw [value_eq,zpow_add₀ (by decide),zpow_natCast]
    exact mul_lt_mul_of_pos_right cast power
  have above : (10 : Rat) ^ ((digitCount decimal.digits : Int) - 1 + decimal.exponent) ≤
      decimal.value := by
    have cast : (10 : Rat) ^ (digitCount decimal.digits - 1) ≤ (decimal.digits : Rat) := by
      exact_mod_cast pow_digitCount_le positive
    rw [value_eq,zpow_add₀ (by decide),← Int.natCast_pred_of_pos count,zpow_natCast]
    exact mul_le_mul_of_nonneg_right cast power.le
  have least := (zpow_lt_zpow_iff_right₀ (by norm_num)).mp (lt_of_le_of_lt low below)
  have most := (zpow_lt_zpow_iff_right₀ (by norm_num)).mp (lt_of_le_of_lt above high)
  rw [read,if_neg (by omega),if_neg (by omega)]

theorem exact_value (format : Binary.Format) (magnitude : Nat) :
    (exact format magnitude).value = format.value magnitude := by
  rw [value_eq,Binary.Format.value,Binary.scaled_two,exact]
  generalize format.parts magnitude = parts
  obtain ⟨coefficient,exponent⟩ := parts
  obtain ⟨size,rfl | rfl⟩ := exponent.eq_nat_or_neg
  · simp
  · have ten : (10 : Rat) = 2 * 5 := by norm_num
    simp only [ten]
    simp
    field_simp
    rw [mul_pow]
    ring

theorem two_pow_le_ten_pow (count : Nat) : (2 : Rat) ^ (3 * count) ≤ (10 : Rat) ^ count := by
  rw [pow_mul]
  exact pow_le_pow_left₀ (by norm_num) (by norm_num) count

theorem exact_read {magnitude : Nat} (positive : 0 < magnitude)
    (finite : magnitude < Binary.Format.double.infinity) :
    (exact .double magnitude).read .double = magnitude := by
  have value := exact_value .double magnitude
  have digits : 0 < (exact .double magnitude).digits :=
    Nat.mul_pos (Nat.mul_pos (Binary.Format.double.coefficient_pos positive)
      (Nat.pow_pos (by decide))) (Nat.pow_pos (by decide))
  have low : (10 : Rat) ^ (-farAway) ≤ Binary.Format.double.value magnitude :=
    calc (10 : Rat) ^ (-farAway) ≤ (2 : Rat) ^ Binary.Format.double.leastExponent := by
          have grows : (2 : Rat) ^ 1074 ≤ (10 : Rat) ^ 400 :=
            (two_pow_le_ten_pow 358).trans (pow_le_pow_right₀ (by norm_num) (by decide))
          exact inv_anti₀ (by positivity) grows
      _ ≤ _ := Binary.Format.double.le_value positive
  have high : Binary.Format.double.value magnitude < (10 : Rat) ^ farAway :=
    calc Binary.Format.double.value magnitude < (2 : Rat) ^ 1026 :=
          Binary.Format.value_lt finite
      _ ≤ (10 : Rat) ^ 400 :=
          (two_pow_le_ten_pow 342).trans (pow_le_pow_right₀ (by norm_num) (by decide))
  rw [read_eq_round digits (by rwa [value]) (by rwa [value]),value,
    Binary.Format.round_value finite]

theorem shortest_read {magnitude : Nat} (positive : 0 < magnitude)
    (finite : magnitude < Binary.Format.double.infinity) :
    (shortest .double magnitude).read .double = magnitude := by
  simp only [shortest]
  generalize search : List.findSome? _ (List.range maxDigits) = chosen
  cases chosen with
  | none => exact exact_read positive finite
  | some decimal =>
    obtain ⟨_,_,found⟩ := List.exists_of_findSome?_eq_some search
    simpa using List.find?_some found

theorem shortest_positive {magnitude : Nat} (positive : 0 < magnitude)
    (finite : magnitude < Binary.Format.double.infinity) :
    0 < (shortest .double magnitude).digits := by
  have reads := shortest_read positive finite
  rcases Nat.eq_zero_or_pos (shortest .double magnitude).digits with none | some
  · simp only [read,none,true_or,if_true] at reads
    omega
  · exact some

end MavPayload.Decimal
