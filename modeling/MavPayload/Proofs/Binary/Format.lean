import MavPayload.Binary.Format
import Mathlib.Algebra.Order.Field.Power
import Mathlib.Data.Rat.Lemmas
import Mathlib.Tactic.FieldSimp
import Mathlib.Tactic.Linarith
import Mathlib.Tactic.Ring

/-! Rounding of what a format can hold. A number of a format is a natural below twice the
weight of the exponent field times a power of two that is least or makes the natural fill
its bits; rounding finds these two again. -/
namespace MavPayload.Binary

theorem scaled_eq {base : Nat} (positive : 0 < base) (coefficient : Nat) (exponent : Int) :
    scaled base coefficient exponent = coefficient * (base : Rat) ^ exponent := by
  have nonzero : (base : Rat) ≠ 0 := by exact_mod_cast positive.ne'
  rw [scaled,Rat.mkRat_eq_div]
  obtain ⟨size,rfl | rfl⟩ := exponent.eq_nat_or_neg
  · simp
  · simp [div_eq_mul_inv]

theorem scaled_two (coefficient : Nat) (exponent : Int) :
    scaled 2 coefficient exponent = coefficient * (2 : Rat) ^ exponent := by
  rw [scaled_eq (by decide),Nat.cast_ofNat]

theorem scaled_two_one (exponent : Int) : scaled 2 1 exponent = (2 : Rat) ^ exponent := by
  rw [scaled_two,Nat.cast_one,one_mul]

theorem floorLog2_spec {value : Rat} (positive : 0 < value) :
    (2 : Rat) ^ floorLog2 value ≤ value ∧ value < (2 : Rat) ^ (floorLog2 value + 1) := by
  have numerator : 0 < value.num := Rat.num_pos.mpr positive
  have nonzero : value.num.natAbs ≠ 0 := by omega
  have same : value = (value.num.natAbs : Rat) / (value.den : Rat) := by
    have cast : ((value.num.natAbs : Int) : Rat) = (value.num : Rat) := by
      rw [Int.natAbs_of_nonneg numerator.le]
    rw [← Int.cast_natCast,cast,Rat.num_div_den]
  have top : (2 : Rat) ^ value.num.natAbs.log2 ≤ value.num.natAbs := by
    exact_mod_cast Nat.log2_self_le nonzero
  have topNext : (value.num.natAbs : Rat) < (2 : Rat) ^ (value.num.natAbs.log2 + 1) := by
    exact_mod_cast Nat.lt_log2_self
  have bottom : (2 : Rat) ^ value.den.log2 ≤ value.den := by
    exact_mod_cast Nat.log2_self_le value.den_nz
  have bottomNext : (value.den : Rat) < (2 : Rat) ^ (value.den.log2 + 1) := by
    exact_mod_cast Nat.lt_log2_self
  have den : (0 : Rat) < value.den := by exact_mod_cast value.den_pos
  set estimate : Int := (value.num.natAbs.log2 : Int) - (value.den.log2 : Int) with known
  -- The logarithms of both parts are known up to one, so that of their quotient is too.
  have low : (2 : Rat) ^ (estimate - 1) ≤ value := by
    rw [same,le_div_iff₀ den]
    calc (2 : Rat) ^ (estimate - 1) * value.den
        ≤ (2 : Rat) ^ (estimate - 1) * (2 : Rat) ^ (value.den.log2 + 1) := by gcongr
      _ = (2 : Rat) ^ value.num.natAbs.log2 := by
        rw [← zpow_natCast,← zpow_natCast,← zpow_add₀ two_ne_zero,known]
        congr 1
        push_cast
        ring
      _ ≤ value.num.natAbs := top
  have high : value < (2 : Rat) ^ (estimate + 1) := by
    rw [same,div_lt_iff₀ den]
    calc (value.num.natAbs : Rat) < (2 : Rat) ^ (value.num.natAbs.log2 + 1) := topNext
      _ = (2 : Rat) ^ (estimate + 1) * (2 : Rat) ^ value.den.log2 := by
        rw [← zpow_natCast,← zpow_natCast,← zpow_add₀ two_ne_zero,known]
        congr 1
        push_cast
        ring
      _ ≤ (2 : Rat) ^ (estimate + 1) * value.den := by gcongr
  have unfolded : floorLog2 value =
      if (2 : Rat) ^ estimate ≤ value then estimate else estimate - 1 := by
    rw [← scaled_two_one]
    rfl
  rw [unfolded]
  split
  · rename_i reached
    exact ⟨reached,high⟩
  · rename_i missed
    rw [sub_add_cancel]
    exact ⟨low,not_le.mp missed⟩

theorem roundEven_natCast (value : Nat) : roundEven (value : Rat) = value := by
  have floor : (value : Rat).floor = value := Rat.floor_intCast value
  simp [roundEven,floor]

theorem roundEven_le {value : Rat} {bound : Nat} (nonnegative : 0 ≤ value)
    (most : value ≤ bound) : roundEven value ≤ bound := by
  have floor : ((value.floor.toNat : Nat) : Rat) ≤ value := by
    have low : 0 ≤ value.floor := Rat.le_floor_iff.mpr (by simpa using nonnegative)
    have cast : ((value.floor.toNat : Int) : Rat) = (value.floor : Rat) := by
      rw [Int.toNat_of_nonneg low]
    rw [← Int.cast_natCast,cast]
    exact Rat.floor_le _
  have under : value.floor.toNat ≤ bound := by exact_mod_cast floor.trans most
  simp only [roundEven]
  split
  · exact under
  · rename_i notBelow
    -- A rest of a half or more leaves room for one more.
    have above : value.floor.toNat < bound := by
      have rest : (value.floor.toNat : Rat) < bound := by linarith
      exact_mod_cast rest
    split <;> omega

namespace Format

variable (format : Format)

theorem exponentUnit_pos : 0 < format.exponentUnit :=
  Nat.pow_pos (by decide)

theorem exponentUnit_cast : (format.exponentUnit : Rat) = (2 : Rat) ^ (format.fractionBits : Int) := by
  rw [exponentUnit,zpow_natCast]
  exact_mod_cast rfl

theorem infinity_add_unit : format.infinity + format.exponentUnit = format.signBit := by
  have exponents : 0 < Nat.pow 2 format.exponentBits := Nat.pow_pos (by decide)
  have split : format.signBit = Nat.pow 2 format.exponentBits * format.exponentUnit :=
    Nat.pow_add 2 _ _
  rw [split,infinity,← Nat.succ_mul,Nat.succ_eq_add_one,Nat.sub_add_cancel exponents]

theorem infinity_lt_signBit : format.infinity < format.signBit := by
  have unit := format.exponentUnit_pos
  have whole := format.infinity_add_unit
  omega

/-- A natural and an exponent of two as the parts of a magnitude are. -/
structure Normal (coefficient : Nat) (exponent : Int) : Prop where
  least : format.leastExponent ≤ exponent
  fits : coefficient < 2 * format.exponentUnit
  leading : exponent = format.leastExponent ∨ format.exponentUnit ≤ coefficient

/-- The magnitude of a natural and an exponent of two. -/
def joined (coefficient : Nat) (exponent : Int) : Nat :=
  coefficient + (exponent - format.leastExponent).toNat * format.exponentUnit

theorem parts_normal (magnitude : Nat) :
    format.Normal (format.parts magnitude).1 (format.parts magnitude).2 := by
  have unit := format.exponentUnit_pos
  have fraction := Nat.mod_lt magnitude unit
  unfold parts
  cases magnitude / format.exponentUnit with
  | zero => exact ⟨le_refl _,by simp only; omega,Or.inl rfl⟩
  | succ exponent => exact ⟨by simp only; omega,by simp only; omega,Or.inr (by simp)⟩

theorem joined_parts (magnitude : Nat) :
    format.joined (format.parts magnitude).1 (format.parts magnitude).2 = magnitude := by
  have division := Nat.mod_add_div' magnitude format.exponentUnit
  unfold parts joined
  cases quotient : magnitude / format.exponentUnit with
  | zero =>
    rw [quotient,Nat.zero_mul] at division
    simpa using division
  | succ exponent =>
    rw [quotient,Nat.succ_mul] at division
    simp only [add_sub_cancel_left,Int.toNat_natCast]
    omega

variable {format} {coefficient : Nat} {exponent : Int}

theorem parts_joined (normal : format.Normal coefficient exponent) :
    format.parts (format.joined coefficient exponent) = (coefficient,exponent) := by
  have unit := format.exponentUnit_pos
  obtain ⟨least,fits,leading⟩ := normal
  by_cases small : coefficient < format.exponentUnit
  · have bottom : exponent = format.leastExponent := leading.resolve_right (by omega)
    rw [joined,bottom,sub_self,Int.toNat_zero,Nat.zero_mul,Nat.add_zero,parts,
      Nat.mod_eq_of_lt small,Nat.div_eq_of_lt small]
  · obtain ⟨fraction,rfl⟩ := Nat.exists_eq_add_of_le (not_lt.mp small)
    have room : fraction < format.exponentUnit := by omega
    have shape : format.joined (format.exponentUnit + fraction) exponent =
        fraction + ((exponent - format.leastExponent).toNat + 1) * format.exponentUnit := by
      rw [joined]
      ring
    rw [shape,parts,Nat.add_mul_mod_self_right,Nat.mod_eq_of_lt room,
      Nat.add_mul_div_right _ _ unit,Nat.div_eq_of_lt room,Nat.zero_add]
    simp only [Prod.mk.injEq]
    omega

theorem value_joined (normal : format.Normal coefficient exponent) :
    format.value (format.joined coefficient exponent) = scaled 2 coefficient exponent := by
  rw [value,parts_joined normal]

theorem Normal.chosen (normal : format.Normal coefficient exponent) (positive : 0 < coefficient) :
    max (floorLog2 (scaled 2 coefficient exponent) - format.fractionBits) format.leastExponent =
      exponent := by
  obtain ⟨least,fits,leading⟩ := normal
  have power : (0 : Rat) < (2 : Rat) ^ exponent := zpow_pos two_pos _
  have value : 0 < scaled 2 coefficient exponent := by
    rw [scaled_two]
    exact mul_pos (by exact_mod_cast positive) power
  obtain ⟨low,high⟩ := floorLog2_spec value
  -- The number is below the next power of two, and above its own if its bits are full.
  have under : scaled 2 coefficient exponent <
      (2 : Rat) ^ ((format.fractionBits : Int) + exponent + 1) := by
    have cast : (coefficient : Rat) < 2 * format.exponentUnit := by exact_mod_cast fits
    rw [scaled_two,zpow_add₀ two_ne_zero,zpow_add₀ two_ne_zero,zpow_one,← exponentUnit_cast]
    nlinarith
  have above := (zpow_lt_zpow_iff_right₀ one_lt_two).mp (lt_of_le_of_lt low under)
  rcases leading with bottom | full
  · omega
  · have reached : (2 : Rat) ^ ((format.fractionBits : Int) + exponent) ≤
        scaled 2 coefficient exponent := by
      have cast : (format.exponentUnit : Rat) ≤ coefficient := by exact_mod_cast full
      rw [scaled_two,zpow_add₀ two_ne_zero,← exponentUnit_cast]
      exact mul_le_mul_of_nonneg_right cast power.le
    have below := (zpow_lt_zpow_iff_right₀ one_lt_two).mp (lt_of_le_of_lt reached high)
    omega

theorem round_scaled (normal : format.Normal coefficient exponent) :
    format.round (scaled 2 coefficient exponent) =
      min format.infinity (format.joined coefficient exponent) := by
  have power : (2 : Rat) ^ exponent ≠ 0 := (zpow_pos two_pos _).ne'
  rcases Nat.eq_zero_or_pos coefficient with rfl | positive
  · have unit := format.exponentUnit_pos
    have bottom : exponent = format.leastExponent := normal.leading.resolve_right (by omega)
    simp [round,scaled_two,joined,bottom]
  · have nonzero : scaled 2 coefficient exponent ≠ 0 := by
      rw [scaled_two]
      exact mul_ne_zero (by exact_mod_cast positive.ne') power
    rw [round,if_neg nonzero]
    simp only [normal.chosen positive]
    rw [scaled_two_one,scaled_two,mul_div_cancel_right₀ _ power,roundEven_natCast,joined]

theorem round_value {magnitude : Nat} (finite : magnitude < format.infinity) :
    format.round (format.value magnitude) = magnitude := by
  rw [value,round_scaled (format.parts_normal magnitude),joined_parts,min_eq_right finite.le]

theorem round_lt_infinity {value : Rat} {top : Int} (nonnegative : 0 ≤ value)
    (below : value < (2 : Rat) ^ top)
    (exponents : 4 ≤ Nat.pow 2 format.exponentBits)
    (room : top + 2 < format.leastExponent + format.fractionBits + Nat.pow 2 format.exponentBits) :
    format.round value < format.infinity := by
  have unit := format.exponentUnit_pos
  rcases nonnegative.eq_or_lt with rfl | positive
  · have some : 0 < format.infinity := Nat.mul_pos (by omega) unit
    simpa [round] using some
  · obtain ⟨low,high⟩ := floorLog2_spec positive
    have under := (zpow_lt_zpow_iff_right₀ one_lt_two).mp (lt_of_le_of_lt low below)
    rw [round,if_neg positive.ne']
    set exponent := max (floorLog2 value - format.fractionBits) format.leastExponent with chosen
    have power : (0 : Rat) < (2 : Rat) ^ exponent := zpow_pos two_pos _
    have coefficient : roundEven (value / scaled 2 1 exponent) ≤ 2 * format.exponentUnit := by
      rw [scaled_two_one]
      apply roundEven_le (div_pos positive power).le
      rw [div_le_iff₀ power]
      push_cast
      rw [format.exponentUnit_cast]
      calc value ≤ (2 : Rat) ^ (floorLog2 value + 1) := high.le
        _ ≤ (2 : Rat) ^ (1 + (format.fractionBits : Int) + exponent) :=
          zpow_le_zpow_right₀ one_le_two (by omega)
        _ = _ := by rw [zpow_add₀ two_ne_zero,zpow_add₀ two_ne_zero,zpow_one]
    have whole : (exponent - format.leastExponent).toNat + 3 ≤
        Nat.pow 2 format.exponentBits - 1 := by
      omega
    have split : ((exponent - format.leastExponent).toNat + 3) * format.exponentUnit ≤
        format.infinity :=
      Nat.mul_le_mul_right _ whole
    rw [Nat.add_mul] at split
    exact lt_of_le_of_lt (min_le_right _ _) (by omega)

theorem coefficient_pos {magnitude : Nat} (positive : 0 < magnitude) :
    0 < (format.parts magnitude).1 := by
  have normal := format.parts_normal magnitude
  have whole := format.joined_parts magnitude
  have unit := format.exponentUnit_pos
  rcases Nat.eq_zero_or_pos (format.parts magnitude).1 with none | some
  · have bottom := normal.leading.resolve_right (by omega)
    rw [none,bottom,joined,sub_self,Int.toNat_zero,Nat.zero_mul] at whole
    omega
  · exact some

theorem exponent_lt {magnitude : Nat} (finite : magnitude < format.infinity) :
    (format.parts magnitude).2 + 1 < format.leastExponent + Nat.pow 2 format.exponentBits := by
  have normal := format.parts_normal magnitude
  have whole := format.joined_parts magnitude
  have range : ((format.parts magnitude).2 - format.leastExponent).toNat <
      Nat.pow 2 format.exponentBits - 1 := by
    refine Nat.lt_of_mul_lt_mul_right (a := format.exponentUnit) ?_
    rw [infinity,← whole,joined] at finite
    omega
  have least := normal.least
  omega

theorem le_value {magnitude : Nat} (positive : 0 < magnitude) :
    (2 : Rat) ^ format.leastExponent ≤ format.value magnitude := by
  have least := (format.parts_normal magnitude).least
  have coefficient : (1 : Rat) ≤ (format.parts magnitude).1 := by
    exact_mod_cast format.coefficient_pos positive
  have power : (2 : Rat) ^ format.leastExponent ≤ (2 : Rat) ^ (format.parts magnitude).2 :=
    zpow_le_zpow_right₀ one_le_two least
  rw [value,scaled_two]
  calc (2 : Rat) ^ format.leastExponent ≤ (2 : Rat) ^ (format.parts magnitude).2 := power
    _ ≤ _ := le_mul_of_one_le_left (zpow_pos two_pos _).le coefficient

theorem value_lt {magnitude : Nat} (finite : magnitude < format.infinity) :
    format.value magnitude < (2 : Rat) ^ (format.leastExponent +
      (Nat.pow 2 format.exponentBits : Nat) + format.fractionBits) := by
  have fits := (format.parts_normal magnitude).fits
  have coefficient : ((format.parts magnitude).1 : Rat) <
      (2 : Rat) ^ ((format.fractionBits : Int) + 1) := by
    rw [zpow_add₀ two_ne_zero,← exponentUnit_cast,zpow_one,mul_comm]
    exact_mod_cast fits
  have power : (0 : Rat) < (2 : Rat) ^ (format.parts magnitude).2 := zpow_pos two_pos _
  have exponent := exponent_lt finite
  rw [value,scaled_two]
  calc ((format.parts magnitude).1 : Rat) * (2 : Rat) ^ (format.parts magnitude).2
      < (2 : Rat) ^ ((format.fractionBits : Int) + 1) * (2 : Rat) ^ (format.parts magnitude).2 :=
        mul_lt_mul_of_pos_right coefficient power
    _ = (2 : Rat) ^ ((format.fractionBits : Int) + 1 + (format.parts magnitude).2) :=
        (zpow_add₀ two_ne_zero _ _).symm
    _ ≤ _ := zpow_le_zpow_right₀ one_le_two (by omega)

theorem isFinite_eq_false_iff {pattern : Nat} :
    format.isFinite pattern = false ↔ pattern / 2 ^ format.fractionBits % 2 ^ format.exponentBits =
      2 ^ format.exponentBits - 1 := by
  have unit := format.exponentUnit_pos
  have field := Nat.mod_lt (pattern / 2 ^ format.fractionBits)
    (show 0 < 2 ^ format.exponentBits from Nat.pow_pos (by decide))
  have split : format.magnitude pattern / format.exponentUnit =
      pattern / 2 ^ format.fractionBits % 2 ^ format.exponentBits := by
    rw [magnitude,signBit,Nat.add_comm,exponentUnit]
    exact (congrArg (pattern % · / _) (Nat.pow_add ..)).trans (Nat.mod_mul_right_div_self ..)
  rw [isFinite,decide_eq_false_iff_not,infinity,← Nat.div_lt_iff_lt_mul unit,split]
  change ¬ _ < 2 ^ format.exponentBits - 1 ↔ _
  omega

theorem magnitude_signed (negative : Bool) {magnitude : Nat} (fits : magnitude < format.signBit) :
    format.magnitude (format.signed negative magnitude) = magnitude := by
  cases negative <;> simp [Format.magnitude,signed,Nat.mod_eq_of_lt fits]

theorem isNegative_signed (negative : Bool) {magnitude : Nat} (fits : magnitude < format.signBit) :
    format.isNegative (format.signed negative magnitude) = negative := by
  cases negative <;> simp [isNegative,signed,fits]

theorem signed_self {pattern : Nat} (fits : pattern < 2 * format.signBit) :
    format.signed (format.isNegative pattern) (format.magnitude pattern) = pattern := by
  by_cases negative : format.signBit ≤ pattern
  · have rest : pattern % format.signBit = pattern - format.signBit := by
      rw [Nat.mod_eq_sub_mod negative,Nat.mod_eq_of_lt (by omega)]
    simp [signed,isNegative,magnitude,negative,rest]
  · simp [signed,isNegative,magnitude,negative,Nat.mod_eq_of_lt (not_le.mp negative)]

theorem signed_lt (negative : Bool) {magnitude : Nat} (fits : magnitude < format.signBit) :
    format.signed negative magnitude < 2 * format.signBit := by
  cases negative <;> simp only [signed,Bool.false_eq_true,if_false,if_true] <;> omega

/-- Whether every finite number of one format is one of another. -/
structure Embeds (source target : Format) : Prop where
  fraction : source.fractionBits ≤ target.fractionBits
  least : target.leastExponent + target.fractionBits ≤ source.leastExponent
  greatest : source.leastExponent + Nat.pow 2 source.exponentBits + 3 ≤
    target.leastExponent + Nat.pow 2 target.exponentBits

theorem single_embeds_double : Embeds single double :=
  ⟨by decide,by decide,by decide⟩

/-- A natural that does not fill the bits of a format is shifted until it does. -/
theorem exists_normal (positive : 0 < coefficient) (fits : coefficient < 2 * format.exponentUnit)
    (high : format.leastExponent + format.fractionBits ≤ exponent) :
    ∃ shifted lower, format.Normal shifted lower ∧ lower ≤ exponent ∧
      scaled 2 shifted lower = scaled 2 coefficient exponent := by
  have double : 2 * format.exponentUnit = 2 ^ (format.fractionBits + 1) :=
    (Nat.pow_succ' ..).symm
  have low := Nat.log2_self_le positive.ne'
  have next := Nat.lt_log2_self (n := coefficient)
  have short : coefficient.log2 ≤ format.fractionBits := by
    rw [double] at fits
    exact Nat.lt_succ_iff.mp ((Nat.log2_lt positive.ne').mpr fits)
  obtain ⟨missing,total⟩ := Nat.exists_eq_add_of_le short
  have unit : format.exponentUnit = 2 ^ coefficient.log2 * 2 ^ missing := by
    rw [← Nat.pow_add,← total]
    rfl
  have shifts : 0 < 2 ^ missing := Nat.pow_pos (by decide)
  refine ⟨coefficient * 2 ^ missing,exponent - missing,⟨by omega,?_,Or.inr ?_⟩,by omega,?_⟩
  · rw [double,total,Nat.add_right_comm,Nat.pow_add]
    exact Nat.mul_lt_mul_of_pos_right next shifts
  · rw [unit]
    exact Nat.mul_le_mul_right _ low
  · rw [scaled_two,scaled_two,zpow_sub₀ two_ne_zero,zpow_natCast]
    push_cast
    field_simp

variable {source target : Format}

theorem Embeds.round_value (embeds : Embeds source target) {magnitude : Nat}
    (finite : magnitude < source.infinity) :
    target.round (source.value magnitude) < target.infinity ∧
      target.value (target.round (source.value magnitude)) = source.value magnitude := by
  obtain ⟨fraction,least,greatest⟩ := embeds
  have normal := source.parts_normal magnitude
  have range := exponent_lt finite
  rw [value]
  generalize (source.parts magnitude).1 = coefficient,(source.parts magnitude).2 = exponent at *
  have units : source.exponentUnit ≤ target.exponentUnit := Nat.pow_le_pow_right (by decide) fraction
  have unit := target.exponentUnit_pos
  have some : 0 < Nat.pow 2 source.exponentBits := Nat.pow_pos (by decide)
  have exponents : 4 ≤ Nat.pow 2 target.exponentBits := by omega
  rcases Nat.eq_zero_or_pos coefficient with rfl | positive
  · have zero : target.Normal 0 target.leastExponent := ⟨le_refl _,by omega,Or.inl rfl⟩
    have join : target.joined 0 target.leastExponent = 0 := by simp [joined]
    have none : scaled 2 0 exponent = scaled 2 0 target.leastExponent := by simp [scaled_two]
    have positive : 0 < target.infinity := Nat.mul_pos (by omega) unit
    rw [none,round_scaled zero,join,Nat.min_zero]
    refine ⟨positive,?_⟩
    conv_lhs => rw [← join]
    exact value_joined zero
  · obtain ⟨shifted,lower,shiftedNormal,below,same⟩ := exists_normal positive
      (lt_of_lt_of_le normal.fits (Nat.mul_le_mul_left 2 units))
      (le_trans least normal.least)
    have room : target.joined shifted lower < target.infinity := by
      have split : 2 * target.exponentUnit + (lower - target.leastExponent).toNat *
          target.exponentUnit ≤ target.infinity := by
        rw [← Nat.add_mul]
        exact Nat.mul_le_mul_right _ (by omega)
      have fits := shiftedNormal.fits
      rw [joined]
      omega
    rw [← same,round_scaled shiftedNormal,min_eq_right room.le]
    exact ⟨room,value_joined shiftedNormal⟩

/-- A finite pattern comes back from a wider format, in which it is finite. -/
theorem Embeds.convert_convert (embeds : Embeds source target) {pattern : Nat}
    (fits : pattern < 2 * source.signBit) (finite : source.isFinite pattern = true) :
    convert source target pattern < 2 * target.signBit ∧
      target.isFinite (convert source target pattern) = true ∧
      convert target source (convert source target pattern) = pattern := by
  have small : source.magnitude pattern < source.infinity := by simpa [isFinite] using finite
  obtain ⟨room,exact⟩ := embeds.round_value small
  have below := lt_trans room target.infinity_lt_signBit
  have wide : convert source target pattern = target.signed (source.isNegative pattern)
      (target.round (source.value (source.magnitude pattern))) := by
    simp only [convert,small,if_true]
  have size := magnitude_signed (source.isNegative pattern) below
  rw [wide]
  refine ⟨signed_lt _ below,?_,?_⟩
  · rw [isFinite,size]
    exact decide_eq_true room
  · simp only [convert,size,room,if_true]
    rw [isNegative_signed _ below,exact,Format.round_value small,signed_self fits]

theorem convert_infinite (fractional : 0 < target.fractionBits) {pattern : Nat}
    (infinite : source.isFinite pattern = false) :
    convert source target pattern < 2 * target.signBit ∧
      target.isFinite (convert source target pattern) = false := by
  have large : ¬ source.magnitude pattern < source.infinity := of_decide_eq_false infinite
  have even : 2 ∣ target.exponentUnit := dvd_pow_self 2 fractional.ne'
  have unit := target.exponentUnit_pos
  have whole := target.infinity_add_unit
  obtain ⟨magnitude,same,beyond,fits⟩ : ∃ magnitude,
      convert source target pattern = target.signed (source.isNegative pattern) magnitude ∧
        target.infinity ≤ magnitude ∧ magnitude < target.signBit := by
    simp only [convert,large,if_false]
    refine ⟨_,rfl,?_⟩
    split
    · omega
    · have quiet : 0 < target.exponentUnit / 2 := by omega
      have rest := Nat.mod_lt ((source.magnitude pattern - source.infinity) *
        target.exponentUnit / source.exponentUnit) quiet
      omega
  rw [same,isFinite,magnitude_signed _ fits]
  exact ⟨signed_lt _ fits,decide_eq_false (not_lt.mpr beyond)⟩

end Format

theorem widen_toNat {bits : BitVec 32}
    (fits : Format.convert .single .double bits.toNat < 2 * Format.double.signBit) :
    (widen bits).toNat = Format.convert .single .double bits.toNat := by
  rw [widen,BitVec.toNat_ofNat]
  exact Nat.mod_eq_of_lt fits

theorem narrow_widen {bits : BitVec 32} (finite : Format.single.isFinite bits.toNat = true) :
    isFinite (widen bits) = true ∧ narrow (widen bits) = bits := by
  obtain ⟨fits,wide,back⟩ := Format.single_embeds_double.convert_convert bits.isLt finite
  rw [isFinite,narrow,widen_toNat fits,back]
  exact ⟨wide,by simp⟩

theorem widen_infinite {bits : BitVec 32} (infinite : Format.single.isFinite bits.toNat = false) :
    isFinite (widen bits) = false := by
  obtain ⟨fits,wide⟩ := @Format.convert_infinite .single .double (by decide) _ infinite
  rw [isFinite,widen_toNat fits]
  exact wide

theorem isFinite_ofInt {value : Int} (fits : value.natAbs < Nat.pow 2 64) :
    isFinite (ofInt value) = true := by
  have below : (value.natAbs : Rat) < (2 : Rat) ^ (64 : Int) := by
    exact_mod_cast fits
  have finite : Format.double.round value.natAbs < Format.double.infinity :=
    Format.round_lt_infinity (Nat.cast_nonneg _) below (by decide) (by decide)
  have room := lt_trans finite Format.double.infinity_lt_signBit
  have whole : (ofInt value).toNat = Format.double.ofInt value := by
    rw [ofInt,BitVec.toNat_ofNat]
    exact Nat.mod_eq_of_lt (Format.double.signed_lt _ room)
  rw [isFinite,whole,Format.isFinite,Format.ofInt,Format.magnitude_signed _ room]
  exact decide_eq_true finite

end MavPayload.Binary
