import MavPayload.Proofs.Binary.Format
import Mathlib.Order.Monotone.Basic

/-! Rounding to the nearest number of a format. Magnitudes are ordered as their values are, so
the nearest one is one of the two neighbours that enclose a rational, and the even one of them
where it lies in the middle. -/
namespace MavPayload.Binary

/-- A rational that is not negative lies between two naturals, and rounds to the nearer one or
to the even one. -/
theorem roundEven_cases {value : Rat} (nonnegative : 0 ≤ value) :
    ∃ below : Nat, (below : Rat) ≤ value ∧ value < below + 1 ∧
      (roundEven value = below ∧
        (value - below < 1 / 2 ∨ value - below = 1 / 2 ∧ below % 2 = 0) ∨
      roundEven value = below + 1 ∧
        (1 / 2 < value - below ∨ value - below = 1 / 2 ∧ below % 2 = 1)) := by
  have cast : ((value.floor.toNat : Nat) : Rat) = (value.floor : Rat) := by
    rw [← Int.cast_natCast,Int.toNat_of_nonneg (Rat.le_floor_iff.mpr (by simpa using nonnegative))]
  refine ⟨value.floor.toNat,?_,?_,?_⟩
  · rw [cast]
    exact Rat.floor_le _
  · rw [cast]
    exact_mod_cast Rat.lt_floor_add_one value
  · simp only [roundEven]
    split
    · rename_i less
      exact Or.inl ⟨rfl,Or.inl less⟩
    rename_i notLess
    split
    · rename_i more
      exact Or.inr ⟨rfl,Or.inl more⟩
    rename_i notMore
    have half : value - value.floor.toNat = 1 / 2 := le_antisymm (not_lt.mp notMore) (not_lt.mp notLess)
    rcases Nat.mod_two_eq_zero_or_one value.floor.toNat with even | odd
    · exact Or.inl ⟨by omega,Or.inr ⟨half,even⟩⟩
    · exact Or.inr ⟨by omega,Or.inr ⟨half,odd⟩⟩

namespace Format

/-- Whether a magnitude is the nearest one to a rational, the even one of two that are equally
near. Infinity stands for the power of two behind the greatest finite number. -/
structure Nearest (format : Format) (value : Rat) (magnitude : Nat) : Prop where
  le_infinity : magnitude ≤ format.infinity
  closest : ∀ other ≤ format.infinity,
    |value - format.value magnitude| ≤ |value - format.value other|
  even : ∀ other ≤ format.infinity, other ≠ magnitude →
    |value - format.value other| = |value - format.value magnitude| → magnitude % 2 = 0

variable {format : Format}

theorem joined_succ (coefficient : Nat) (exponent : Int) :
    format.joined (coefficient + 1) exponent = format.joined coefficient exponent + 1 := by
  simp only [joined]
  omega

theorem value_normal {coefficient : Nat} {exponent : Int}
    (normal : format.Normal coefficient exponent) :
    format.value (format.joined coefficient exponent) = coefficient * (2 : Rat) ^ exponent := by
  rw [value_joined normal,scaled_two]

theorem value_normal_succ {coefficient : Nat} {exponent : Int}
    (normal : format.Normal coefficient exponent) :
    format.value (format.joined coefficient exponent + 1) =
      (coefficient + 1) * (2 : Rat) ^ exponent := by
  obtain ⟨least,fits,leading⟩ := normal
  by_cases room : coefficient + 1 < 2 * format.exponentUnit
  · have next : format.Normal (coefficient + 1) exponent :=
      ⟨least,room,leading.imp_right fun full => by omega⟩
    rw [← joined_succ,value_normal next,Nat.cast_succ]
  · -- The coefficient is full, and the next number starts with a larger exponent.
    have unit := format.exponentUnit_pos
    have full : coefficient + 1 = 2 * format.exponentUnit := by omega
    have next : format.Normal format.exponentUnit (exponent + 1) :=
      ⟨by omega,by omega,Or.inr (le_refl _)⟩
    have step : (exponent + 1 - format.leastExponent).toNat =
        (exponent - format.leastExponent).toNat + 1 := by omega
    have same : format.joined coefficient exponent + 1 =
        format.joined format.exponentUnit (exponent + 1) := by
      simp only [joined,step,Nat.succ_mul]
      omega
    have cast : (coefficient : Rat) + 1 = 2 * format.exponentUnit := by exact_mod_cast full
    rw [same,value_normal next,zpow_add₀ two_ne_zero,zpow_one,cast]
    ring

theorem value_strictMono (format : Format) : StrictMono format.value := by
  apply strictMono_nat_of_lt_succ
  intro magnitude
  have normal := format.parts_normal magnitude
  rw [← format.joined_parts magnitude,value_normal normal,value_normal_succ normal]
  exact mul_lt_mul_of_pos_right (lt_add_one _) (zpow_pos two_pos _)

section

variable {value : Rat} {low nearest : Nat}

/-- Of the magnitudes that are no neighbours of a rational, none is as near as the neighbour
on the same side. -/
theorem neighbours (least : format.value low ≤ value) (most : value < format.value (low + 1))
    (other : Nat) :
    |value - format.value low| < |value - format.value other| ∨ other = low ∨ other = low + 1 ∨
      |value - format.value (low + 1)| < |value - format.value other| := by
  rcases lt_trichotomy other low with less | same | more
  · have below := format.value_strictMono less
    left
    rw [abs_of_nonneg (by linarith),abs_of_nonneg (by linarith)]
    linarith
  · exact Or.inr (Or.inl same)
  · rcases Nat.lt_or_eq_of_le (Nat.succ_le_of_lt more) with further | same
    · have above := format.value_strictMono further
      right; right; right
      rw [abs_of_neg (by linarith),abs_of_neg (by linarith)]
      linarith
    · exact Or.inr (Or.inr (Or.inl same.symm))

theorem nearest_of_neighbours (least : format.value low ≤ value)
    (most : value < format.value (low + 1)) (one : nearest = low ∨ nearest = low + 1)
    (bounded : nearest ≤ format.infinity)
    (closest : |value - format.value nearest| ≤ |value - format.value low| ∧
      |value - format.value nearest| ≤ |value - format.value (low + 1)|)
    (even : |value - format.value low| = |value - format.value (low + 1)| → nearest % 2 = 0) :
    format.Nearest value nearest where
  le_infinity := bounded
  closest other _ := by
    rcases neighbours least most other with lower | rfl | rfl | upper
    · exact closest.1.trans lower.le
    · exact closest.1
    · exact closest.2
    · exact closest.2.trans upper.le
  even other _ different tie := by
    rcases neighbours least most other with lower | rfl | rfl | upper
    · exact absurd tie (lt_of_le_of_lt closest.1 lower).ne'
    · rcases one with same | same
      · exact absurd same.symm different
      · exact even (same ▸ tie)
    · rcases one with same | same
      · exact even (same ▸ tie.symm)
      · exact absurd same.symm different
    · exact absurd tie (lt_of_le_of_lt closest.2 upper).ne'

theorem nearest_infinity (beyond : format.value format.infinity ≤ value) :
    format.Nearest value format.infinity where
  le_infinity := le_refl _
  closest other bounded := by
    have below := format.value_strictMono.monotone bounded
    rw [abs_of_nonneg (by linarith),abs_of_nonneg (by linarith)]
    linarith
  even other bounded different tie := by
    have below := format.value_strictMono (lt_of_le_of_ne bounded different)
    rw [abs_of_nonneg (by linarith),abs_of_nonneg (by linarith)] at tie
    linarith

/-- The nearer one of two neighbours, or infinity if that is passed. -/
theorem nearest_min (least : format.value low ≤ value) (most : value < format.value (low + 1))
    (one : nearest = low ∨ nearest = low + 1)
    (closest : |value - format.value nearest| ≤ |value - format.value low| ∧
      |value - format.value nearest| ≤ |value - format.value (low + 1)|)
    (even : |value - format.value low| = |value - format.value (low + 1)| → nearest % 2 = 0) :
    format.Nearest value (min format.infinity nearest) := by
  by_cases bounded : nearest ≤ format.infinity
  · rw [min_eq_right bounded]
    exact nearest_of_neighbours least most one bounded closest even
  · rw [min_eq_left (by omega)]
    exact nearest_infinity ((format.value_strictMono.monotone (by omega)).trans least)

theorem Nearest.unique {first second : Nat} (one : format.Nearest value first)
    (two : format.Nearest value second) : first = second := by
  -- Two different ones would be neighbours, and only one of these is even.
  have apart {lower upper : Nat} (near : format.Nearest value lower)
      (far : format.Nearest value upper) : ¬ lower < upper := by
    intro less
    have same := le_antisymm (near.closest _ far.le_infinity) (far.closest _ near.le_infinity)
    have even := near.even _ far.le_infinity less.ne' same.symm
    have evenUpper := far.even _ near.le_infinity less.ne same
    have between : lower + 1 < upper := by omega
    have inside : lower + 1 ≤ format.infinity := between.le.trans far.le_infinity
    have rises := format.value_strictMono (Nat.lt_succ_self lower)
    have risesMore := format.value_strictMono between
    rcases le_total value (format.value (lower + 1)) with left | right
    · have closer := far.closest _ inside
      rw [abs_of_nonpos (by linarith),abs_of_nonpos (by linarith)] at closer
      linarith
    · have closer := near.closest _ inside
      rw [abs_of_nonneg (by linarith),abs_of_nonneg (by linarith)] at closer
      linarith
  exact le_antisymm (not_lt.mp (apart two one)) (not_lt.mp (apart one two))

end

theorem value_zero (format : Format) : format.value 0 = 0 := by
  have unit := format.exponentUnit_pos
  simp [value,parts,scaled_two,Nat.div_eq_of_lt unit]

theorem joined_mod_two (fractional : 0 < format.fractionBits) (coefficient : Nat)
    (exponent : Int) : format.joined coefficient exponent % 2 = coefficient % 2 := by
  obtain ⟨bits,same⟩ := Nat.exists_eq_succ_of_ne_zero fractional.ne'
  have unit : format.exponentUnit = 2 * 2 ^ bits := by
    rw [exponentUnit,same]
    exact Nat.pow_succ'
  rw [joined,unit,Nat.mul_left_comm,Nat.add_mul_mod_self_left]

theorem infinity_mod_two (fractional : 0 < format.fractionBits) : format.infinity % 2 = 0 :=
  Nat.mod_eq_zero_of_dvd ((dvd_pow_self 2 fractional.ne').mul_left _)

/-- A positive rational in units of the exponent that rounding chooses for it. -/
theorem chosen_normal {value : Rat} (positive : 0 < value) {below : Nat}
    (least : (below : Rat) ≤ value / (2 : Rat) ^
      max (floorLog2 value - format.fractionBits) format.leastExponent)
    (most : value / (2 : Rat) ^
      max (floorLog2 value - format.fractionBits) format.leastExponent < below + 1) :
    format.Normal below (max (floorLog2 value - format.fractionBits) format.leastExponent) := by
  obtain ⟨low,high⟩ := floorLog2_spec positive
  set exponent := max (floorLog2 value - format.fractionBits) format.leastExponent with chosen
  have power : (0 : Rat) < (2 : Rat) ^ exponent := zpow_pos two_pos _
  refine ⟨le_max_right _ _,?_,?_⟩
  · have under : value < (2 : Rat) ^ ((1 + format.fractionBits : Int) + exponent) :=
      lt_of_lt_of_le high (zpow_le_zpow_right₀ one_le_two (by omega))
    rw [zpow_add₀ two_ne_zero,← div_lt_iff₀ power,zpow_add₀ two_ne_zero,zpow_one,
      ← exponentUnit_cast] at under
    exact_mod_cast lt_of_le_of_lt least under
  · rcases le_total (floorLog2 value - format.fractionBits) format.leastExponent with small | large
    · exact Or.inl (max_eq_right small)
    · right
      have own : exponent = floorLog2 value - format.fractionBits := max_eq_left large
      have full : (format.exponentUnit : Rat) ≤ value / (2 : Rat) ^ exponent := by
        rw [le_div_iff₀ power,exponentUnit_cast,← zpow_add₀ two_ne_zero]
        exact le_trans (zpow_le_zpow_right₀ one_le_two (by omega)) low
      have reached : (format.exponentUnit : Rat) < below + 1 := lt_of_le_of_lt full most
      exact Nat.lt_succ_iff.mp (by exact_mod_cast reached)

section

variable {value rest : Rat} {below rounded : Nat} {exponent : Int}

theorem neighbour_distances (normal : format.Normal below exponent) (least : 0 ≤ rest)
    (most : rest < 1) (whole : value = (below + rest) * (2 : Rat) ^ exponent) :
    format.value (format.joined below exponent) ≤ value ∧
      value < format.value (format.joined below exponent + 1) ∧
      |value - format.value (format.joined below exponent)| = rest * (2 : Rat) ^ exponent ∧
      |value - format.value (format.joined below exponent + 1)| =
        (1 - rest) * (2 : Rat) ^ exponent := by
  have power : (0 : Rat) < (2 : Rat) ^ exponent := zpow_pos two_pos _
  have low : 0 ≤ rest * (2 : Rat) ^ exponent := mul_nonneg least power.le
  have high : 0 < (1 - rest) * (2 : Rat) ^ exponent := mul_pos (by linarith) power
  have above : value - format.value (format.joined below exponent) = rest * (2 : Rat) ^ exponent := by
    rw [value_normal normal,whole]
    ring
  have under : format.value (format.joined below exponent + 1) - value =
      (1 - rest) * (2 : Rat) ^ exponent := by
    rw [value_normal_succ normal,whole]
    ring
  rw [above,abs_sub_comm _ (format.value (_ + 1)),under]
  exact ⟨by linarith,by linarith,abs_of_nonneg low,abs_of_pos high⟩

theorem nearest_rounded (fractional : 0 < format.fractionBits)
    (normal : format.Normal below exponent) (least : 0 ≤ rest) (most : rest < 1)
    (whole : value = (below + rest) * (2 : Rat) ^ exponent)
    (choice : rounded = below ∧ (rest < 1 / 2 ∨ rest = 1 / 2 ∧ below % 2 = 0) ∨
      rounded = below + 1 ∧ (1 / 2 < rest ∨ rest = 1 / 2 ∧ below % 2 = 1)) :
    format.Nearest value (min format.infinity (format.joined rounded exponent)) := by
  have power : (0 : Rat) < (2 : Rat) ^ exponent := zpow_pos two_pos _
  obtain ⟨lower,upper,toLower,toUpper⟩ := neighbour_distances normal least most whole
  have parity := format.joined_mod_two fractional below exponent
  have half (tie : rest * (2 : Rat) ^ exponent = (1 - rest) * (2 : Rat) ^ exponent) :
      rest = 1 / 2 := by
    have equal := mul_right_cancel₀ power.ne' tie
    linarith
  rcases choice with ⟨rfl,near⟩ | ⟨rfl,near⟩
  · refine nearest_min lower upper (Or.inl rfl) ⟨le_refl _,?_⟩ ?_
    · rw [toLower,toUpper]
      refine mul_le_mul_of_nonneg_right ?_ power.le
      rcases near with less | ⟨same,_⟩ <;> linarith
    · rw [toLower,toUpper]
      intro tie
      rcases near with less | ⟨_,even⟩
      · exact absurd (half tie) less.ne
      · rwa [parity]
  · rw [joined_succ]
    refine nearest_min lower upper (Or.inr rfl) ⟨?_,le_refl _⟩ ?_
    · rw [toLower,toUpper]
      refine mul_le_mul_of_nonneg_right ?_ power.le
      rcases near with more | ⟨same,_⟩ <;> linarith
    · rw [toLower,toUpper]
      intro tie
      rcases near with more | ⟨_,odd⟩
      · exact absurd (half tie) more.ne'
      · omega

end

theorem round_nearest (fractional : 0 < format.fractionBits) {value : Rat}
    (nonnegative : 0 ≤ value) : format.Nearest value (format.round value) := by
  rcases nonnegative.eq_or_lt with rfl | positive
  · have zero : format.round 0 = 0 := if_pos rfl
    rw [zero]
    refine ⟨Nat.zero_le _,fun other _ => ?_,fun _ _ _ _ => rfl⟩
    rw [value_zero,sub_zero,abs_zero]
    exact abs_nonneg _
  rw [round,if_neg positive.ne']
  simp only [scaled_two_one]
  set exponent := max (floorLog2 value - format.fractionBits) format.leastExponent with chosen
  have power : (0 : Rat) < (2 : Rat) ^ exponent := zpow_pos two_pos _
  obtain ⟨below,least,most,choice⟩ := roundEven_cases (div_nonneg nonnegative power.le)
  have normal := format.chosen_normal positive least most
  have whole : value = (below + (value / (2 : Rat) ^ exponent - below)) * (2 : Rat) ^ exponent := by
    rw [add_sub_cancel,div_mul_cancel₀ _ power.ne']
  exact nearest_rounded fractional normal (sub_nonneg.mpr least) (by linarith) whole choice

theorem nearest_iff (fractional : 0 < format.fractionBits) {value : Rat}
    (nonnegative : 0 ≤ value) {magnitude : Nat} :
    format.Nearest value magnitude ↔ format.round value = magnitude := by
  have nearest := round_nearest fractional nonnegative
  constructor
  · exact nearest.unique
  · rintro rfl
    exact nearest

theorem round_le_infinity (fractional : 0 < format.fractionBits) {value : Rat}
    (nonnegative : 0 ≤ value) : format.round value ≤ format.infinity :=
  (round_nearest fractional nonnegative).le_infinity

/-- What rounds to a finite number is nearer to the greatest one than to the power of two
behind it. -/
theorem round_finite_iff (fractional : 0 < format.fractionBits)
    (exponents : 1 < Nat.pow 2 format.exponentBits) {value : Rat} (nonnegative : 0 ≤ value) :
    format.round value < format.infinity ↔
      value < (format.value (format.infinity - 1) + format.value format.infinity) / 2 := by
  have nearest := round_nearest fractional nonnegative
  have positive : 0 < format.infinity := Nat.mul_pos (by omega) format.exponentUnit_pos
  have last : format.infinity - 1 < format.infinity := by omega
  have rises := format.value_strictMono last
  constructor
  · intro finite
    by_contra beyond
    have lower := format.value_strictMono.monotone (Nat.le_sub_one_of_lt finite)
    have closest := nearest.closest _ (le_refl _)
    rw [abs_of_nonneg (by linarith)] at closest
    rcases le_total value (format.value format.infinity) with inside | outside
    · rw [abs_of_nonpos (by linarith)] at closest
      -- The rational lies in the middle, so the greatest finite number would be even.
      have same : format.round value = format.infinity - 1 :=
        format.value_strictMono.injective (by linarith)
      have tie : |value - format.value format.infinity| =
          |value - format.value (format.round value)| := by
        rw [same,abs_of_nonpos (by linarith),abs_of_nonneg (by linarith)]
        rw [same] at closest
        linarith
      have even := nearest.even _ (le_refl _) finite.ne' tie
      have infinityEven := format.infinity_mod_two fractional
      omega
    · rw [abs_of_nonneg (by linarith)] at closest
      linarith
  · intro below
    refine lt_of_le_of_ne nearest.le_infinity fun same => ?_
    have closest := nearest.closest _ last.le
    rw [same,abs_of_neg (by linarith)] at closest
    rcases le_total value (format.value (format.infinity - 1)) with inside | outside
    · rw [abs_of_nonpos (by linarith)] at closest
      linarith
    · rw [abs_of_nonneg (by linarith)] at closest
      linarith

end Format

end MavPayload.Binary
