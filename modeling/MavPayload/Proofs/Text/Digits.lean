import MavPayload.Text.Blank
import MavPayload.Text.Digits
import Mathlib.Data.List.Induction

/-! Numbers in decimal and what they are worth. The grammar of unsigned numbers is stated digit
by digit, and the reader takes exactly the numbers below its bound. -/
namespace MavPayload.Text

/-- Whether some characters are decimal digits with a value, at least one of them. -/
inductive Digits : List Char → Nat → Prop
  | single {digit : Nat} : digit < 10 → Digits [digit.digitChar] digit
  | append {run : List Char} {value digit : Nat} : Digits run value → digit < 10 →
    Digits (run ++ [digit.digitChar]) (10 * value + digit)

/-- Whether some characters are a number: digits, and possibly a plus sign before them. -/
inductive Numeral : List Char → Nat → Prop
  | plain {run : List Char} {value : Nat} : Digits run value → Numeral run value
  | signed {run : List Char} {value : Nat} : Digits run value → Numeral ('+' :: run) value

variable {chars run : List Char} {value : Nat}

theorem exists_digit {char : Char} (isDigit : char.isDigit = true) :
    ∃ digit < 10, digit.digitChar = char := by
  simp only [Char.isDigit,Bool.and_eq_true,decide_eq_true_eq] at isDigit
  have lower : 48 ≤ char.toNat := isDigit.1
  have upper : char.toNat ≤ 57 := isDigit.2
  have small : char.toNat - 48 < 10 := by omega
  refine ⟨char.toNat - 48,small,Char.toNat_inj.mp ?_⟩
  rw [Nat.toNat_digitChar_of_lt_ten small]
  omega

theorem Digits.isDigit (digits : Digits run value) : ∀ char ∈ run, char.isDigit = true := by
  have one {digit : Nat} (small : digit < 10) : digit.digitChar.isDigit = true := by
    rw [Nat.isDigit_digitChar,decide_eq_true small]
  induction digits with
  | single small => exact List.forall_mem_singleton.mpr (one small)
  | append _ small ih =>
    exact List.forall_mem_append.mpr ⟨ih,List.forall_mem_singleton.mpr (one small)⟩

theorem Digits.nonempty (digits : Digits run value) : run ≠ [] := by
  cases digits <;> simp

theorem Digits.value_eq (digits : Digits run value) : Nat.ofDigitChars 10 run 0 = value := by
  induction digits with
  | single small =>
    rw [Nat.ofDigitChars_cons_digitChar_of_lt_ten small,Nat.ofDigitChars_nil,Nat.mul_zero,
      Nat.zero_add]
  | append _ small ih =>
    rw [Nat.ofDigitChars_append,ih,Nat.ofDigitChars_cons_digitChar_of_lt_ten small,
      Nat.ofDigitChars_nil]

theorem Numeral.visible (numeral : Numeral run value) :
    ∀ char ∈ run, isBlank char = false := by
  have digit {char : Char} (isDigit : char.isDigit = true) : isBlank char = false := by
    obtain ⟨digit,small,rfl⟩ := exists_digit isDigit
    revert digit
    decide
  cases numeral with
  | plain digits => exact fun char member => digit (digits.isDigit char member)
  | signed digits =>
    exact List.forall_mem_cons.mpr
      ⟨by decide,fun char member => digit (digits.isDigit char member)⟩

theorem digits_ofDigitChars (nonempty : run ≠ []) (isDigit : ∀ char ∈ run, char.isDigit = true) :
    Digits run (Nat.ofDigitChars 10 run 0) := by
  -- From the front on, as the value grows digit by digit.
  induction run using List.reverseRecOn with
  | nil => exact absurd rfl nonempty
  | append_singleton run last ih =>
    obtain ⟨front,rear⟩ := List.forall_mem_append.mp isDigit
    obtain ⟨digit,small,rfl⟩ := exists_digit (rear last (by simp))
    rw [Nat.ofDigitChars_append,Nat.ofDigitChars_cons_digitChar_of_lt_ten small,
      Nat.ofDigitChars_nil]
    cases run with
    | nil =>
      rw [Nat.ofDigitChars_nil,Nat.mul_zero,Nat.zero_add]
      exact .single small
    | cons first rest => exact (ih (List.cons_ne_nil _ _) front).append small

theorem digits?_eq_some_iff : digits? chars = some value ↔ Digits chars value := by
  rw [digits?]
  constructor
  · intro read
    split at read
    · rename_i run
      rw [Bool.and_eq_true,Bool.not_eq_true',List.isEmpty_eq_false_iff,List.all_eq_true] at run
      cases read
      exact digits_ofDigitChars run.1 run.2
    · cases read
  · intro digits
    have run : (!chars.isEmpty && chars.all Char.isDigit) = true := by
      rw [Bool.and_eq_true,Bool.not_eq_true',List.isEmpty_eq_false_iff,List.all_eq_true]
      exact ⟨digits.nonempty,digits.isDigit⟩
    rw [if_pos run,digits.value_eq]

theorem natural?_eq_some_iff {bound : Nat} :
    natural? bound chars = some value ↔ Numeral chars value ∧ value < bound := by
  unfold natural?
  rw [Option.filter_eq_some_iff,digits?_eq_some_iff,decide_eq_true_eq]
  refine and_congr_left fun _ => ⟨fun digits => ?_,fun numeral => ?_⟩
  · split at digits
    · exact .signed digits
    · exact .plain digits
  · cases numeral with
    | signed digits => exact digits
    | plain digits =>
      split
      · -- A plus sign is no digit.
        rename_i rest
        cases digits.isDigit '+' (by simp)
      · exact digits

theorem numeral_decimal (value : Nat) : Numeral (decimal value) value := by
  have run : Digits (decimal value) (Nat.ofDigitChars 10 (decimal value) 0) :=
    digits_ofDigitChars Nat.toDigits_ne_nil
      fun _ member => Nat.isDigit_of_mem_toDigits (by decide) (by decide) member
  rw [decimal,Nat.ofDigitChars_ten_toDigits] at run
  exact .plain run

end MavPayload.Text
