import MavPayload.Json.Number
import MavPayload.Proofs.Decimal.Shortest
import MavPayload.Proofs.Json.Literal

/-! Numbers and their text. The text of a number spells a literal, and that literal is
read as the number: as an integer only if it is one, and else to the last bit. -/
namespace MavPayload.Json

namespace Literal

variable (isNegative : Bool)

/-- Digits with a point after `whole` of them. -/
def ofPointed (digits : List Char) (whole : Int) : Literal :=
  if whole ≤ 0 then
    { isNegative,whole := ['0'],fraction := some (List.replicate (-whole).toNat '0' ++ digits) }
  else if digits.length ≤ whole.toNat then
    { isNegative,whole := digits ++ List.replicate (whole.toNat - digits.length) '0',
      fraction := some ['0'] }
  else { isNegative,whole := digits.take whole.toNat,fraction := some (digits.drop whole.toNat) }

def ofScientific (digits : List Char) (exponent : Int) : Literal :=
  { isNegative,whole := digits.take 1,
    fraction := if digits.length ≤ 1 then none else some (digits.drop 1),
    exponent := some exponent }

/-- The form in which a decimal is written. -/
def ofDecimal (decimal : Decimal) : Literal :=
  let digits := Text.decimal decimal.digits
  let exponent := decimal.exponent + digits.length - 1
  if Number.leastPlain ≤ exponent ∧ exponent < Number.endPlain then
    ofPointed isNegative digits (exponent + 1)
  else ofScientific isNegative digits exponent

def ofMagnitude (magnitude : Nat) : Literal :=
  if magnitude = 0 then { isNegative,whole := ['0'],fraction := some ['0'] }
  else ofDecimal isNegative (Decimal.shortest .double magnitude)

/-- Digits of a number other than zero, as it is written. -/
structure IsSignificant (digits : List Char) : Prop where
  isRun : IsRun digits
  leading : ∀ rest, digits ≠ '0' :: rest
  positive : 0 < Nat.ofDigitChars 10 digits 0

theorem isSignificant_decimal {value : Nat} (positive : 0 < value) :
    IsSignificant (Text.decimal value) where
  isRun := isRun_decimal value
  leading rest zero := by
    have none := (Text.decimal_leadingZero zero).1
    omega
  positive := by
    rw [Text.decimal,Nat.ofDigitChars_ten_toDigits]
    exact positive

variable {isNegative} {digits : List Char}

theorem ofPointed_spelled (digits : List Char) (whole : Int) :
    (ofPointed isNegative digits whole).spelled =
      (if isNegative then ['-'] else []) ++ Number.pointed digits whole := by
  unfold ofPointed Number.pointed
  split
  · simp [spelled,fractionText,exponentText]
  · split <;> simp [spelled,fractionText,exponentText]

theorem ofScientific_spelled (digits : List Char) (exponent : Int) :
    (ofScientific isNegative digits exponent).spelled =
      (if isNegative then ['-'] else []) ++ Number.scientific digits exponent := by
  unfold ofScientific Number.scientific
  split <;> simp [spelled,fractionText,exponentText]

theorem isRun_zero : IsRun ['0'] :=
  ⟨by simp,by simp⟩

theorem IsRun.append {left right : List Char} (isRun : IsRun right)
    (digits : ∀ char ∈ left, char.isDigit = true) : IsRun (left ++ right) where
  nonempty := List.append_ne_nil_of_right_ne_nil _ isRun.nonempty
  digits char member := (List.mem_append.mp member).elim (digits char) (isRun.digits char)

theorem IsRun.append_zeros (isRun : IsRun digits) (zeros : Nat) :
    IsRun (digits ++ List.replicate zeros '0') where
  nonempty := List.append_ne_nil_of_left_ne_nil isRun.nonempty _
  digits char member := by
    rcases List.mem_append.mp member with old | zero
    · exact isRun.digits char old
    · rw [(List.mem_replicate.mp zero).2]
      rfl

theorem IsSignificant.take (significant : IsSignificant digits) (count : Nat) (some : 0 < count) :
    IsRun (digits.take count) ∧ ∀ rest, digits.take count ≠ '0' :: rest := by
  obtain ⟨first,others,rfl⟩ := List.exists_cons_of_ne_nil significant.isRun.nonempty
  obtain ⟨count,rfl⟩ := Nat.exists_eq_succ_of_ne_zero some.ne'
  rw [List.take_succ_cons]
  refine ⟨⟨by simp,?_⟩,?_⟩
  · intro char member
    apply significant.isRun.digits
    rcases List.mem_cons.mp member with rfl | later
    · exact List.mem_cons_self ..
    · exact List.mem_cons_of_mem _ (List.mem_of_mem_take later)
  · intro rest same
    obtain ⟨rfl,_⟩ := List.cons.inj same
    exact significant.leading _ rfl

theorem IsRun.drop (isRun : IsRun digits) {count : Nat} (left : count < digits.length) :
    IsRun (digits.drop count) where
  nonempty := by simpa using left
  digits char member := isRun.digits char (List.mem_of_mem_drop member)

theorem ofPointed_proper (significant : IsSignificant digits) (whole : Int) :
    (ofPointed isNegative digits whole).Proper := by
  unfold ofPointed
  split
  · refine ⟨isRun_zero,by simp,?_⟩
    rintro run ⟨⟩
    apply significant.isRun.append
    intro char member
    rw [(List.mem_replicate.mp member).2]
    rfl
  · rename_i above
    split
    · refine ⟨significant.isRun.append_zeros _,?_,by rintro run ⟨⟩; exact isRun_zero⟩
      intro rest zero
      obtain ⟨first,others,rfl⟩ := List.exists_cons_of_ne_nil significant.isRun.nonempty
      obtain ⟨rfl,_⟩ := List.cons.inj zero
      exact absurd rfl (significant.leading others)
    · rename_i inside
      obtain ⟨run,leading⟩ := significant.take whole.toNat (by omega)
      refine ⟨run,fun rest zero => absurd zero (leading rest),?_⟩
      rintro _ ⟨⟩
      exact significant.isRun.drop (not_le.mp inside)

theorem ofScientific_proper (significant : IsSignificant digits) (exponent : Int) :
    (ofScientific isNegative digits exponent).Proper := by
  obtain ⟨run,leading⟩ := significant.take 1 (by decide)
  refine ⟨run,fun rest zero => absurd zero (leading rest),?_⟩
  intro run same
  simp only [ofScientific] at same
  split at same
  · cases same
  · rename_i more
    cases same
    exact significant.isRun.drop (not_le.mp more)

theorem ofDigitChars_zeros (digits : List Char) (zeros : Nat) :
    Nat.ofDigitChars 10 (digits ++ List.replicate zeros '0') 0 =
      Nat.ofDigitChars 10 digits 0 * 10 ^ zeros := by
  rw [Nat.ofDigitChars_append,Nat.ofDigitChars_replicate_zero,Nat.mul_comm]

theorem ofPointed_read (format : Binary.Format) (significant : IsSignificant digits) (whole : Int) :
    (ofPointed isNegative digits whole).decimal.read format =
      Decimal.read format ⟨Nat.ofDigitChars 10 digits 0,whole - digits.length⟩ := by
  unfold ofPointed
  split
  · have value : Nat.ofDigitChars 10 ('0' :: (List.replicate (-whole).toNat '0' ++ digits)) 0 =
        Nat.ofDigitChars 10 digits 0 := by
      rw [Nat.ofDigitChars_cons,Nat.ofDigitChars_append,Nat.ofDigitChars_replicate_zero]
      simp
    have exponent : (0 : Int) - ((-whole).toNat + digits.length : Nat) =
        whole - digits.length := by omega
    simp only [decimal,Option.getD_some,Option.getD_none,List.singleton_append,value,
      List.length_append,List.length_replicate,exponent]
  · split
    · rename_i short
      rw [← Decimal.read_shift format significant.positive (whole.toNat - digits.length + 1)]
      have zeros : digits ++ List.replicate (whole.toNat - digits.length) '0' ++ ['0'] =
          digits ++ List.replicate (whole.toNat - digits.length + 1) '0' := by
        rw [List.replicate_succ',List.append_assoc]
      have exponent : whole - digits.length - ((whole.toNat - digits.length + 1 : Nat) : Int) =
          0 - 1 := by omega
      simp only [decimal,Option.getD_some,Option.getD_none,zeros,ofDigitChars_zeros,
        List.length_singleton,exponent,Nat.cast_one]
    · rename_i inside
      have exponent : (0 : Int) - (digits.length - whole.toNat : Nat) =
          whole - digits.length := by omega
      simp only [decimal,Option.getD_some,Option.getD_none,List.take_append_drop,
        List.length_drop,exponent]

theorem ofScientific_decimal (isRun : IsRun digits) (exponent : Int) :
    (ofScientific isNegative digits exponent).decimal =
      ⟨Nat.ofDigitChars 10 digits 0,exponent + 1 - digits.length⟩ := by
  have some := List.length_pos_iff.mpr isRun.nonempty
  unfold ofScientific
  split
  · rename_i single
    have all : digits.take 1 = digits := List.take_of_length_le single
    simp only [decimal,Option.getD_none,Option.getD_some,all,List.append_nil,List.length_nil,
      Decimal.mk.injEq,true_and]
    omega
  · simp only [decimal,Option.getD_some,List.take_append_drop,List.length_drop,
      Decimal.mk.injEq,true_and]
    omega

theorem ofDecimal_proper {decimal : Decimal} (positive : 0 < decimal.digits) :
    (ofDecimal isNegative decimal).Proper := by
  have significant := isSignificant_decimal positive
  simp only [ofDecimal]
  split
  · exact ofPointed_proper significant _
  · exact ofScientific_proper significant _

theorem ofDecimal_spelled (decimal : Decimal) :
    (ofDecimal isNegative decimal).spelled =
      (if isNegative then ['-'] else []) ++ Number.decimalText decimal := by
  simp only [ofDecimal,Number.decimalText]
  split
  · exact ofPointed_spelled _ _
  · exact ofScientific_spelled _ _

theorem ofDecimal_read (format : Binary.Format) {decimal : Decimal}
    (positive : 0 < decimal.digits) :
    (ofDecimal isNegative decimal).decimal.read format = decimal.read format := by
  have significant := isSignificant_decimal positive
  have digits : Nat.ofDigitChars 10 (Text.decimal decimal.digits) 0 = decimal.digits :=
    Nat.ofDigitChars_ten_toDigits
  simp only [ofDecimal]
  split
  · rw [ofPointed_read format significant,digits]
    congr 2
    omega
  · rw [ofScientific_decimal significant.isRun,digits]
    congr 2
    omega

theorem ofDecimal_natural? (decimal : Decimal) :
    (ofDecimal isNegative decimal).natural? = none := by
  simp only [ofDecimal]
  split
  · unfold ofPointed
    split
    · rfl
    · split <;> rfl
  · unfold ofScientific natural?
    split <;> simp_all

theorem ofDecimal_isNegative (decimal : Decimal) :
    (ofDecimal isNegative decimal).isNegative = isNegative := by
  simp only [ofDecimal]
  split
  · unfold ofPointed
    split
    · rfl
    · split <;> rfl
  · rfl

theorem ofMagnitude_read (isNegative : Bool) {magnitude : Nat}
    (finite : magnitude < Binary.Format.double.infinity) :
    (ofMagnitude isNegative magnitude).isNegative = isNegative ∧
      (ofMagnitude isNegative magnitude).natural? = none ∧
      (ofMagnitude isNegative magnitude).decimal.read .double = magnitude := by
  unfold ofMagnitude
  split
  · rename_i zero
    rw [zero]
    exact ⟨rfl,rfl,Decimal.read_zero _ _⟩
  · rename_i nonzero
    have positive := Nat.pos_of_ne_zero nonzero
    refine ⟨ofDecimal_isNegative _,ofDecimal_natural? _,?_⟩
    rw [ofDecimal_read _ (Decimal.shortest_positive positive finite),
      Decimal.shortest_read positive finite]

end Literal

namespace Number

/-- The literal that a number is written as. -/
def literal : Number → Literal
  | integer value _ => { isNegative := value < 0,whole := Text.decimal value.natAbs }
  | float bits _ => Literal.ofMagnitude (Binary.Format.double.isNegative bits.toNat)
      (Binary.Format.double.magnitude bits.toNat)

theorem literal_spelled (number : Number) : number.literal.spelled = number.text := by
  cases number with
  | integer value inRange =>
    by_cases negative : value < 0 <;>
      simp [literal,text,Literal.spelled,Literal.fractionText,Literal.exponentText,
        Text.signedDecimal,negative]
  | float bits finite =>
    simp only [literal,text,Literal.ofMagnitude,magnitudeText]
    split
    · simp [Literal.spelled,Literal.fractionText,Literal.exponentText]
    · exact Literal.ofDecimal_spelled _

theorem magnitude_lt {bits : BitVec 64} (finite : Binary.isFinite bits = true) :
    Binary.Format.double.magnitude bits.toNat < Binary.Format.double.infinity :=
  of_decide_eq_true finite

theorem literal_proper (number : Number) : number.literal.Proper := by
  cases number with
  | integer value inRange =>
    refine ⟨Literal.isRun_decimal _,?_,by rintro run ⟨⟩⟩
    exact fun rest zero => (Text.decimal_leadingZero zero).2
  | float bits finite =>
    have small := magnitude_lt finite
    simp only [literal,Literal.ofMagnitude]
    split
    · refine ⟨Literal.isRun_zero,by simp,?_⟩
      rintro run ⟨⟩
      exact Literal.isRun_zero
    · rename_i nonzero
      exact Literal.ofDecimal_proper
        (Decimal.shortest_positive (Nat.pos_of_ne_zero nonzero) small)

theorem ofLiteral?_literal (number : Number) : ofLiteral? number.literal = some number := by
  cases number with
  | integer value inRange =>
    have natural : (literal (integer value inRange)).natural? = some value.natAbs :=
      congrArg some Nat.ofDigitChars_ten_toDigits
    have signed : (if value < 0 then -(value.natAbs : Int) else value.natAbs) = value := by
      split <;> omega
    have kept : ¬(value < 0 ∧ value.natAbs = 0) := by omega
    have read : integerOf? (literal (integer value inRange)) = some (integer value inRange) := by
      rw [integerOf?,natural]
      simp only [Option.bind_eq_bind,Option.bind_some,literal,decide_eq_true_eq]
      rw [if_neg kept]
      simp only [signed,inRange,dif_pos]
    rw [ofLiteral?,read,Option.some_or]
  | float bits finite =>
    obtain ⟨sign,natural,magnitude⟩ := Literal.ofMagnitude_read
      (Binary.Format.double.isNegative bits.toNat) (magnitude_lt finite)
    have whole : Binary.Format.double.signed (Binary.Format.double.isNegative bits.toNat)
        (Binary.Format.double.magnitude bits.toNat) = bits.toNat :=
      Binary.Format.signed_self bits.isLt
    have pattern : BitVec.ofNat 64 bits.toNat = bits := by simp
    rw [ofLiteral?,integerOf?,literal,natural,magnitude,sign,ofMagnitude?,whole,pattern,ofDouble?,
      dif_pos finite]
    rfl

end Number

end MavPayload.Json
