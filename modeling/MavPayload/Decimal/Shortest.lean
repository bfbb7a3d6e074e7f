import MavPayload.Decimal.Basic

/-!
The shortest decimal of a floating-point number: the fewest digits that read as it, and
of those the nearest to it. A decimal is chosen only after it has been read, so whatever
is chosen reads as the number it was chosen for.
-/

namespace MavPayload.Decimal

def trimmed (decimal : Decimal) : Decimal :=
  let zeros := ((Nat.toDigits 10 decimal.digits).reverse.takeWhile (· == '0')).length
  ⟨decimal.digits / Nat.pow 10 zeros,decimal.exponent + zeros⟩

def floorLog10 (value : Rat) : Int :=
  if 1 ≤ value then (digitCount value.floor.toNat : Int) - 1
  else -(digitCount (value⁻¹.ceil.toNat - 1) : Int)

/-- The two neighbours of a rational among the decimals with a given exponent, the nearer
first and of two equally near the even one. -/
def neighbours (value : Rat) (exponent : Int) : List Decimal :=
  let scaled := value / Binary.scaled 10 1 exponent
  let below := scaled.floor.toNat
  let down : Decimal := ⟨below,exponent⟩
  let up : Decimal := ⟨below + 1,exponent⟩
  if Binary.roundEven scaled = below then [down,up] else [up,down]

def exact (format : Binary.Format) (magnitude : Nat) : Decimal :=
  let (significand,exponent) := format.parts magnitude
  ⟨significand * Nat.pow 2 exponent.toNat * Nat.pow 5 (-exponent).toNat,min exponent 0⟩

/-- The greatest number of digits that is tried; no double needs more. -/
def maxDigits : Nat := 17

/-- The shortest decimal that reads as a finite magnitude other than zero. -/
def shortest (format : Binary.Format) (magnitude : Nat) : Decimal :=
  let value := format.value magnitude
  let top := floorLog10 value
  ((List.range maxDigits).findSome? fun (count : Nat) =>
    ((neighbours value (top - count)).map trimmed).find? fun decimal =>
      decimal.read format == magnitude).getD (exact format magnitude)

end MavPayload.Decimal
