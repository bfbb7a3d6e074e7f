import MavPayload.Binary.Format

/-!
Decimals: naturals times powers of ten. `read` is the one way from a decimal to a binary
number; it rounds the exact value.
-/

namespace MavPayload

/-- A natural times a power of ten. -/
structure Decimal where
  digits : Nat
  exponent : Int
deriving DecidableEq, Repr

namespace Decimal

def digitCount (value : Nat) : Nat :=
  (Nat.toDigits 10 value).length

def value (decimal : Decimal) : Rat :=
  Binary.scaled 10 decimal.digits decimal.exponent

/-- Decimals of this many digits before the point are beyond every format here, and those
of this many zeros after it are below half of every least number. -/
def farAway : Int := 400

/-- The magnitude nearest to a decimal. Far away from one, the answer is known without
the value, whose powers of ten could be too great to compute. -/
def read (format : Binary.Format) (decimal : Decimal) : Nat :=
  let top := digitCount decimal.digits + decimal.exponent
  if decimal.digits = 0 ∨ top < -farAway then 0
  else if farAway < top then format.infinity
  else format.round decimal.value

end Decimal

end MavPayload
