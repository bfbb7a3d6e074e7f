/-!
Binary floating-point formats, as bit patterns. A pattern without its sign bit is a
magnitude; magnitudes of finite numbers are ordered as the numbers are, so rounding is
the choice of a magnitude. Values are exact rationals.
-/

namespace MavPayload.Binary

def scaled (base coefficient : Nat) (exponent : Int) : Rat :=
  mkRat (coefficient * Nat.pow base exponent.toNat) (Nat.pow base (-exponent).toNat)

/-- The natural nearest to a rational that is not negative, a half to the even one. -/
def roundEven (value : Rat) : Nat :=
  let below := value.floor.toNat
  let rest := value - below
  if rest < 1 / 2 then below
  else if 1 / 2 < rest then below + 1
  else below + below % 2

/-- The exponent of the greatest power of two that is not above a positive rational. -/
def floorLog2 (value : Rat) : Int :=
  let estimate : Int := (value.num.natAbs.log2 : Int) - (value.den.log2 : Int)
  if scaled 2 1 estimate ≤ value then estimate else estimate - 1

/-- A format with a sign bit, an exponent field and a fraction field. -/
structure Format where
  exponentBits : Nat
  fractionBits : Nat
deriving DecidableEq, Repr

namespace Format

def single : Format := ⟨8,23⟩

def double : Format := ⟨11,52⟩

def signBit (format : Format) : Nat :=
  Nat.pow 2 (format.exponentBits + format.fractionBits)

def exponentUnit (format : Format) : Nat :=
  Nat.pow 2 format.fractionBits

/-- The magnitude of infinity; those above it are not numbers. -/
def infinity (format : Format) : Nat :=
  (Nat.pow 2 format.exponentBits - 1) * format.exponentUnit

/-- Every finite number is a natural times two to some exponent not below this one. -/
def leastExponent (format : Format) : Int :=
  2 - (Nat.pow 2 (format.exponentBits - 1) : Nat) - format.fractionBits

def magnitude (format : Format) (pattern : Nat) : Nat :=
  pattern % format.signBit

def isNegative (format : Format) (pattern : Nat) : Bool :=
  format.signBit ≤ pattern

def isFinite (format : Format) (pattern : Nat) : Bool :=
  format.magnitude pattern < format.infinity

def parts (format : Format) (magnitude : Nat) : Nat × Int :=
  let fraction := magnitude % format.exponentUnit
  match magnitude / format.exponentUnit with
  | 0 => (fraction,format.leastExponent)
  | exponent + 1 => (fraction + format.exponentUnit,format.leastExponent + exponent)

def value (format : Format) (magnitude : Nat) : Rat :=
  scaled 2 (format.parts magnitude).1 (format.parts magnitude).2

/-- The magnitude nearest to a rational that is not negative, a half to the even one. What
lies half a unit or more beyond the greatest finite number becomes infinity. -/
def round (format : Format) (value : Rat) : Nat :=
  if value = 0 then 0
  else
    let exponent := max (floorLog2 value - format.fractionBits) format.leastExponent
    min format.infinity
      (roundEven (value / scaled 2 1 exponent) +
        (exponent - format.leastExponent).toNat * format.exponentUnit)

def signed (format : Format) (negative : Bool) (magnitude : Nat) : Nat :=
  (if negative then format.signBit else 0) + magnitude

def ofInt (format : Format) (value : Int) : Nat :=
  format.signed (value < 0) (format.round value.natAbs)

/-- Carries a pattern into another format. Numbers are rounded; infinity stays; what is
not a number stays so, quieted, with the leading bits of its fraction. -/
def convert (source target : Format) (pattern : Nat) : Nat :=
  let magnitude := source.magnitude pattern
  target.signed (source.isNegative pattern) <|
    if magnitude < source.infinity then target.round (source.value magnitude)
    else if magnitude = source.infinity then target.infinity
    else
      let fraction := (magnitude - source.infinity) * target.exponentUnit / source.exponentUnit
      let quiet := target.exponentUnit / 2
      target.infinity + quiet + fraction % quiet

/-- Whether two patterns are the same number: zeros of both signs are, and what is not a
number is not even itself. -/
def sameNumber (format : Format) (left right : Nat) : Bool :=
  format.magnitude left ≤ format.infinity && format.magnitude right ≤ format.infinity &&
    (left == right || (format.magnitude left == 0 && format.magnitude right == 0))

end Format

def isFinite (bits : BitVec 64) : Bool :=
  Format.double.isFinite bits.toNat

def widen (bits : BitVec 32) : BitVec 64 :=
  BitVec.ofNat 64 (Format.convert .single .double bits.toNat)

def narrow (bits : BitVec 64) : BitVec 32 :=
  BitVec.ofNat 32 (Format.convert .double .single bits.toNat)

def ofInt (value : Int) : BitVec 64 :=
  BitVec.ofNat 64 (Format.double.ofInt value)

end MavPayload.Binary
