import MavPayload.Decimal.Shortest
import MavPayload.Json.Literal
import MavPayload.Text.Digits

/-!
JSON numbers: integers of 64 bits, signed or unsigned, and finite doubles. Which of the
two a number is depends on how it is written, not on its value: `1` is an integer, and
`1.0`, `1e0` and `-0` are doubles.
-/

namespace MavPayload.Json

def InRange (value : Int) : Prop :=
  -0x8000000000000000 ≤ value ∧ value < 0x10000000000000000

instance (value : Int) : Decidable (InRange value) :=
  inferInstanceAs (Decidable (_ ∧ _))

inductive Number where
  | integer (value : Int) (inRange : InRange value)
  | float (bits : BitVec 64) (finite : Binary.isFinite bits = true)
deriving DecidableEq, Repr

namespace Number

def ofDouble? (bits : BitVec 64) : Option Number :=
  if finite : Binary.isFinite bits = true then some (float bits finite) else none

def ofMagnitude? (isNegative : Bool) (magnitude : Nat) : Option Number :=
  ofDouble? (BitVec.ofNat 64 (Binary.Format.double.signed isNegative magnitude))

/-- The integer of a literal that is one and fits. The zero with a minus sign does not. -/
def integerOf? (literal : Literal) : Option Number := do
  let size ← literal.natural?
  let value : Int := if literal.isNegative then -size else size
  if literal.isNegative ∧ size = 0 then none
  else if inRange : InRange value then some (integer value inRange)
  else none

/-- The number of a literal: an integer if it can be one, else the nearest double. None if
that is infinite. -/
def ofLiteral? (literal : Literal) : Option Number :=
  (integerOf? literal).or (ofMagnitude? literal.isNegative (literal.decimal.read .double))

def toDouble : Number → BitVec 64
  | integer value _ => Binary.ofInt value
  | float bits _ => bits

/-- Decimals whose first digit stands for at least `10 ^ leastPlain` and less than
`10 ^ endPlain` are written without an exponent. -/
def leastPlain : Int := -5

def endPlain : Int := 16

/-- Digits with a point after `whole` of them, and a digit at least on both sides. -/
def pointed (digits : List Char) (whole : Int) : List Char :=
  if whole ≤ 0 then '0' :: '.' :: List.replicate (-whole).toNat '0' ++ digits
  else if digits.length ≤ whole.toNat then
    digits ++ List.replicate (whole.toNat - digits.length) '0' ++ ['.','0']
  else digits.take whole.toNat ++ '.' :: digits.drop whole.toNat

def scientific (digits : List Char) (exponent : Int) : List Char :=
  let fraction := if digits.length ≤ 1 then [] else '.' :: digits.drop 1
  let sign := if exponent < 0 then '-' else '+'
  digits.take 1 ++ fraction ++ 'e' :: sign :: Text.decimal exponent.natAbs

def decimalText (decimal : Decimal) : List Char :=
  let digits := Text.decimal decimal.digits
  let exponent := decimal.exponent + digits.length - 1
  if leastPlain ≤ exponent ∧ exponent < endPlain then pointed digits (exponent + 1)
  else scientific digits exponent

def magnitudeText (magnitude : Nat) : List Char :=
  if magnitude = 0 then ['0','.','0'] else decimalText (Decimal.shortest .double magnitude)

/-- A number as text. A double is never written like an integer. -/
def text : Number → List Char
  | integer value _ => Text.signedDecimal value
  | float bits _ =>
    let sign := if Binary.Format.double.isNegative bits.toNat then ['-'] else []
    sign ++ magnitudeText (Binary.Format.double.magnitude bits.toNat)

end Number

end MavPayload.Json
