import MavPayload.Decimal.Basic

/-!
Numbers as JSON text writes them: an optional minus sign, digits without a leading zero,
and optionally a fraction and an exponent.
-/

namespace MavPayload.Json

structure Literal where
  isNegative : Bool
  whole : List Char
  fraction : Option (List Char) := none
  exponent : Option Int := none
deriving DecidableEq, Repr

namespace Literal

def digits? (chars : List Char) : Option (List Char × List Char) :=
  match chars.takeWhile Char.isDigit with
  | [] => none
  | run => some (run,chars.dropWhile Char.isDigit)

/-- The digits before the point, which start with a zero only if that is all. -/
def whole? (chars : List Char) : Option (List Char × List Char) := do
  let (run,rest) ← digits? chars
  match run with
  | '0' :: _ :: _ => none
  | _ => some (run,rest)

def fraction? : List Char → Option (Option (List Char) × List Char)
  | '.' :: chars => do
    let (run,rest) ← digits? chars
    return (some run,rest)
  | chars => some (none,chars)

def exponent? : List Char → Option (Option Int)
  | [] => some none
  | mark :: chars => do
    if mark ≠ 'e' ∧ mark ≠ 'E' then none
    let (isNegative,chars) := match chars with
      | '-' :: chars => (true,chars)
      | '+' :: chars => (false,chars)
      | chars => (false,chars)
    let (run,rest) ← digits? chars
    if rest ≠ [] then none
    let size := Nat.ofDigitChars 10 run 0
    return some (if isNegative then -(size : Int) else size)

def ofChars? (chars : List Char) : Option Literal := do
  let (isNegative,chars) := match chars with
    | '-' :: chars => (true,chars)
    | chars => (false,chars)
  let (whole,chars) ← whole? chars
  let (fraction,chars) ← fraction? chars
  let exponent ← exponent? chars
  return { isNegative, whole, fraction, exponent }

/-- The integer of a literal without fraction and exponent, apart from its sign. -/
def natural? (literal : Literal) : Option Nat :=
  match literal.fraction,literal.exponent with
  | none,none => some (Nat.ofDigitChars 10 literal.whole 0)
  | _,_ => none

def decimal (literal : Literal) : Decimal :=
  let fraction := literal.fraction.getD []
  ⟨Nat.ofDigitChars 10 (literal.whole ++ fraction) 0,literal.exponent.getD 0 - fraction.length⟩

end Literal

end MavPayload.Json
