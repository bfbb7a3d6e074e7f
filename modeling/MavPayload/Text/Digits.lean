/-!
Unsigned decimal numbers in text: ASCII digits with an optional plus sign and any number
of leading zeros, below a bound.
-/

namespace MavPayload.Text

def digits? (chars : List Char) : Option Nat :=
  if !chars.isEmpty && chars.all Char.isDigit then some (Nat.ofDigitChars 10 chars 0) else none

def natural? (bound : Nat) (chars : List Char) : Option Nat :=
  let digits := match chars with
    | '+' :: rest => rest
    | chars => chars
  (digits? digits).filter (· < bound)

def decimal (value : Nat) : List Char :=
  Nat.toDigits 10 value

def signedDecimal (value : Int) : List Char :=
  if value < 0 then '-' :: decimal value.natAbs else decimal value.natAbs

end MavPayload.Text
