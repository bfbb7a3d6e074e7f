import MavPayload.FieldType
import MavPayload.Text.Blank
import MavPayload.Text.Digits

/-!
Types as definition files spell them: `uint16_t`, `char[16]`, `float[4]`. Blanks may stand
at both ends and around the length, and the length is not zero.
-/

namespace MavPayload.TypeSpec

def lengthBound : Nat := Nat.pow 2 64

def base? (chars : List Char) : Option FieldType :=
  FieldType.ofWireName? (String.ofList chars)

/-- The length in what follows the opening bracket, which ends with the closing one. -/
def length? (chars : List Char) : Option Nat :=
  match chars.reverse with
  | ']' :: inner => (Text.natural? lengthBound (Text.trim inner.reverse)).filter (0 < ·)
  | _ => none

/-- The type and the array length of a spelling; the length is 0 if none is given. -/
def parse? (spec : String) : Option (FieldType × Nat) := do
  let chars := Text.trim spec.toList
  match chars.dropWhile (· != '[') with
  | [] => return (← base? chars,0)
  | _ :: rest => do
    let length ← length? rest
    return (← base? (Text.trim (chars.takeWhile (· != '['))),length)

end MavPayload.TypeSpec
