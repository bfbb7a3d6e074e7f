/-!
Text as code points some of which may be halves of surrogate pairs, as escapes spell them.
A high half and the low half after it are one character; a half alone is none.
-/

namespace MavPayload.Text

def isHighHalf (unit : Nat) : Bool :=
  0xD800 ≤ unit && unit < 0xDC00

def isLowHalf (unit : Nat) : Bool :=
  0xDC00 ≤ unit && unit < 0xE000

def joined (high low : Nat) : Char :=
  Char.ofNat (0x10000 + (high - 0xD800) * 0x400 + (low - 0xDC00))

/-- The characters of some code points, none if a half stands alone. -/
def ofUnits? : List Nat → Option (List Char)
  | [] => some []
  | [unit] => if isHighHalf unit || isLowHalf unit then none else some [Char.ofNat unit]
  | unit :: next :: rest =>
    if isHighHalf unit then
      if isLowHalf next then (ofUnits? rest).map (joined unit next :: ·) else none
    else if isLowHalf unit then none
    else (ofUnits? (next :: rest)).map (Char.ofNat unit :: ·)

end MavPayload.Text
