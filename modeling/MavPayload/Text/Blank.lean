/-!
Blank characters, the `White_Space` property, and the removal of blanks at the ends of a
text.
-/

namespace MavPayload.Text

/-- Ranges of the characters with the property `White_Space`, in ascending order. -/
def blankRanges : List (Nat × Nat) :=
  [(0x09,0x0D),(0x20,0x20),(0x85,0x85),(0xA0,0xA0),(0x1680,0x1680),
   (0x2000,0x200A),(0x2028,0x2029),(0x202F,0x202F),(0x205F,0x205F),(0x3000,0x3000)]

def isBlank (char : Char) : Bool :=
  blankRanges.any fun (first,last) => first ≤ char.toNat && char.toNat ≤ last

def trim (chars : List Char) : List Char :=
  (chars.dropWhile isBlank).reverse.dropWhile isBlank |>.reverse

end MavPayload.Text
