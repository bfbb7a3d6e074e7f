/-!
The 16-bit cyclic redundancy check of the wire: generator `x^16 + x^12 + x^5 + 1`, least
significant bit first, all ones at the start and no final inversion. One octet is taken
in at a time, so the sum does not depend on how its octets are grouped.
-/

namespace MavPayload.Checksum

def initial : UInt16 := 0xFFFF

/-- Takes in one octet. The generator has three low terms, so the octet leaves the
register as three shifted copies of one folded octet. -/
def octet (sum : UInt16) (byte : UInt8) : UInt16 :=
  let low : UInt8 := byte ^^^ sum.toUInt8
  let folded : UInt16 := (low ^^^ (low <<< 4)).toUInt16
  (sum >>> 8) ^^^ (folded <<< 8) ^^^ (folded <<< 3) ^^^ (folded >>> 4)

def update (sum : UInt16) (bytes : List UInt8) : UInt16 :=
  bytes.foldl octet sum

def ofBytes (bytes : List UInt8) : UInt16 :=
  update initial bytes

def folded (sum : UInt16) : UInt8 :=
  sum.toUInt8 ^^^ (sum >>> 8).toUInt8

@[simp] theorem update_append (sum : UInt16) (left right : List UInt8) :
    update sum (left ++ right) = update (update sum left) right := by
  simp [update,List.foldl_append]

end MavPayload.Checksum
