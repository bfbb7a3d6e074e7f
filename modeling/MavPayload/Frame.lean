import MavPayload.Layout

/-!
The length of a payload inside a frame. The first generation carries the base fields in
full and nothing else. The second may leave out zeros at the end and may carry fields
that the receiver does not know.
-/

namespace MavPayload

namespace Layout

/-- A received payload brought to the full length of the layout: refused (first
generation), or cut or filled up with zeros (second). -/
def receive (layout : Layout) (version : Version) (payload : List UInt8) :
    Except Error (List UInt8) :=
  match version with
  | .v1 =>
    if payload.length = layout.payloadSize .v1 then .ok payload
    else .error (.sizeMismatch layout.name (layout.payloadSize .v1) payload.length)
  | .v2 =>
    let size := layout.payloadSize .v2
    .ok (payload.take size ++ List.replicate (size - payload.length) 0)

end Layout

def withoutTrailingZeros (payload : List UInt8) : List UInt8 :=
  (payload.reverse.dropWhile (· == 0)).reverse

/-- A full payload as it is sent. The second generation leaves out the zeros at the end
but sends at least one octet, if there is one. -/
def sent (version : Version) (payload : List UInt8) : List UInt8 :=
  match version with
  | .v1 => payload
  | .v2 =>
    match withoutTrailingZeros payload with
    | [] => payload.take 1
    | kept => kept

end MavPayload
