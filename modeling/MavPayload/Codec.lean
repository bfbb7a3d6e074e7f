import MavPayload.Cursor
import MavPayload.Frame

/-!
The walk over a layout that every codec makes: the fields of a version in wire order, each
written or read where the one before it ended. How one field is written or read is up to
the codec. A codec that leaves the payload is an `overrun`.
-/

namespace MavPayload.Layout

/-- A full payload, its fields written one after another over zeros. -/
def fill? (layout : Layout) (version : Version) (write : Field → Writer → Option Writer) :
    Option (List UInt8) :=
  let start := Writer.zeros (layout.payloadSize version)
  ((layout.fieldsFor version).foldlM (fun writer field => write field writer) start).map (·.buffer)

def encodeWith (layout : Layout) (version : Version)
    (write : Field → Writer → Option Writer) : Except Error (List UInt8) :=
  match layout.fill? version write with
  | some payload => .ok (sent version payload)
  | none => .error (.overrun layout.name)

/-- What is gathered field by field from a payload of full length. -/
def scan? {α : Type} (layout : Layout) (version : Version)
    (read : Field → Reader → α → Option (α × Reader)) (start : α) (payload : List UInt8) :
    Option α :=
  let step (state : α × Reader) (field : Field) := read field state.2 state.1
  ((layout.fieldsFor version).foldlM step (start,{ buffer := payload })).map Prod.fst

def decodeWith {α : Type} (layout : Layout) (version : Version)
    (read : Field → Reader → α → Option (α × Reader)) (start : α) (payload : List UInt8) :
    Except Error α := do
  let full ← layout.receive version payload
  match layout.scan? version read start full with
  | some gathered => .ok gathered
  | none => .error (.overrun layout.name)

end MavPayload.Layout
