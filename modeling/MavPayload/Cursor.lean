import MavPayload.Element

/-!
Positions in a payload. A reader takes octets and a writer puts them, each at its place
and going forward; a step that would leave the payload fails.
-/

namespace MavPayload

structure Reader where
  buffer : List UInt8
  offset : Nat := 0
deriving DecidableEq, Repr

namespace Reader

def remaining (reader : Reader) : Nat :=
  reader.buffer.length - reader.offset

def take (reader : Reader) (count : Nat) : Option (List UInt8 × Reader) :=
  if reader.offset + count ≤ reader.buffer.length then
    some ((reader.buffer.drop reader.offset).take count,
      { reader with offset := reader.offset + count })
  else none

def number (reader : Reader) (type : NumericType) : Option (BitVec type.width × Reader) := do
  let (bytes,reader) ← reader.take type.size
  return (type.decode bytes,reader)

def text (reader : Reader) (length : Nat) : Option (String × Reader) := do
  let (bytes,reader) ← reader.take length
  return (CharBuffer.decode length bytes,reader)

def times {α : Type} (read : Reader → Option (α × Reader)) :
    (count : Nat) → Reader → Option (Vector α count × Reader)
  | 0,reader => some (#v[],reader)
  | count + 1,reader => do
    let (items,reader) ← times read count reader
    let (last,reader) ← read reader
    return (items.push last,reader)

end Reader

structure Writer where
  buffer : List UInt8
  offset : Nat := 0
deriving DecidableEq, Repr

namespace Writer

def zeros (size : Nat) : Writer :=
  { buffer := List.replicate size 0 }

def remaining (writer : Writer) : Nat :=
  writer.buffer.length - writer.offset

def put (writer : Writer) (bytes : List UInt8) : Option Writer :=
  if writer.offset + bytes.length ≤ writer.buffer.length then
    some {
      buffer := writer.buffer.take writer.offset ++
        overwrite bytes (writer.buffer.drop writer.offset)
      offset := writer.offset + bytes.length }
  else none

def number (writer : Writer) (type : NumericType) (bits : BitVec type.width) : Option Writer :=
  writer.put (type.encode bits)

def text (writer : Writer) (length : Nat) (text : String) : Option Writer :=
  writer.put (CharBuffer.encode length text)

end Writer

end MavPayload
