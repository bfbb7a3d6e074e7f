import MavPayload.Text.Utf8
import MavPayload.Value

/-!
One element of a field as octets: a number, least significant octet first, or the whole
of a text buffer. `encodeElement` and `decodeElement` say what the elements of a field
look like; which octets of a payload they are is not decided here.
-/

namespace MavPayload

def littleEndian : Nat → Nat → List UInt8
  | 0,_ => []
  | count + 1,value => UInt8.ofNat (value % 256) :: littleEndian count (value / 256)

def ofLittleEndian : List UInt8 → Nat
  | [] => 0
  | byte :: rest => byte.toNat + 256 * ofLittleEndian rest

def overwrite (bytes buffer : List UInt8) : List UInt8 :=
  bytes ++ buffer.drop bytes.length

namespace NumericType

def encode (type : NumericType) (bits : BitVec type.width) : List UInt8 :=
  littleEndian type.size bits.toNat

def decode (type : NumericType) (buffer : List UInt8) : BitVec type.width :=
  BitVec.ofNat type.width (ofLittleEndian (buffer.take type.size))

end NumericType

namespace CharBuffer

/-- A text as exactly `length` octets: cut, or filled up with zeros. A cut may fall inside
a character. -/
def encode (length : Nat) (text : String) : List UInt8 :=
  let bytes := (Text.Utf8.encode text).take length
  bytes ++ List.replicate (length - bytes.length) 0

/-- The text of the first `length` octets of a buffer, which ends before the first zero. -/
def decode (length : Nat) (buffer : List UInt8) : String :=
  Text.Utf8.decodeLossy ((buffer.take length).takeWhile (· != 0))

end CharBuffer

namespace FieldSpec

def elementSize (field : FieldSpec) : Nat :=
  match field.type with
  | .numeric type => type.size
  | .char => max field.length 1

/-- One element as octets. A value that is no element of the field's type is written as
zeros. -/
def encodeElement (field : FieldSpec) (value : Value) : List UInt8 :=
  match field.type,value with
  | .numeric type,.number own bits =>
    if h : own = type then type.encode (h ▸ bits) else List.replicate type.size 0
  | .numeric type,_ => List.replicate type.size 0
  | .char,.text text => CharBuffer.encode field.elementSize text
  | .char,_ => List.replicate field.elementSize 0

def decodeElement (field : FieldSpec) (buffer : List UInt8) : Value :=
  match field.type with
  | .numeric type => .number type (type.decode buffer)
  | .char => .text (CharBuffer.decode field.elementSize buffer)

end FieldSpec

end MavPayload
