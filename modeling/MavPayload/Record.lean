import MavPayload.Codec
import MavPayload.Enumeration

/-!
Messages whose fields are known in advance. The type of a record gives every member a type
of its own, so a record cannot hold a value of the wrong kind. Its codec makes the same
walk as that of a message, but each member moves the cursor by what its own type takes.
-/

namespace MavPayload

inductive MemberType where
  | number (type : NumericType)
  | enumeration (names : Enumeration)
  /-- A text buffer of some octets; with length 0, of one. -/
  | text (length : Nat)
  | numbers (type : NumericType) (count : Nat)

namespace MemberType

@[reducible] def Carrier : MemberType → Type
  | number type => BitVec type.width
  | enumeration names => BitVec names.type.width
  | text _ => String
  | numbers type count => Vector (BitVec type.width) count

def elementType : MemberType → FieldType
  | number type => .numeric type
  | enumeration names => .numeric names.type
  | text _ => .char
  | numbers type _ => .numeric type

def length : MemberType → Nat
  | number _ | enumeration _ => 0
  | text length => length
  | numbers _ count => count

def isEnum : MemberType → Bool
  | enumeration _ => true
  | _ => false

def zero : (type : MemberType) → type.Carrier
  | number type => (0 : BitVec type.width)
  | enumeration names => (0 : BitVec names.type.width)
  | text _ => ""
  | numbers type count => Vector.replicate count (0 : BitVec type.width)

def toValue : (type : MemberType) → type.Carrier → Value
  | number type,bits => .number type bits
  | enumeration names,bits => .number names.type bits
  | text _,chars => .text chars
  | numbers type _,items => .array (items.toList.map (.number type))

def write (field : Field) : (type : MemberType) → type.Carrier → Writer → Option Writer
  | number type,bits,writer => writer.number type bits
  | enumeration names,bits,writer => writer.number names.type bits
  | text _,chars,writer => writer.text (max field.length 1) chars
  | numbers type _,items,writer =>
    items.toList.foldlM (fun writer bits => writer.number type bits) writer

def read (field : Field) : (type : MemberType) → Reader → Option (type.Carrier × Reader)
  | number type,reader => reader.number type
  | enumeration names,reader => reader.number names.type
  | text _,reader => reader.text (max field.length 1)
  | numbers type count,reader => reader.times (fun reader => reader.number type) count

end MemberType

structure Member where
  name : String
  type : MemberType
  isExtension : Bool := false

def Member.spec (member : Member) : FieldSpec where
  name := member.name
  type := member.type.elementType
  isEnum := member.type.isEnum
  length := member.type.length
  isExtension := member.isExtension

structure RecordType where
  name : String
  id : Nat
  members : List Member

def Record (type : RecordType) : Type :=
  (index : Fin type.members.length) → (type.members.get index).type.Carrier

namespace RecordType

def specs (type : RecordType) : List FieldSpec :=
  type.members.map Member.spec

def layout (type : RecordType) : Except Error Layout :=
  Layout.build type.name type.id type.specs

end RecordType

namespace Record

variable {type : RecordType}

def zero (type : RecordType) : Record type :=
  fun index => (type.members.get index).type.zero

def set (record : Record type) (index : Fin type.members.length)
    (value : (type.members.get index).type.Carrier) : Record type :=
  fun other => if same : other = index then same ▸ value else record other

def toList (record : Record type) : List (Member × Value) :=
  List.ofFn fun index =>
    (type.members.get index,(type.members.get index).type.toValue (record index))

/-- Writes the member that a field was declared by. A field that no member declared is
passed over. -/
def writeField (record : Record type) (field : Field) (writer : Writer) : Option Writer :=
  if declared : field.index < type.members.length then
    let index : Fin type.members.length := ⟨field.index,declared⟩
    (type.members.get index).type.write field (record index) writer
  else some writer

def readField (field : Field) (reader : Reader) (record : Record type) :
    Option (Record type × Reader) :=
  if declared : field.index < type.members.length then do
    let index : Fin type.members.length := ⟨field.index,declared⟩
    let (value,reader) ← (type.members.get index).type.read field reader
    return (record.set index value,reader)
  else some (record,reader)

def encode (layout : Layout) (record : Record type) (version : Version) :
    Except Error (List UInt8) :=
  layout.encodeWith version record.writeField

/-- The record of a payload. Members that the version does not carry are zero. -/
def decode (layout : Layout) (payload : List UInt8) (version : Version) :
    Except Error (Record type) :=
  layout.decodeWith version readField (zero type) payload

end Record

end MavPayload
