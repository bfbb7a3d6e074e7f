/-!
The primitive types of the wire. Ten of them are numbers of a fixed width; the
eleventh, `char`, is the element of a text buffer. Every other property of a field,
from its place in the payload to its JSON form, is decided by these types.
-/

namespace MavPayload

inductive NumericType where
  | double
  | uint64
  | int64
  | float
  | uint32
  | int32
  | uint16
  | int16
  | uint8
  | int8
deriving DecidableEq, Repr

namespace NumericType

def size : NumericType → Nat
  | double | uint64 | int64 => 8
  | float | uint32 | int32 => 4
  | uint16 | int16 => 2
  | uint8 | int8 => 1

abbrev width (type : NumericType) : Nat :=
  8 * type.size

def isFloat : NumericType → Bool
  | double | float => true
  | _ => false

def isSigned : NumericType → Bool
  | double | float | int64 | int32 | int16 | int8 => true
  | uint64 | uint32 | uint16 | uint8 => false

def canBackEnum : NumericType → Bool
  | uint8 | uint16 | uint32 | int32 | uint64 => true
  | double | int64 | float | int16 | int8 => false

/-- The name in dialect definitions. It enters the layout checksum. -/
def wireName : NumericType → String
  | double => "double"
  | uint64 => "uint64_t"
  | int64 => "int64_t"
  | float => "float"
  | uint32 => "uint32_t"
  | int32 => "int32_t"
  | uint16 => "uint16_t"
  | int16 => "int16_t"
  | uint8 => "uint8_t"
  | int8 => "int8_t"

def shortName : NumericType → String
  | double => "double"
  | uint64 => "uint64"
  | int64 => "int64"
  | float => "float"
  | uint32 => "uint32"
  | int32 => "int32"
  | uint16 => "uint16"
  | int16 => "int16"
  | uint8 => "uint8"
  | int8 => "int8"

end NumericType

inductive FieldType where
  | numeric (type : NumericType)
  | char
deriving DecidableEq, Repr

namespace FieldType

instance : Coe NumericType FieldType := ⟨numeric⟩

def all : List FieldType :=
  [.numeric .double,.numeric .uint64,.numeric .int64,.numeric .float,.numeric .uint32,
   .numeric .int32,.numeric .uint16,.numeric .int16,.numeric .uint8,.numeric .int8,.char]

def size : FieldType → Nat
  | numeric type => type.size
  | char => 1

def isFloat : FieldType → Bool
  | numeric type => type.isFloat
  | char => false

def isSigned : FieldType → Bool
  | numeric type => type.isSigned
  | char => false

def canBackEnum : FieldType → Bool
  | numeric type => type.canBackEnum
  | char => false

def wireName : FieldType → String
  | numeric type => type.wireName
  | char => "char"

def shortName : FieldType → String
  | numeric type => type.shortName
  | char => "char"

/-- The type with a wire name. Definitions spell the protocol's own version byte
`uint8_t_mavlink_version`; on the wire it is a `uint8_t`. -/
def ofWireName? (name : String) : Option FieldType :=
  if name = "uint8_t_mavlink_version" then some (.numeric .uint8)
  else all.find? fun type => type.wireName == name

theorem size_pos (type : FieldType) : 0 < type.size := by
  cases type with
  | numeric type => cases type <;> decide
  | char => decide

end FieldType

end MavPayload
