import MavPayload.Binary.Format
import MavPayload.Field

/-!
Values of fields. A number is its type and its bit pattern, so a value is exactly what the
wire carries: the sign of a zero and the payload of what is not a number are kept. The
readings as an integer or as a double are functions on the pattern.
-/

namespace MavPayload

namespace NumericType

def toInt (type : NumericType) (bits : BitVec type.width) : Int :=
  if type.isSigned then bits.toInt else bits.toNat

def least (type : NumericType) : Int :=
  if type.isSigned then -(Nat.pow 2 (type.width - 1) : Nat) else 0

def greatest (type : NumericType) : Int :=
  if type.isSigned then (Nat.pow 2 (type.width - 1) : Nat) - 1 else (Nat.pow 2 type.width : Nat) - 1

def holds (type : NumericType) (value : Int) : Bool :=
  type.least ≤ value && value ≤ type.greatest

def ofInt? (type : NumericType) (value : Int) : Option (BitVec type.width) :=
  if type.holds value then some (BitVec.ofInt type.width value) else none

end NumericType

inductive Value where
  | bool (value : Bool)
  | number (type : NumericType) (bits : BitVec type.width)
  | text (value : String)
  | array (items : List Value)

namespace Value

def zero : FieldType → Value
  | .numeric type => number type 0
  | .char => text ""

def zeroFor (field : FieldSpec) : Value :=
  if field.isArray then array (List.replicate field.length (zero field.type))
  else zero field.type

def isElementOf (type : FieldType) : Value → Bool
  | number own _ => type == .numeric own
  | text _ => type == .char
  | bool _ | array _ => false

/-- Whether a field may hold a value. An array field takes arrays of any length. -/
def matchesField (field : FieldSpec) (value : Value) : Bool :=
  if field.isArray then
    match value with
    | array items => items.all (isElementOf field.type)
    | _ => false
  else isElementOf field.type value

def typeName : Value → String
  | bool _ => "bool"
  | number type _ => type.shortName
  | text _ => "string"
  | array _ => "array"

def asBool? : Value → Option Bool
  | bool value => some value
  | _ => none

def asNat? : Value → Option Nat
  | number type bits => if type.isSigned then none else some bits.toNat
  | _ => none

def asInt? : Value → Option Int
  | number type bits => if type.isSigned && !type.isFloat then some bits.toInt else none
  | _ => none

def asDouble? : Value → Option (BitVec 64)
  | number .float bits => some (Binary.widen bits)
  | number .double bits => some bits
  | _ => none

def asText? : Value → Option String
  | text value => some value
  | _ => none

def asArray? : Value → Option (List Value)
  | array items => some items
  | _ => none

def asByte? : Value → Option UInt8
  | number .uint8 bits => some (UInt8.ofBitVec bits)
  | _ => none

def asBytes? (value : Value) : Option (List UInt8) := do
  (← value.asArray?).mapM asByte?

def ofBytes (bytes : List UInt8) : Value :=
  array (bytes.map fun byte => number .uint8 byte.toBitVec)

mutual

/-- Whether two values are the same value. Floats compare as numbers: zeros of both signs
agree, and what is not a number agrees with nothing. -/
def agrees : Value → Value → Bool
  | bool left,bool right => left == right
  | number .float left,number .float right =>
    Binary.Format.sameNumber .single left.toNat right.toNat
  | number .double left,number .double right =>
    Binary.Format.sameNumber .double left.toNat right.toNat
  | number leftType left,number rightType right =>
    leftType == rightType && left.toNat == right.toNat
  | text left,text right => left == right
  | array left,array right => agreesAll left right
  | _,_ => false

def agreesAll : List Value → List Value → Bool
  | [],[] => true
  | left :: lefts,right :: rights => agrees left right && agreesAll lefts rights
  | _,_ => false

end

end Value

end MavPayload
