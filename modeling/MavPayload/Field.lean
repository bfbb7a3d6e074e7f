import MavPayload.FieldType
import MavPayload.Error

/-!
Fields of a message: as declared, and as placed in a layout.
-/

namespace MavPayload

structure FieldSpec where
  name : String
  type : FieldType
  /-- Whether the values are those of an enumeration. -/
  isEnum : Bool := false
  /-- Elements of an array, or octets of a text buffer; 0 for a single element. -/
  length : Nat := 0
  isExtension : Bool := false
deriving DecidableEq, Repr

/-- A field of a layout: a declared field with its place in the declaration. -/
structure Field extends FieldSpec where
  index : Nat
deriving DecidableEq, Repr

namespace FieldSpec

def size (field : FieldSpec) : Nat :=
  field.type.size * max field.length 1

/-- Whether the field is a text buffer, which a single `char` is too. -/
def isText (field : FieldSpec) : Bool :=
  field.type == .char

def isArray (field : FieldSpec) : Bool :=
  decide (0 < field.length) && !field.isText

def label (field : FieldSpec) : String :=
  field.type.label field.length

end FieldSpec

end MavPayload
