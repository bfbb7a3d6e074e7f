import MavPayload.Value

/-!
Enumerations: names for some values of an integer type. A value without a name is as good
as any other, since a peer may know more names and flags may be combined.
-/

namespace MavPayload

structure Enumeration where
  /-- The type that holds the values. -/
  type : NumericType
  /-- The named values in order of declaration. Several names may share a value. -/
  entries : List (String × BitVec type.width)

namespace Enumeration

def nameOf? (enumeration : Enumeration) (value : BitVec enumeration.type.width) :
    Option String :=
  (enumeration.entries.find? fun entry => entry.2 == value).map (·.1)

def ofName? (enumeration : Enumeration) (name : String) :
    Option (BitVec enumeration.type.width) :=
  (enumeration.entries.find? fun entry => entry.1 == name).map (·.2)

def label (enumeration : Enumeration) (value : BitVec enumeration.type.width) : String :=
  (enumeration.nameOf? value).getD (toString (enumeration.type.toInt value))

end Enumeration

end MavPayload
