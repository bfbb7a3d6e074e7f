import MavPayload.Layout.Index
import MavPayload.Record

/-!
Layouts of record types, each built when it is first asked for. A registry holds a layout
under the id and the name of the type that it was built for, and counts what it does with
words of 64 bits, which start again from zero when they are full.
-/

namespace MavPayload

structure Registry where
  layouts : LayoutIndex := {}
  hitCount : UInt64 := 0
  missCount : UInt64 := 0

namespace Registry

/-- How many times a layout was found, as far as the count goes. -/
def hits (registry : Registry) : Nat :=
  registry.hitCount.toNat

/-- How many times a layout was built, or failed to be, as far as the count goes. -/
def misses (registry : Registry) : Nat :=
  registry.missCount.toNat

def held? (registry : Registry) (type : RecordType) : Option Layout :=
  (registry.layouts.byId? type.id).filter fun layout => layout.name == type.name

/-- The layout of a type, built if neither its id nor its name is held. What is built is held
under the id first and then under the name, and a miss counts whether it can be built or not. -/
def register (registry : Registry) (type : RecordType) : Except Error Layout × Registry :=
  match registry.layouts.byId? type.id with
  | some layout =>
    if layout.name = type.name then (.ok layout,registry)
    else (.error (.invalidDefinition (.idHeld type.id layout.name type.name)),registry)
  | none =>
    match registry.layouts.idOf? type.name with
    | some id => (.error (.invalidDefinition (.nameHeld type.name id type.id)),registry)
    | none =>
      let counted := { registry with missCount := registry.missCount + 1 }
      match type.layout with
      | .error error => (.error error,counted)
      | .ok layout =>
        let placed := { counted with layouts := counted.layouts.holdLayout type.id layout }
        (.ok layout,{ placed with layouts := placed.layouts.holdName type.name type.id })

def layoutOf (registry : Registry) (type : RecordType) : Except Error Layout × Registry :=
  match registry.held? type with
  | some layout => (.ok layout,{ registry with hitCount := registry.hitCount + 1 })
  | none => registry.register type

def encode (registry : Registry) {type : RecordType} (record : Record type) (version : Version) :
    Except Error (List UInt8) × Registry :=
  match registry.layoutOf type with
  | (.ok layout,registry) => (record.encode layout version,registry)
  | (.error error,registry) => (.error error,registry)

def decode (registry : Registry) (type : RecordType) (payload : List UInt8) (version : Version) :
    Except Error (Record type) × Registry :=
  match registry.layoutOf type with
  | (.ok layout,registry) => (Record.decode layout payload version,registry)
  | (.error error,registry) => (.error error,registry)

def ofTypes (types : List RecordType) : Except Error Registry :=
  types.foldlM (fun registry type =>
    match registry.register type with
    | (.ok _,registry) => .ok registry
    | (.error error,_) => .error error) {}

end Registry

end MavPayload
