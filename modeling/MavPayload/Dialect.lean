import MavPayload.Layout.Index
import MavPayload.Message
import MavPayload.Registry

/-!
Dialects: the messages that the peers of a network have agreed on, by id and by name.
-/

namespace MavPayload

structure MessageDefinition where
  id : Nat
  name : String
  fields : List FieldSpec
deriving DecidableEq, Repr

def MessageDefinition.layout (definition : MessageDefinition) : Except Error Layout :=
  Layout.build definition.name definition.id definition.fields

structure Dialect where
  name : String
  version : Nat
  layouts : LayoutIndex
deriving DecidableEq, Repr

/-- A message that a dialect and a registry lay out differently. -/
structure Disagreement where
  id : Nat
  name : String
  dialectCrc : UInt8
  registryCrc : UInt8
deriving DecidableEq, Repr

namespace Dialect

/-- Adds a definition, whose id and name must be new. It is judged by itself before it is
compared with the others. -/
def add (dialect : String) (layouts : LayoutIndex) (definition : MessageDefinition) :
    Except Error LayoutIndex := do
  let layout ← definition.layout
  if (layouts.byId? definition.id).isSome then
    throw (.invalidDefinition (.duplicateId dialect definition.id))
  if (layouts.idOf? definition.name).isSome then
    throw (.invalidDefinition (.duplicateName dialect definition.name))
  return (layouts.holdName definition.name definition.id).holdLayout definition.id layout

def ofDefinitions (name : String) (version : Nat) (definitions : List MessageDefinition) :
    Except Error Dialect := do
  return { name, version, layouts := ← definitions.foldlM (add name) {} }

def size (dialect : Dialect) : Nat :=
  dialect.layouts.length

def isEmpty (dialect : Dialect) : Bool :=
  dialect.layouts.isEmpty

def byId? (dialect : Dialect) (id : Nat) : Option Layout :=
  dialect.layouts.byId? id

def byName? (dialect : Dialect) (name : String) : Option Layout :=
  dialect.layouts.byName? name

def layoutOf (dialect : Dialect) (id : Nat) : Except Error Layout :=
  match dialect.byId? id with
  | some layout => .ok layout
  | none => .error (.unknownMessage (.id id))

def createById (dialect : Dialect) (id : Nat) : Except Error Message := do
  return { layout := ← dialect.layoutOf id }

def createByName (dialect : Dialect) (name : String) : Except Error Message :=
  match dialect.byName? name with
  | some layout => .ok { layout }
  | none => .error (.unknownMessage (.name name))

def decode (dialect : Dialect) (id : Nat) (payload : List UInt8) (version : Version) :
    Except Error Message := do
  Message.decode (← dialect.layoutOf id) payload version

/-- The payload of a message that the dialect knows by its id and name. The message is
written by its own layout. -/
def encode (dialect : Dialect) (message : Message) (version : Version) :
    Except Error (List UInt8) := do
  let layout ← dialect.layoutOf message.layout.id
  if layout.name = message.layout.name then message.encode version
  else throw (.unknownMessage (.name message.layout.name))

/-- The messages of both whose layouts have different checksums, by ascending id. -/
def disagreements (dialect : Dialect) (registry : Registry) : List Disagreement :=
  registry.layouts.toList.filterMap fun held => do
    let own ← dialect.byId? held.id
    if own.crcExtra = held.crcExtra then none
    else some {
      id := own.id
      name := own.name
      dialectCrc := own.crcExtra
      registryCrc := held.crcExtra }

end Dialect

end MavPayload
