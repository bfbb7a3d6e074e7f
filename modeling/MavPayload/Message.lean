import MavPayload.Bindings
import MavPayload.Codec

/-!
Messages whose layout is known only when the program runs. A message holds values for
some of the fields of its layout; a field that is not set is written as zeros.
-/

namespace MavPayload

structure Message where
  layout : Layout
  values : Bindings Value := []

namespace Message

def get? (message : Message) (name : String) : Option Value :=
  message.values.get? name

def isSet (message : Message) (name : String) : Bool :=
  (message.get? name).isSome

def size (message : Message) : Nat :=
  message.values.length

def isEmpty (message : Message) : Bool :=
  message.values.isEmpty

def entries (message : Message) : List (Field × Value) :=
  message.layout.fields.filterMap fun field =>
    (message.get? field.name).map fun value => (field,value)

def fieldOf (message : Message) (name : String) : Except Error Field :=
  match message.layout.field? name with
  | some field => .ok field
  | none => .error (.unknownField message.layout.name name)

def set (message : Message) (name : String) (value : Value) : Except Error Message := do
  let field ← message.fieldOf name
  if value.matchesField field.toFieldSpec then
    return { message with values := message.values.insert field.name value }
  else throw (.typeMismatch name (.field field.type field.length))

def clear (message : Message) (name : String) : Message :=
  { message with values := message.values.erase name }

/-- Writes the elements of an array field: those of the value, then zeros, as many as the
field has. -/
def writeElements (field : Field) (items : List Value) (writer : Writer) : Option Writer :=
  (List.range field.length).foldlM (fun writer place =>
    writer.put (field.encodeElement (items[place]?.getD (Value.zero field.type)))) writer

def writeField (field : Field) (value : Option Value) (writer : Writer) : Option Writer :=
  if field.isArray then
    writeElements field ((value.bind Value.asArray?).getD []) writer
  else match value with
    | some value => writer.put (field.encodeElement value)
    | none => writer.put (List.replicate field.size 0)

def readElement (field : Field) (reader : Reader) : Option (Value × Reader) := do
  let (bytes,reader) ← reader.take field.elementSize
  return (field.decodeElement bytes,reader)

def readField (field : Field) (reader : Reader) : Option (Value × Reader) :=
  if field.isArray then do
    let (items,reader) ← reader.times (readElement field) field.length
    return (.array items.toList,reader)
  else readElement field reader

def readInto (field : Field) (reader : Reader) (values : Bindings Value) :
    Option (Bindings Value × Reader) := do
  let (value,reader) ← readField field reader
  return (values.insert field.name value,reader)

def encode (message : Message) (version : Version) : Except Error (List UInt8) :=
  message.layout.encodeWith version fun field writer =>
    writeField field (message.get? field.name) writer

def decode (layout : Layout) (payload : List UInt8) (version : Version) :
    Except Error Message := do
  return { layout, values := ← layout.decodeWith version readInto [] payload }

def agrees (left right : Message) : Bool :=
  left.layout == right.layout && left.size == right.size &&
    left.values.all fun (name,value) => (right.get? name).any value.agrees

end Message

end MavPayload
