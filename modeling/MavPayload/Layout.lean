import MavPayload.Checksum
import MavPayload.Field
import MavPayload.Text.Utf8
import MavPayload.Version

/-!
The layout of a message: its fields in wire order, the sizes that follow from it and the
checksum by which two peers compare layouts. A layout is built from a declaration, and
`Layout.build` is the only judge of which declarations are accepted.
-/

namespace MavPayload

structure Layout where
  name : String
  id : Nat
  fields : List Field
deriving DecidableEq, Repr

namespace Layout

def maxPayload : Nat := 255

def maxId : Nat := 0xFFFFFF

def elementSizes : List Nat := [8,4,2,1]

/-- The wire order: base fields by descending element size, then the extensions. Fields
of one group keep the order of their declaration. -/
def wireOrder (fields : List Field) : List Field :=
  (elementSizes.flatMap fun size =>
    fields.filter fun field => !field.isExtension && field.type.size == size) ++
  fields.filter (·.isExtension)

def baseFields (layout : Layout) : List Field :=
  layout.fields.takeWhile fun field => !field.isExtension

def fieldsFor (layout : Layout) : Version → List Field
  | .v1 => layout.baseFields
  | .v2 => layout.fields

def totalSize : List Field → Nat
  | [] => 0
  | field :: rest => field.size + totalSize rest

def payloadSize (layout : Layout) (version : Version) : Nat :=
  totalSize (layout.fieldsFor version)

def hasExtensions (layout : Layout) : Bool :=
  layout.baseFields.length < layout.fields.length

def field? (layout : Layout) (name : String) : Option Field :=
  layout.fields.find? fun field => field.name == name

def signature (field : Field) : List UInt8 :=
  Text.Utf8.encode field.type.wireName ++ Text.Utf8.encode " " ++
  Text.Utf8.encode field.name ++ Text.Utf8.encode " " ++
  (if 0 < field.length then [UInt8.ofNat field.length] else [])

/-- The checksum of a layout covers the message's name and the base fields, so adding an
extension does not change it. -/
def crcExtra (layout : Layout) : UInt8 :=
  let named := Checksum.update Checksum.initial (Text.Utf8.encode layout.name)
  let started := Checksum.update named (Text.Utf8.encode " ")
  Checksum.folded <|
    layout.baseFields.foldl (fun sum field => Checksum.update sum (signature field)) started

/-- The first fault of the fields of a declaration, where `index` fields with the names
`seen` stand before them. -/
def checkFields (message : String) (index : Nat) (seen : List String) :
    List FieldSpec → Except Error Unit
  | [] => .ok ()
  | field :: rest =>
    if field.name = "" then .error (.invalidDefinition (.emptyFieldName message index))
    else if field.name ∈ seen then
      .error (.invalidDefinition (.duplicateField message field.name))
    else if field.isEnum && !field.type.canBackEnum then
      .error (.unsupportedEnum message field.name field.type)
    else if 255 < field.length then
      .error (.invalidDefinition (.arrayTooLong message field.name field.length))
    else checkFields message (index + 1) (field.name :: seen) rest

def placed (specs : List FieldSpec) : List Field :=
  specs.mapIdx fun index spec => { spec with index }

/-- The layout of a declaration. The message's name and id are judged first, then each
field in turn, and last the size of all fields together. -/
def build (name : String) (id : Nat) (specs : List FieldSpec) : Except Error Layout := do
  if name = "" then throw (.invalidDefinition (.emptyMessageName id))
  if maxId < id then throw (.invalidDefinition (.idTooLarge name id))
  checkFields name 0 [] specs
  let fields := wireOrder (placed specs)
  if maxPayload < totalSize fields then
    throw (.invalidDefinition (.payloadTooLong name (totalSize fields)))
  return { name, id, fields }

end Layout

end MavPayload
