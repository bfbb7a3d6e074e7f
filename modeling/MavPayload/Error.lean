import MavPayload.FieldType

/-!
What can go wrong, as causes. The wording of each cause is in one place, `Error.message`
and the functions before it.
-/

namespace MavPayload

namespace FieldType

def label (type : FieldType) (length : Nat) : String :=
  if 0 < length then s!"{type.shortName}[{length}]" else type.shortName

end FieldType

inductive MessageKey where
  | id (id : Nat)
  | name (name : String)
deriving DecidableEq, Repr

def MessageKey.label : MessageKey → String
  | .id value => s!"id {value}"
  | .name value => s!"name {value}"

inductive Expectation where
  /-- A value of a field: a number, a text or an array. -/
  | field (type : FieldType) (length : Nat)
  | element (type : FieldType)
  | base64
  | object
deriving DecidableEq, Repr

def Expectation.label : Expectation → String
  | field type length => type.label length
  | element type => type.shortName
  | base64 => "base64 string"
  | object => "JSON object"

inductive DefinitionFault where
  | emptyMessageName (id : Nat)
  | idTooLarge (message : String) (id : Nat)
  | emptyFieldName (message : String) (index : Nat)
  | duplicateField (message field : String)
  | arrayTooLong (message field : String) (length : Nat)
  | payloadTooLong (message : String) (size : Nat)
  | duplicateId (dialect : String) (id : Nat)
  | duplicateName (dialect name : String)
  /-- A registry holds the id under another name. -/
  | idHeld (id : Nat) (holder name : String)
  /-- A registry holds the name under another id. -/
  | nameHeld (name : String) (holder id : Nat)
deriving DecidableEq, Repr

def DefinitionFault.message : DefinitionFault → String
  | emptyMessageName id => s!"message {id} has an empty name"
  | idTooLarge message id => s!"{message}: id {id} does not fit in 24 bits"
  | emptyFieldName message index => s!"{message}: field {index} has an empty name"
  | duplicateField message field => s!"{message}: duplicate field '{field}'"
  | arrayTooLong message field length => s!"{message}.{field}: array length {length} exceeds 255"
  | payloadTooLong message size => s!"{message}: payload of {size} bytes exceeds 255"
  | duplicateId dialect id => s!"{dialect}: duplicate message id {id}"
  | duplicateName dialect name => s!"{dialect}: duplicate message name {name}"
  | idHeld id holder name =>
    s!"message id {id} is already registered as {holder}, cannot register {name}"
  | nameHeld name holder id =>
    s!"message name {name} is already registered with id {holder}, cannot register id {id}"

inductive Error where
  /-- A first-generation payload has another length than the base fields. -/
  | sizeMismatch (message : String) (expected got : Nat)
  | unknownMessage (key : MessageKey)
  /-- A definition spells a type that is none. -/
  | unknownType (message field spelling : String)
  /-- A definition stores an enumeration in a type that cannot hold one. -/
  | unsupportedEnum (message field : String) (type : FieldType)
  | typeMismatch (field : String) (expected : Expectation)
  | unknownField (message field : String)
  | invalidDefinition (fault : DefinitionFault)
  | nonFiniteFloat (field : String)
  | malformedJson
  /-- A codec has left the payload, whose size its layout fixes. -/
  | overrun (message : String)
deriving DecidableEq, Repr

namespace Error

def message : Error → String
  | sizeMismatch message expected got =>
    s!"{message}: payload is {got} bytes, expected exactly {expected}"
  | unknownMessage key => s!"unknown message ({key.label})"
  | unknownType message field spelling =>
    s!"{message}.{field}: unsupported field type '{spelling}'"
  | unsupportedEnum message field type =>
    s!"{message}.{field}: unsupported field type 'enum backed by {type.wireName}'"
  | typeMismatch field expected => s!"field '{field}': type mismatch, expected {expected.label}"
  | unknownField message field => s!"{message}: unknown field '{field}'"
  | invalidDefinition fault => s!"invalid message definition: {fault.message}"
  | nonFiniteFloat field => s!"field '{field}': non-finite float cannot be represented in JSON"
  | malformedJson => "JSON error"
  | overrun message => s!"{message}: a field lies outside the payload"

end Error

end MavPayload
