import MavPayload.Json.Printer
import MavPayload.Message
import MavPayload.Text.Base64

/-!
Messages as JSON objects, one entry for each set field. A number is a JSON number, a text
a string, an array of `uint8` a string in base64 and any other array an array. Reading is
strict, and it changes all the fields it names or none.
-/

namespace MavPayload

namespace NumericType

theorem toInt_inRange (type : NumericType) (bits : BitVec type.width) :
    Json.InRange (type.toInt bits) := by
  have low := bits.isLt
  have least := BitVec.le_toInt bits
  have most := BitVec.toInt_lt (x := bits)
  constructor <;> cases type <;> simp [toInt,isSigned,width,size] at * <;> omega

/-- A pattern as a JSON number, none for floats that are not finite. A single is written
as the double of the same value. -/
def toNumber? (type : NumericType) (bits : BitVec type.width) : Option Json.Number :=
  match type,bits with
  | .double,bits => Json.Number.ofDouble? bits
  | .float,bits => Json.Number.ofDouble? (Binary.widen bits)
  | type,bits => some (.integer (type.toInt bits) (type.toInt_inRange bits))

/-- The pattern of a JSON number. An integer type takes only integers, and only those that
it holds; a single takes every number that it can round without overflow. -/
def ofNumber? (type : NumericType) (number : Json.Number) : Option (BitVec type.width) :=
  match type with
  | .double => some number.toDouble
  | .float =>
    let bits := Binary.narrow number.toDouble
    if Binary.Format.single.isFinite bits.toNat then some bits else none
  | type =>
    match number with
    | .integer value _ => type.ofInt? value
    | .float _ _ => none

end NumericType

namespace Value

mutual

def toJson (field : String) : Value → Except Error Json
  | bool value => .ok (.bool value)
  | number type bits =>
    match type.toNumber? bits with
    | some value => .ok (.number value)
    | none => .error (.nonFiniteFloat field)
  | text value => .ok (.string value)
  | array items => (allToJson field items).map .array

def allToJson (field : String) : List Value → Except Error (List Json)
  | [] => .ok []
  | item :: rest => do
    let value ← item.toJson field
    return value :: (← allToJson field rest)

end

end Value

namespace FieldSpec

def isByteArray (field : FieldSpec) : Bool :=
  field.isArray && field.type == .numeric .uint8

def toJson (field : FieldSpec) (value : Value) : Except Error Json :=
  match if field.isByteArray then value.asBytes? else none with
  | some bytes => .ok (.string (String.ofList (Text.Base64.encode bytes)))
  | none => value.toJson field.name

def elementOfJson (field : FieldSpec) (json : Json) : Except Error Value :=
  match field.type,json with
  | .numeric type,.number number =>
    match type.ofNumber? number with
    | some bits => .ok (.number type bits)
    | none => .error (.typeMismatch field.name (.element field.type))
  | _,_ => .error (.typeMismatch field.name (.element field.type))

/-- The value of a field. An array of octets is also read from an array of numbers. -/
def ofJson (field : FieldSpec) (json : Json) : Except Error Value :=
  if field.isText then
    match json with
    | .string text => .ok (.text text)
    | _ => .error (.typeMismatch field.name (.field field.type field.length))
  else if field.isArray then
    match json with
    | .array items => (items.mapM field.elementOfJson).map .array
    | .string text =>
      if field.isByteArray then
        match Text.Base64.decode? text.toList with
        | some bytes => .ok (Value.ofBytes bytes)
        | none => .error (.typeMismatch field.name .base64)
      else .error (.typeMismatch field.name (.field field.type field.length))
    | _ => .error (.typeMismatch field.name (.field field.type field.length))
  else field.elementOfJson json

end FieldSpec

namespace Message

def toJson (message : Message) : Except Error Json := do
  let entries ← message.entries.mapM fun (field,value) => do
    return (field.name,← field.toJson value)
  return Json.ofEntries entries

/-- Stands for the document where an error names a field. -/
def rootName : String := "<root>"

def readEntries (message : Message) (entries : List (String × Json)) :
    Except Error (Bindings Value) :=
  entries.mapM fun (name,json) => do
    let field ← message.fieldOf name
    return (field.name,← field.ofJson json)

/-- Sets every field that an object names. Keys are judged in sorted order, and nothing is
set unless all of them pass. -/
def assign (message : Message) (json : Json) : Except Error Message :=
  match json with
  | .object entries => do
    let read ← message.readEntries (Json.sortedEntries entries)
    let values := read.foldl (fun values (name,value) => values.insert name value) message.values
    return { message with values }
  | _ => .error (.typeMismatch rootName .object)

def unmarshal (message : Message) (text : String) : Except Error Message :=
  match Json.ofText? text with
  | some json => message.assign json
  | none => .error .malformedJson

def marshal (message : Message) : Except Error String := do
  return (← message.toJson).compact

def marshalPretty (message : Message) : Except Error String := do
  return (← message.toJson).pretty

end Message

end MavPayload
