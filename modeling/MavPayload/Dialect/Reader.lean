import MavPayload.Dialect
import MavPayload.Dialect.TypeSpec
import MavPayload.Json.Document

/-!
Dialects as JSON text. A file, a message and a field are records, and a record is written
as an object or as an array of its values in order. Only a file may have entries besides
those that it is known by, and what they hold does not matter.
-/

namespace MavPayload

namespace Json.Document

/-- The values that an object gives for some keys. A key given twice, and, unless `isOpen`,
one that is not among them, are refused. -/
def fromEntries? (keys : List String) (isOpen : Bool) :
    List (Option String × Document) → Option (Bindings Document)
  | [] => some []
  | (name,value) :: rest => do
    let name ← name
    let others ← fromEntries? keys isOpen rest
    if name ∈ keys then
      if (others.get? name).isSome then none else return (name,value) :: others
    else if isOpen then return others
    else none

def record? (keys : List String) (isOpen : Bool) : Document → Option (Bindings Document)
  | .object entries => fromEntries? keys isOpen entries
  | .array items => if items.length ≤ keys.length then some (keys.zip items) else none
  | _ => none

def text? : Document → Option String
  | .string text => text
  | _ => none

def bool? : Document → Option Bool
  | .bool value => some value
  | _ => none

def list? : Document → Option (List Document)
  | .array items => some items
  | _ => none

def word? : Document → Option Nat
  | .number literal =>
    if literal.isNegative then none else literal.natural?.filter (· < Nat.pow 2 32)
  | _ => none

def nullableText? : Document → Option (Option String)
  | .null => some none
  | document => document.text?.map some

end Json.Document

open Json (Document)

structure FieldEntry where
  name : String
  type : String
  enumName : Option String
  isExtension : Bool
deriving DecidableEq, Repr

structure MessageEntry where
  id : Nat
  name : String
  fields : List FieldEntry
deriving DecidableEq, Repr

structure DialectFile where
  name : String
  version : Nat
  messages : List MessageEntry
deriving DecidableEq, Repr

namespace FieldEntry

def ofDocument? (document : Document) : Option FieldEntry := do
  let values ← document.record? ["name","type","enum","extension"] false
  return {
    name := ← (← values.get? "name").text?
    type := ← (← values.get? "type").text?
    enumName := ← ((values.get? "enum").getD .null).nullableText?
    isExtension := ← ((values.get? "extension").getD (.bool false)).bool? }

def spec (entry : FieldEntry) (message : String) : Except Error FieldSpec :=
  match TypeSpec.parse? entry.type with
  | some (type,length) => .ok {
      name := entry.name, type, length
      isEnum := entry.enumName.isSome
      isExtension := entry.isExtension }
  | none => .error (.unknownType message entry.name entry.type)

end FieldEntry

namespace MessageEntry

def ofDocument? (document : Document) : Option MessageEntry := do
  let values ← document.record? ["id","name","fields"] false
  return {
    id := ← (← values.get? "id").word?
    name := ← (← values.get? "name").text?
    fields := ← (← (← values.get? "fields").list?).mapM FieldEntry.ofDocument? }

def definition (entry : MessageEntry) : Except Error MessageDefinition := do
  return {
    id := entry.id
    name := entry.name
    fields := ← entry.fields.mapM (·.spec entry.name) }

end MessageEntry

namespace DialectFile

def ofDocument? (document : Document) : Option DialectFile := do
  let values ← document.record? ["name","version","messages"] true
  let version ← match values.get? "version" with
    | some version => version.word?
    | none => some 0
  return {
    name := ← (← values.get? "name").text?
    version
    messages := ← (← (← values.get? "messages").list?).mapM MessageEntry.ofDocument? }

/-- The dialect of a file. The spellings of all types are judged before any layout. -/
def dialect (file : DialectFile) : Except Error Dialect := do
  Dialect.ofDefinitions file.name file.version (← file.messages.mapM MessageEntry.definition)

end DialectFile

def Dialect.ofText (text : String) : Except Error Dialect :=
  match (Document.ofChars? text.toList).bind DialectFile.ofDocument? with
  | some file => file.dialect
  | none => .error .malformedJson

end MavPayload
