import MavPayload.Json.Document
import MavPayload.Json.Number
import MavPayload.SortedMap

/-!
JSON values, and the reading of a text as one. Of a text that is grammatical, those are
refused that nest too deeply, have a number beyond the doubles, or a string with half of a
surrogate pair.
-/

namespace MavPayload

inductive Json where
  | null
  | bool (value : Bool)
  | number (value : Json.Number)
  | string (text : String)
  | array (items : List Json)
  | object (entries : List (String × Json))

namespace Json

def maxDepth : Nat := 127

mutual

/-- The value of a document in which at most `depth` containers are open at once. -/
def Document.value? (depth : Nat) : Document → Option Json
  | .null => some .null
  | .bool value => some (.bool value)
  | .number literal => (Number.ofLiteral? literal).map .number
  | .string text => text.map .string
  | .array items =>
    match depth with
    | 0 => none
    | depth + 1 => (values? depth items).map .array
  | .object entries =>
    match depth with
    | 0 => none
    | depth + 1 => (entries? depth entries).map .object

def values? (depth : Nat) : List Document → Option (List Json)
  | [] => some []
  | item :: rest => do
    let value ← item.value? depth
    return value :: (← values? depth rest)

def entries? (depth : Nat) : List (Option String × Document) → Option (List (String × Json))
  | [] => some []
  | (key,item) :: rest => do
    let key ← key
    let value ← item.value? depth
    return (key,value) :: (← entries? depth rest)

end

def ofText? (text : String) : Option Json := do
  (← Document.ofChars? text.toList).value? maxDepth

/-- Entries sorted by key, the last one of each key. Keys compare by their characters,
which is the order of their octets too. -/
def sortedEntries (entries : List (String × Json)) : List (String × Json) :=
  entries.foldl (fun sorted (key,value) => SortedMap.insert sorted key value) []

def ofEntries (entries : List (String × Json)) : Json :=
  .object (sortedEntries entries)

end Json

end MavPayload
