import MavPayload.Json.Printer
import MavPayload.Layout
import MavPayload.Value

/-!
The JSON Schema of a message's documents: a closed object with one property for each
field. The bounds of an integer are those of its type.
-/

namespace MavPayload

namespace NumericType

theorem least_inRange (type : NumericType) : Json.InRange type.least := by
  cases type <;> decide

theorem greatest_inRange (type : NumericType) : Json.InRange type.greatest := by
  cases type <;> decide

end NumericType

namespace Schema

def draft : String := "http://json-schema.org/draft-07/schema#"

def numberEntries (type : NumericType) : List (String × Json) :=
  if type.isFloat then [("type",.string "number")]
  else
    [("type",.string "integer"),
     ("minimum",.number (.integer type.least type.least_inRange)),
     ("maximum",.number (.integer type.greatest type.greatest_inRange))]

def fieldEntries (field : FieldSpec) : List (String × Json) :=
  match field.type with
  | .char => [("type",.string "string")]
  | .numeric type =>
    if field.isArray then
      if type = .uint8 then
        [("type",.string "string"),("contentEncoding",.string "base64")]
      else [("type",.string "array"),("items",Json.ofEntries (numberEntries type))]
    else numberEntries type

end Schema

def Layout.schema (layout : Layout) (scope topic : String) : Json :=
  let base := s!"{scope}/{topic}"
  let property (field : Field) : String × Json :=
    let title := ("title",Json.string s!"{base}/{field.name}")
    (field.name,Json.ofEntries (title :: Schema.fieldEntries field.toFieldSpec))
  Json.ofEntries [
    ("$schema",.string Schema.draft),
    ("$id",.string base),
    ("title",.string base),
    ("type",.string "object"),
    ("properties",Json.ofEntries (layout.fields.map property)),
    ("additionalProperties",.bool false)]

end MavPayload
