import MavPayload.Layout.Schema
import MavPayload.Proofs.Json.Validation
import MavPayload.Proofs.Layout.Build

/-! What the schema of a layout asks of a document: an object, no key that is not the name
of a field, and for each field the form in which it is written. -/
namespace MavPayload

namespace NumericType

variable {type : NumericType}

/-- Whether a number is one of the type's by its value. Any number is one of a float's. -/
def Covers (type : NumericType) (number : Json.Number) : Prop :=
  type.isFloat = false → number.value.isInt = true ∧
    (type.least : Rat) ≤ number.value ∧ number.value ≤ (type.greatest : Rat)

theorem covers_integer {value : Int} {inRange : Json.InRange value}
    (integral : type.isFloat = false) :
    type.Covers (.integer value inRange) ↔ type.holds value = true := by
  have whole : ((value : Int) : Rat).isInt = true := rfl
  simp only [Covers,integral,Json.Number.value_integer,whole,Rat.intCast_le_intCast,holds,
    Bool.and_eq_true,decide_eq_true_eq,true_and,forall_const]

/-- Whether JSON is a number that the type covers. -/
def Admits (type : NumericType) (json : Json) : Prop :=
  ∃ number, json = .number number ∧ type.Covers number

theorem validates_numberEntries (type : NumericType) (json : Json) :
    (Json.ofEntries (Schema.numberEntries type)).validates json = true ↔ type.Admits json := by
  unfold Schema.numberEntries Admits Covers
  cases integral : type.isFloat with
  | true =>
    rw [if_pos rfl,Json.validates_number rfl rfl rfl]
    simp
  | false =>
    rw [if_neg (by decide),Json.validates_integer rfl rfl rfl]
    simp only [Json.Number.value_integer,forall_const]

end NumericType

namespace FieldSpec

/-- Whether JSON has the form in which a field is written, with numbers that its type covers. -/
def Admits (field : FieldSpec) (json : Json) : Prop :=
  match field.type with
  | .char => ∃ text, json = .string text
  | .numeric type =>
    if field.isArray then
      if type = .uint8 then ∃ text, json = .string text
      else ∃ items, json = .array items ∧ ∀ item ∈ items, type.Admits item
    else type.Admits json

section

variable {field : FieldSpec} {type : NumericType} {json : Json}

theorem admits_text (kind : field.type = .char) :
    field.Admits json ↔ ∃ text, json = .string text := by
  rw [Admits,kind]

theorem admits_single (kind : field.type = .numeric type) (one : field.isArray = false) :
    field.Admits json ↔ type.Admits json := by
  simp only [Admits,kind,one,Bool.false_eq_true,if_false]

theorem admits_octets (kind : field.type = .numeric .uint8) (array : field.isArray = true) :
    field.Admits json ↔ ∃ text, json = .string text := by
  simp only [Admits,kind,array,if_true]

theorem admits_list (kind : field.type = .numeric type) (other : type ≠ .uint8)
    (array : field.isArray = true) : field.Admits json ↔
      ∃ items, json = .array items ∧ ∀ item ∈ items, type.Admits item := by
  simp only [Admits,kind,array,if_true,if_neg other]

end

theorem validates_fieldEntries (field : FieldSpec) (json : Json) :
    (Json.ofEntries (Schema.fieldEntries field)).validates json = true ↔ field.Admits json := by
  unfold Schema.fieldEntries Admits
  cases field.type with
  | char => exact Json.validates_string rfl
  | numeric type =>
    dsimp only
    split
    · split
      · exact Json.validates_string rfl
      · rw [Json.validates_items rfl rfl]
        simp only [NumericType.validates_numberEntries]
    · exact NumericType.validates_numberEntries type json

end FieldSpec

namespace Layout

variable {layout : Layout} {specs : List FieldSpec}

/-- Titles are annotations, so it does not matter what they are. -/
theorem schema_properties (layout : Layout) (scope topic : String) :
    ∃ title : Field → Json, (layout.schema scope topic).member? "properties" =
      some (Json.ofEntries (layout.fields.map fun field =>
        (field.name,Json.ofEntries (("title",title field) ::
          Schema.fieldEntries field.toFieldSpec)))) :=
  ⟨_,Json.member?_ofEntries _ _⟩

theorem schema_additional (layout : Layout) (scope topic : String) :
    (layout.schema scope topic).member? "additionalProperties" = some (.bool false) :=
  Json.member?_ofEntries _ _

theorem validates_memberSchema (lays : layout.Lays specs) (scope topic key : String)
    (json : Json) : ((layout.schema scope topic).memberSchema key).validates json = true ↔
      ∃ field, layout.field? key = some field ∧ field.Admits json := by
  obtain ⟨title,properties⟩ := layout.schema_properties scope topic
  have distinct : Bindings.Distinct (layout.fields.map fun field =>
      (field.name,Json.ofEntries (("title",title field) ::
        Schema.fieldEntries field.toFieldSpec))) := by
    rw [Bindings.Distinct,List.map_map]
    exact lays.names_distinct
  rw [Json.memberSchema,properties,Option.bind_some,Json.member?_ofEntries,
    Json.lookup?_eq_get? distinct,schema_additional,Option.getD_some]
  cases found : layout.field? key with
  | none =>
    have absent : key ∉ layout.fields.map fun field => field.name := by
      intro present
      obtain ⟨field,declared,named⟩ := List.mem_map.mp present
      rw [lays.field?_eq_some_iff.mpr ⟨declared,named⟩] at found
      cases found
    rw [Bindings.get?_eq_none (by rwa [List.map_map]),Option.getD_none,Json.validates_never]
    simp
  | some field =>
    obtain ⟨declared,rfl⟩ := of_field? found
    rw [Bindings.get?_map lays.names_distinct _ declared,Option.getD_some,
      Json.validates_note (by decide),FieldSpec.validates_fieldEntries]
    simp

theorem validates_schema (lays : layout.Lays specs) (scope topic : String) (json : Json) :
    (layout.schema scope topic).validates json = true ↔ ∃ entries, json = .object entries ∧
      ∀ key part, Json.lookup? key entries = some part →
        ∃ field, layout.field? key = some field ∧ field.Admits part := by
  rw [schema,Json.validates_members rfl]
  exact exists_congr fun _ => and_congr_right fun _ => forall_congr' fun _ => forall_congr' fun _ =>
    imp_congr_right fun _ => validates_memberSchema lays scope topic _ _

end Layout

end MavPayload
