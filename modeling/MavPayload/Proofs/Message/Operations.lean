import MavPayload.Message.Json
import MavPayload.Proofs.Bindings
import MavPayload.Proofs.Layout.Build
import MavPayload.Proofs.Sequence

/-! What the operations on messages do when they succeed, stated once for each of them. -/
namespace MavPayload

namespace FieldSpec

/-- The four forms that fields have in JSON. -/
inductive Form (field : FieldSpec) : Prop
  | text : field.type = .char → Form field
  | single {type : NumericType} :
    field.type = .numeric type → field.isArray = false → Form field
  | octets : field.type = .numeric .uint8 → field.isArray = true → Form field
  | list {type : NumericType} :
    field.type = .numeric type → type ≠ .uint8 → field.isArray = true → Form field

theorem form (field : FieldSpec) : field.Form := by
  cases kind : field.type with
  | char => exact .text kind
  | numeric type =>
    cases array : field.isArray with
    | false => exact .single kind array
    | true =>
      by_cases octet : type = .uint8
      · subst octet
        exact .octets kind array
      · exact .list kind octet array

section

variable {field : FieldSpec} {type : NumericType} {json : Json} {value : Value}

theorem elementOfJson_ok_iff (numeric : field.type = .numeric type) :
    field.elementOfJson json = .ok value ↔ ∃ number bits, json = .number number ∧
      type.ofNumber? number = some bits ∧ Value.number type bits = value := by
  cases json with
  | number quantity =>
    simp only [elementOfJson,numeric]
    cases taken : type.ofNumber? quantity <;> simp [taken]
  | _ => simp [elementOfJson,numeric]

theorem isText_numeric (kind : field.type = .numeric type) : field.isText = false := by
  simp [isText,kind]

theorem isByteArray_iff : field.isByteArray = true ↔
    field.type = .numeric .uint8 ∧ field.isArray = true := by
  simp [isByteArray,and_comm]

theorem ofJson_text (kind : field.type = .char) :
    field.ofJson json = .ok value ↔ ∃ text, json = .string text ∧ Value.text text = value := by
  have buffer : field.isText = true := by simp [isText,kind]
  cases json <;> simp [ofJson,buffer]

theorem ofJson_single (kind : field.type = .numeric type) (one : field.isArray = false) :
    field.ofJson json = field.elementOfJson json := by
  simp only [ofJson,isText_numeric kind,one,Bool.false_eq_true,if_false]

theorem ofJson_octets (kind : field.type = .numeric .uint8) (array : field.isArray = true) :
    field.ofJson json = .ok value ↔
      (∃ text bytes, json = .string text ∧ Text.Base64.decode? text.toList = some bytes ∧
        Value.ofBytes bytes = value) ∨
      ∃ items values, json = .array items ∧ items.mapM field.elementOfJson = .ok values ∧
        Value.array values = value := by
  have octets : field.isByteArray = true := isByteArray_iff.mpr ⟨kind,array⟩
  simp only [ofJson,isText_numeric kind,array,octets,Bool.false_eq_true,if_false,if_true]
  cases json with
  | string text => cases read : Text.Base64.decode? text.toList <;> simp [read]
  | array items => simp [except_map_ok_iff]
  | _ => simp

theorem ofJson_list (kind : field.type = .numeric type) (other : type ≠ .uint8)
    (array : field.isArray = true) :
    field.ofJson json = .ok value ↔ ∃ items values, json = .array items ∧
      items.mapM field.elementOfJson = .ok values ∧ Value.array values = value := by
  have plain : field.isByteArray = false := by simp [isByteArray,kind,other]
  simp only [ofJson,isText_numeric kind,array,plain,Bool.false_eq_true,if_false,if_true]
  cases json with
  | array items => simp [except_map_ok_iff]
  | _ => simp

end

end FieldSpec

namespace Message

variable {message next : Message} {name : String} {json : Json}

theorem fieldOf_ok_iff {field : Field} :
    message.fieldOf name = .ok field ↔ message.layout.field? name = some field := by
  unfold fieldOf
  cases message.layout.field? name <;> simp

theorem set_ok_iff {value : Value} :
    message.set name value = .ok next ↔
      (∃ field, message.layout.field? name = some field ∧
        value.matchesField field.toFieldSpec = true) ∧
      { message with values := message.values.insert name value } = next := by
  rw [set,except_bind_ok_iff]
  constructor
  · rintro ⟨field,found,done⟩
    have known := fieldOf_ok_iff.mp found
    split at done
    · rename_i fits
      cases done
      exact ⟨⟨field,known,fits⟩,by rw [(Layout.of_field? known).2]⟩
    · cases done
  · rintro ⟨⟨field,known,fits⟩,rfl⟩
    refine ⟨field,fieldOf_ok_iff.mpr known,?_⟩
    rw [if_pos fits,(Layout.of_field? known).2]
    rfl

def writeEntry (entry : Field × Value) : Except Error (String × Json) := do
  return (entry.1.name,← entry.1.toJson entry.2)

theorem writeEntry_ok_iff {field : Field} {value : Value} {entry : String × Json} :
    writeEntry (field,value) = .ok entry ↔
      field.name = entry.1 ∧ field.toJson value = .ok entry.2 := by
  obtain ⟨name,json⟩ := entry
  rw [writeEntry,except_bind_ok_iff]
  constructor
  · rintro ⟨_,written,same⟩
    cases same
    exact ⟨rfl,written⟩
  · rintro ⟨rfl,written⟩
    exact ⟨json,written,rfl⟩

theorem toJson_ok_iff :
    message.toJson = .ok json ↔
      ∃ entries, message.entries.mapM writeEntry = .ok entries ∧ Json.ofEntries entries = json := by
  rw [toJson,except_bind_ok_iff]
  refine exists_congr fun _ => and_congr_right fun _ => ?_
  simp [pure,Except.pure]

theorem writeEntries_keys {entries : List (String × Json)}
    (written : message.entries.mapM writeEntry = .ok entries) :
    entries.map Prod.fst = message.entries.map fun entry => entry.1.name :=
  mapM_ok_map written fun _ _ done => (writeEntry_ok_iff.mp done).1.symm

def readEntry (message : Message) (entry : String × Json) : Except Error (String × Value) := do
  let field ← message.fieldOf entry.1
  return (field.name,← field.ofJson entry.2)

theorem readEntry_ok_iff {read : String × Value} :
    message.readEntry (name,json) = .ok read ↔ read.1 = name ∧
      ∃ field, message.layout.field? name = some field ∧ field.ofJson json = .ok read.2 := by
  obtain ⟨key,value⟩ := read
  rw [readEntry,except_bind_ok_iff]
  constructor
  · rintro ⟨field,found,read⟩
    obtain ⟨_,valid,same⟩ := except_bind_ok_iff.mp read
    cases same
    have known := fieldOf_ok_iff.mp found
    exact ⟨(Layout.of_field? known).2,field,known,valid⟩
  · rintro ⟨rfl,field,known,valid⟩
    refine ⟨field,fieldOf_ok_iff.mpr known,except_bind_ok_iff.mpr ⟨value,valid,?_⟩⟩
    rw [(Layout.of_field? known).2]
    rfl

theorem assign_object (message : Message) (entries : List (String × Json)) :
    message.assign (.object entries) = ((Json.sortedEntries entries).mapM message.readEntry).map
      fun read => { message with values := message.values.insertAll read } := by
  change (List.mapM message.readEntry _ >>= _) = _
  cases (Json.sortedEntries entries).mapM message.readEntry <;> rfl

theorem assign_ok_iff :
    message.assign json = .ok next ↔ ∃ entries read, json = .object entries ∧
      (Json.sortedEntries entries).mapM message.readEntry = .ok read ∧
      { message with values := message.values.insertAll read } = next := by
  constructor
  · intro done
    cases json with
    | object entries =>
      rw [assign_object,except_map_ok_iff] at done
      obtain ⟨read,all,same⟩ := done
      exact ⟨entries,read,rfl,all,same⟩
    | _ => cases done
  · rintro ⟨entries,read,rfl,all,same⟩
    rw [assign_object,except_map_ok_iff]
    exact ⟨read,all,same⟩

theorem unmarshal_ok_iff {text : String} : message.unmarshal text = .ok next ↔
    ∃ json, Json.ofText? text = some json ∧ message.assign json = .ok next := by
  unfold unmarshal
  cases Json.ofText? text <;> simp

end Message

end MavPayload
