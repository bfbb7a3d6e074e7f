import MavPayload.Proofs.Layout.Schema
import MavPayload.Proofs.Message.Json
import MavPayload.Proofs.Message.Reachable

/-! Documents by the schema and documents by the reader. Both ask the same of the JSON of
a field up to what a schema cannot say: that a text is base64, that a number is written as
an integer, and that a single can hold it. -/
namespace MavPayload

namespace NumericType

variable {type : NumericType} {number : Json.Number}

theorem ofNumber?_integer (integral : type.isFloat = false) (value : Int)
    (inRange : Json.InRange value) :
    type.ofNumber? (.integer value inRange) = type.ofInt? value := by
  cases type with
  | double => cases integral
  | float => cases integral
  | _ => rfl

theorem ofNumber?_float (integral : type.isFloat = false) (bits : BitVec 64)
    (finite : Binary.isFinite bits = true) : type.ofNumber? (.float bits finite) = none := by
  cases type with
  | double => cases integral
  | float => cases integral
  | _ => rfl

theorem covers_of_ofNumber? {bits : BitVec type.width}
    (read : type.ofNumber? number = some bits) : type.Covers number := by
  intro integral
  cases number with
  | integer value inRange =>
    rw [ofNumber?_integer integral,ofInt?] at read
    split at read
    · rename_i holds
      exact (covers_integer integral).mpr holds integral
    · cases read
  | float bits finite =>
    rw [ofNumber?_float integral] at read
    cases read

/-- What a schema does not say of a number: one of an integer type is written as an
integer, and one of a single rounds to a finite single. -/
structure WellSpelled (type : NumericType) (number : Json.Number) : Prop where
  integer : type.isFloat = false → ∃ value inRange, number = .integer value inRange
  single : type = .float →
    Binary.Format.single.isFinite (Binary.narrow number.toDouble).toNat = true

theorem ofNumber?_of_covers (covers : type.Covers number) (spelled : type.WellSpelled number) :
    ∃ bits, type.ofNumber? number = some bits := by
  cases integral : type.isFloat with
  | false =>
    obtain ⟨value,inRange,rfl⟩ := spelled.integer integral
    rw [ofNumber?_integer integral,ofInt?,if_pos ((covers_integer integral).mp covers)]
    exact ⟨_,rfl⟩
  | true =>
    cases type with
    | double => exact ⟨_,rfl⟩
    | float => exact ⟨_,if_pos (spelled.single rfl)⟩
    | _ => cases integral

theorem covers_of_toNumber? {bits : BitVec type.width}
    (written : type.toNumber? bits = some number) : type.Covers number := by
  intro integral
  have same : number = .integer (type.toInt bits) (type.toInt_inRange bits) := by
    cases type with
    | double => cases integral
    | float => cases integral
    | _ => exact (Option.some.inj written).symm
  have read : type.ofNumber? number = some bits := by
    rw [same,ofNumber?_integer integral,ofInt?_toInt]
  exact covers_of_ofNumber? read integral

end NumericType

namespace FieldSpec

variable {field : FieldSpec} {type : NumericType} {json : Json} {value : Value}

/-- What a schema does not say of the JSON of a field: octets are in the one form that
base64 has for them, and numbers are spelled as the type asks. -/
structure WellSpelled (field : FieldSpec) (json : Json) : Prop where
  octets : field.isByteArray = true → ∀ text, json = .string text →
    ∃ bytes, text.toList = Text.Base64.encode bytes
  numbers : ∀ type, field.type = .numeric type →
    ∀ number ∈ json.numbers, type.WellSpelled number

theorem admits_of_elementOfJson (numeric : field.type = .numeric type)
    (read : field.elementOfJson json = .ok value) : type.Admits json := by
  obtain ⟨number,_,rfl,taken,_⟩ := (elementOfJson_ok_iff numeric).mp read
  exact ⟨number,rfl,NumericType.covers_of_ofNumber? taken⟩

/-- An array of octets is also read from an array of numbers, which its schema refuses. -/
theorem admits_of_ofJson (read : field.ofJson json = .ok value)
    (text : field.isByteArray = true → ∀ items, json ≠ .array items) : field.Admits json := by
  cases field.form with
  | text kind =>
    obtain ⟨content,rfl,_⟩ := (ofJson_text kind).mp read
    exact (admits_text kind).mpr ⟨content,rfl⟩
  | single kind one =>
    rw [ofJson_single kind one] at read
    exact (admits_single kind one).mpr (admits_of_elementOfJson kind read)
  | octets kind array =>
    apply (admits_octets kind array).mpr
    rcases (ofJson_octets kind array).mp read with ⟨content,_,rfl,_⟩ | ⟨items,_,rfl,_⟩
    · exact ⟨content,rfl⟩
    · exact absurd rfl (text (isByteArray_iff.mpr ⟨kind,array⟩) items)
  | list kind other array =>
    obtain ⟨items,_,rfl,all,_⟩ := (ofJson_list kind other array).mp read
    refine (admits_list kind other array).mpr ⟨items,rfl,fun item member => ?_⟩
    obtain ⟨_,_,one⟩ := mem_mapM_ok all member
    exact admits_of_elementOfJson kind one

theorem elementOfJson_of_admits (numeric : field.type = .numeric type)
    (admits : type.Admits json) (spelled : ∀ number ∈ json.numbers, type.WellSpelled number) :
    ∃ value, field.elementOfJson json = .ok value := by
  obtain ⟨number,rfl,covers⟩ := admits
  have inside : number ∈ (Json.number number).numbers := List.mem_singleton_self _
  obtain ⟨bits,taken⟩ := NumericType.ofNumber?_of_covers covers (spelled number inside)
  exact ⟨_,(elementOfJson_ok_iff numeric).mpr ⟨number,bits,rfl,taken,rfl⟩⟩

theorem ofJson_of_admits (admits : field.Admits json) (spelled : field.WellSpelled json) :
    ∃ value, field.ofJson json = .ok value := by
  cases field.form with
  | text kind =>
    obtain ⟨content,rfl⟩ := (admits_text kind).mp admits
    exact ⟨_,(ofJson_text kind).mpr ⟨content,rfl,rfl⟩⟩
  | single kind one =>
    rw [ofJson_single kind one]
    exact elementOfJson_of_admits kind ((admits_single kind one).mp admits)
      (spelled.numbers _ kind)
  | octets kind array =>
    obtain ⟨content,rfl⟩ := (admits_octets kind array).mp admits
    obtain ⟨bytes,same⟩ := spelled.octets (isByteArray_iff.mpr ⟨kind,array⟩) content rfl
    have read : Text.Base64.decode? content.toList = some bytes := by
      rw [same,Text.Base64.decode?_encode]
    exact ⟨_,(ofJson_octets kind array).mpr (Or.inl ⟨content,bytes,rfl,read,rfl⟩)⟩
  | list kind other array =>
    obtain ⟨items,rfl,each⟩ := (admits_list kind other array).mp admits
    have all : ∀ item ∈ items, ∃ value, field.elementOfJson item = .ok value := by
      intro item member
      obtain ⟨number,rfl,covers⟩ := each item member
      apply elementOfJson_of_admits kind ⟨number,rfl,covers⟩
      intro single inside
      rw [List.mem_singleton.mp inside]
      exact spelled.numbers _ kind number (List.mem_filterMap.mpr ⟨_,member,rfl⟩)
    obtain ⟨values,read⟩ := mapM_ok_of_forall all
    exact ⟨_,(ofJson_list kind other array).mpr ⟨items,values,rfl,read,rfl⟩⟩

theorem admits_of_element (numeric : field.type = .numeric type)
    (element : value.isElementOf field.type = true)
    (written : value.toJson field.name = .ok json) : type.Admits json := by
  obtain ⟨bits,rfl⟩ := number_of_element numeric element
  rw [Value.toJson] at written
  split at written
  · rename_i number taken
    cases written
    exact ⟨number,rfl,NumericType.covers_of_toNumber? taken⟩
  · cases written

theorem admits_of_elements (numeric : field.type = .numeric type) {items : List Value}
    {jsons : List Json} (elements : ∀ item ∈ items, item.isElementOf field.type = true)
    (written : Value.allToJson field.name items = .ok jsons) :
    ∀ json ∈ jsons, type.Admits json := by
  induction items generalizing jsons with
  | nil =>
    rw [Value.allToJson] at written
    cases written
    simp
  | cons item rest ih =>
    rw [Value.allToJson,except_bind_ok_iff] at written
    obtain ⟨first,here,later⟩ := written
    obtain ⟨others,there,same⟩ := except_bind_ok_iff.mp later
    cases same
    rw [List.forall_mem_cons]
    exact ⟨admits_of_element numeric (elements item (by simp)) here,
      ih (fun other member => elements other (List.mem_cons_of_mem _ member)) there⟩

theorem admits_of_toJson (fits : value.matchesField field = true)
    (written : field.toJson value = .ok json) : field.Admits json := by
  cases field.form with
  | text kind =>
    obtain ⟨text,_,same⟩ := text_of_char kind fits
    cases written.symm.trans same
    exact (admits_text kind).mpr ⟨text,rfl⟩
  | single kind one =>
    rw [toJson_plain (by simp [isByteArray,one])] at written
    exact (admits_single kind one).mpr
      (admits_of_element kind (element_of_single one fits) written)
  | octets kind array =>
    obtain ⟨items,rfl,elements⟩ := elements_of_array array fits
    obtain ⟨text,same,_⟩ := ofJson_toJson_octets kind array elements
    cases written.symm.trans same
    exact (admits_octets kind array).mpr ⟨text,rfl⟩
  | list kind other array =>
    obtain ⟨items,rfl,elements⟩ := elements_of_array array fits
    rw [toJson_plain (by simp [isByteArray,kind,other]),Value.toJson] at written
    obtain ⟨jsons,all,rfl⟩ := except_map_ok_iff.mp written
    exact (admits_list kind other array).mpr ⟨jsons,rfl,admits_of_elements kind elements all⟩

end FieldSpec

/-- What a schema does not say of a document. -/
def Layout.WellSpelled (layout : Layout) (document : Json) : Prop :=
  ∀ field ∈ layout.fields, ∀ json, document.member? field.name = some json →
    field.WellSpelled json

namespace Message

variable {layout : Layout} {specs : List FieldSpec} {message : Message} {document : Json}

theorem assign_succeeds_iff :
    (∃ next, message.assign document = .ok next) ↔ ∃ entries, document = .object entries ∧
      ∀ key json, Json.lookup? key entries = some json →
        ∃ field, message.layout.field? key = some field ∧ ∃ value, field.ofJson json = .ok value := by
  constructor
  · rintro ⟨next,done⟩
    obtain ⟨entries,read,rfl,all,_⟩ := assign_ok_iff.mp done
    refine ⟨entries,rfl,fun key json held => ?_⟩
    obtain ⟨result,_,one⟩ := mem_mapM_ok all (Json.mem_sortedEntries.mpr held)
    obtain ⟨_,field,known,valid⟩ := readEntry_ok_iff.mp one
    exact ⟨field,known,_,valid⟩
  · rintro ⟨entries,rfl,each⟩
    have all : ∀ entry ∈ Json.sortedEntries entries, ∃ result,
        message.readEntry entry = .ok result := by
      rintro ⟨key,json⟩ member
      obtain ⟨field,known,value,valid⟩ := each key json (Json.mem_sortedEntries.mp member)
      exact ⟨(key,value),readEntry_ok_iff.mpr ⟨rfl,field,known,valid⟩⟩
    obtain ⟨read,done⟩ := mapM_ok_of_forall all
    exact ⟨_,assign_ok_iff.mpr ⟨entries,read,rfl,done,rfl⟩⟩

theorem toJson_admits (lays : layout.Lays specs) (reachable : Reachable layout message)
    (written : message.toJson = .ok document) :
    ∃ entries, document = .object entries ∧ ∀ key json, Json.lookup? key entries = some json →
      ∃ field, layout.field? key = some field ∧ field.Admits json := by
  obtain ⟨entries,all,rfl⟩ := toJson_ok_iff.mp written
  refine ⟨_,rfl,fun key json held => ?_⟩
  rw [Json.lookup?_sortedEntries,
    Json.lookup?_eq_get? (writeEntries_distinct lays reachable all)] at held
  obtain ⟨⟨field,value⟩,inside,one⟩ := mapM_ok_mem all (Bindings.get?_mem held)
  obtain ⟨named,shown⟩ := writeEntry_ok_iff.mp one
  obtain ⟨declared,set⟩ := (mem_entries reachable).mp inside
  exact ⟨field,lays.field?_eq_some_iff.mpr ⟨declared,named⟩,
    FieldSpec.admits_of_toJson (reachable.get?_matches lays declared set) shown⟩

/-- The schema of a layout and the reader of its messages describe the same documents. What
is read is valid, unless octets are given as an array; what is valid is read, if it is well
spelled. So every document that a message is written as is valid. -/
theorem schema_describes_assign {name : String} {id : Nat}
    (built : Layout.build name id specs = .ok layout) (scope topic : String) :
    (∀ (message : Message) (document : Json), message.layout = layout →
      (∀ field ∈ layout.fields, field.isByteArray = true → ∀ items,
        document.member? field.name ≠ some (.array items)) →
      (∃ next, message.assign document = .ok next) →
      (layout.schema scope topic).validates document = true) ∧
    (∀ (message : Message) (document : Json), message.layout = layout →
      layout.WellSpelled document → (layout.schema scope topic).validates document = true →
      ∃ next, message.assign document = .ok next) ∧
    ∀ message document, Reachable layout message → message.toJson = .ok document →
      (layout.schema scope topic).validates document = true := by
  obtain ⟨_,_,lays⟩ := Layout.build_ok_iff.mp built
  refine ⟨?_,?_,?_⟩
  · rintro message document rfl texts accepted
    obtain ⟨entries,rfl,each⟩ := assign_succeeds_iff.mp accepted
    refine (Layout.validates_schema lays scope topic _).mpr ⟨entries,rfl,fun key json held => ?_⟩
    obtain ⟨field,known,value,read⟩ := each key json held
    obtain ⟨declared,rfl⟩ := Layout.of_field? known
    refine ⟨field,known,FieldSpec.admits_of_ofJson read fun octets items same => ?_⟩
    exact texts field declared octets items (held.trans (congrArg some same))
  · rintro message document rfl spelled valid
    obtain ⟨entries,rfl,each⟩ := (Layout.validates_schema lays scope topic _).mp valid
    refine assign_succeeds_iff.mpr ⟨entries,rfl,fun key json held => ?_⟩
    obtain ⟨field,known,admits⟩ := each key json held
    obtain ⟨declared,rfl⟩ := Layout.of_field? known
    exact ⟨field,known,FieldSpec.ofJson_of_admits admits (spelled field declared json held)⟩
  · intro message document reachable written
    exact (Layout.validates_schema lays scope topic _).mpr (toJson_admits lays reachable written)

/-- A document with a key that comes twice and an integer for a single, and a message that
is written. -/
theorem schema_describes_assign_mixed :
    let specs : List FieldSpec := [⟨"label",.char,false,4,false⟩,
      ⟨"key",.numeric .uint8,false,2,false⟩,⟨"gain",.numeric .float,false,0,false⟩,
      ⟨"steps",.numeric .int16,false,2,true⟩]
    let layout : Layout := ⟨"MIXED",9,Layout.wireOrder (Layout.placed specs)⟩
    let document : Json := .object [("steps",.array [.number (.integer (-3) (by decide))]),
      ("key",.null),("gain",.number (.integer 1 (by decide))),("label",.string "a"),
      ("key",.string "AAE=")]
    let message : Message :=
      ⟨layout,[("key",.array [.number .uint8 0#8,.number .uint8 1#8]),
        ("steps",.array [.number .int16 7#16])]⟩
    Layout.build "MIXED" 9 specs = .ok layout ∧ Reachable layout message ∧
      layout.WellSpelled document ∧
      (∃ next, assign { layout } document = .ok next) ∧
      (layout.schema "mavlink" "mixed").validates document = true ∧
      ∃ shown, message.toJson = .ok shown ∧
        (layout.schema "mavlink" "mixed").validates shown = true := by
  intro specs layout document message
  have built : Layout.build "MIXED" 9 specs = .ok layout := rfl
  have keyed : set { layout } "key" (.array [.number .uint8 0#8,.number .uint8 1#8]) =
      .ok ⟨layout,[("key",.array [.number .uint8 0#8,.number .uint8 1#8])]⟩ := rfl
  have stepped : set ⟨layout,[("key",.array [.number .uint8 0#8,.number .uint8 1#8])]⟩ "steps"
      (.array [.number .int16 7#16]) = .ok message := rfl
  have reachable : Reachable layout message := .set (.set .new keyed) stepped
  have written : message.toJson = .ok (Json.ofEntries [("key",.string "AAE="),
    ("steps",.array [.number (.integer 7 (by decide))])]) := by rfl
  have valid : (layout.schema "mavlink" "mixed").validates document = true := by decide +kernel
  have rounded : Binary.Format.single.isFinite (Binary.narrow (Binary.ofInt 1)).toNat = true := by
    decide +kernel
  have same : "AAE=".toList = Text.Base64.encode [0,1] := by decide
  have fields : layout.fields = [⟨⟨"gain",.numeric .float,false,0,false⟩,2⟩,
      ⟨⟨"label",.char,false,4,false⟩,0⟩,⟨⟨"key",.numeric .uint8,false,2,false⟩,1⟩,
      ⟨⟨"steps",.numeric .int16,false,2,true⟩,3⟩] := rfl
  have spelled : layout.WellSpelled document := by
    intro field declared json held
    rw [fields] at declared
    simp only [List.mem_cons,List.not_mem_nil,or_false] at declared
    rcases declared with rfl | rfl | rfl | rfl
    · cases held
      refine ⟨nofun,?_⟩
      rintro _ ⟨⟩ number member
      cases List.mem_singleton.mp member
      exact ⟨nofun,fun _ => rounded⟩
    · cases held
      exact ⟨nofun,nofun⟩
    · cases held
      refine ⟨?_,?_⟩
      · rintro _ _ ⟨⟩
        exact ⟨[0,1],same⟩
      · rintro _ _ _ ⟨⟩
    · cases held
      refine ⟨nofun,?_⟩
      rintro _ ⟨⟩ number member
      cases List.mem_singleton.mp member
      exact ⟨fun _ => ⟨_,_,rfl⟩,nofun⟩
  obtain ⟨accepted,described,shown⟩ := schema_describes_assign built "mavlink" "mixed"
  have read := described { layout } document rfl spelled valid
  refine ⟨built,reachable,spelled,read,accepted { layout } document rfl ?_ read,_,written,
    shown message _ reachable written⟩
  intro field declared octets items held
  rw [fields] at declared
  simp only [List.mem_cons,List.not_mem_nil,or_false] at declared
  rcases declared with rfl | rfl | rfl | rfl
  · cases octets
  · cases octets
  · cases held
  · cases octets

-- The schema of an integer takes `1.0`, since it does not see how a number is written.
example :
    let layout : Layout := ⟨"ONE",1,[⟨⟨"mode",.numeric .uint8,false,0,false⟩,0⟩]⟩
    let valid (json : Json) := (layout.schema "mavlink" "one").validates (.object [("mode",json)])
    valid (.number (.float 0x3FF0000000000000 (by decide))) = true ∧
      valid (.number (.integer 256 (by decide))) = false ∧ valid (.string "armed") = false := by
  decide +kernel

end Message

end MavPayload
