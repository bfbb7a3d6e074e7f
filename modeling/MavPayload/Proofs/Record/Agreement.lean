import MavPayload.CommonDialect
import MavPayload.Proofs.Message.Reachable
import MavPayload.Proofs.Record.Wire

/-! Records and messages over one layout. Two peers, of which one knows the type of a
message in advance and the other only its layout, write the same octets and read the same
values. -/
namespace MavPayload

theorem MemberType.toValue_matches {type : MemberType} {field : FieldSpec}
    (room : type.TakesRoom) (declares : type.Declares field) (value : type.Carrier) :
    (type.toValue value).matchesField field = true := by
  obtain ⟨element,length⟩ := declares
  cases type with
  | number own =>
    have single : field.isArray = false := by simp [FieldSpec.isArray,length,MemberType.length]
    simp [Value.matchesField,single,toValue,Value.isElementOf,element,elementType]
  | enumeration names =>
    have single : field.isArray = false := by simp [FieldSpec.isArray,length,MemberType.length]
    simp [Value.matchesField,single,toValue,Value.isElementOf,element,elementType]
  | text size =>
    have single : field.isArray = false := by
      simp [FieldSpec.isArray,FieldSpec.isText,element,elementType]
    simp [Value.matchesField,single,toValue,Value.isElementOf,element,elementType]
  | numbers own count =>
    have array : field.isArray = true :=
      FieldSpec.isArray_iff.mpr ⟨by rw [length]; exact room,by simp [element,elementType]⟩
    simp [Value.matchesField,array,toValue,Value.isElementOf,element,elementType]

namespace Record

variable {type : RecordType} {layout : Layout}

/-- Whether a message holds the value of every member of a record. -/
def HeldBy (record : Record type) (message : Message) : Prop :=
  ∀ index : Fin type.members.length, message.get? (type.members.get index).name =
    some ((type.members.get index).type.toValue (record index))

/-- The message with the value of every member. -/
def toMessage (layout : Layout) (record : Record type) : Message where
  layout
  values := Bindings.insertAll [] (record.toList.map fun part => (part.1.name,part.2))

theorem toList_names (record : Record type) :
    (record.toList.map fun part => (part.1.name,part.2)).map Prod.fst =
      type.specs.map fun spec => spec.name := by
  apply List.ext_getElem
  · simp [toList,RecordType.specs]
  · intro place left right
    simp [toList,RecordType.specs,Member.spec]

theorem toMessage_heldBy (lays : layout.Lays type.specs) (record : Record type) :
    record.HeldBy (record.toMessage layout) := by
  intro index
  have distinct : Bindings.Distinct (record.toList.map fun part => (part.1.name,part.2)) := by
    rw [Bindings.Distinct,toList_names]
    exact lays.acceptable.distinct
  rw [toMessage,Message.get?,Bindings.get?_insertAll distinct,Bindings.get?_nil,Option.or_none]
  apply Bindings.get?_of_mem distinct
  exact List.mem_map.mpr ⟨_,List.mem_ofFn.mpr ⟨index,rfl⟩,rfl⟩

theorem toMessage_reachable (room : type.TakesRoom) (lays : layout.Lays type.specs)
    (record : Record type) : Message.Reachable layout (record.toMessage layout) := by
  apply Message.Reachable.insertAll .new
  intro entry member
  obtain ⟨part,inList,rfl⟩ := List.mem_map.mp member
  obtain ⟨index,rfl⟩ := List.mem_ofFn.mp inList
  obtain ⟨field,declared,_,same⟩ := RecordType.field_of_member lays index
  refine ⟨field,lays.field?_eq_some_iff.mpr ⟨declared,by rw [same]; rfl⟩,?_⟩
  exact MemberType.toValue_matches (room _ (List.get_mem _ _))
    (RecordType.declares_of_spec same.symm) _

theorem HeldBy.get? {record : Record type} {message : Message} (held : record.HeldBy message)
    (lays : layout.Lays type.specs) {field : Field} (declared : field ∈ layout.fields) :
    message.get? field.name = record.held field := by
  obtain ⟨inside,same⟩ := RecordType.member_of_field lays declared
  have name : (type.members.get ⟨field.index,inside⟩).name = field.name :=
    congrArg FieldSpec.name same
  rw [← name,held ⟨field.index,inside⟩]
  simp only [Record.held,inside,dif_pos]

theorem encode_heldBy (room : type.TakesRoom) (lays : layout.Lays type.specs)
    {record : Record type} {message : Message} (same : message.layout = layout)
    (held : record.HeldBy message) (version : Version) :
    record.encode layout version = message.encode version := by
  rw [encode_eq room lays,Message.encode_eq,Message.octets,same]
  congr 2
  apply List.flatMap_congr
  intro field carried
  rw [held.get? lays ((lays.fieldsFor_sublist version).subset carried)]

theorem decoded_agree (room : type.TakesRoom) (lays : layout.Lays type.specs) (version : Version)
    (full : List UInt8) (index : Fin type.members.length) :
    let record := (Layout.segments (layout.fieldsFor version) full).foldl place (zero type)
    let values := Message.readings (layout.fieldsFor version) full
    ((∃ field ∈ layout.fieldsFor version, field.index = index.val) →
      values.get? (type.members.get index).name =
        some ((type.members.get index).type.toValue (record index))) ∧
    ((∀ field ∈ layout.fieldsFor version, field.index ≠ index.val) →
      values.get? (type.members.get index).name = none ∧
        record index = (type.members.get index).type.zero) := by
  intro record values
  have fields := Layout.segments_fields (layout.fieldsFor version) full
  constructor
  · rintro ⟨field,carried,same⟩
    obtain ⟨part,member,rfl⟩ := List.mem_map.mp (fields.symm ▸ carried)
    have declared := (lays.fieldsFor_sublist version).subset carried
    obtain ⟨inside,spec⟩ := RecordType.member_of_field lays declared
    obtain rfl : index = ⟨part.1.index,inside⟩ := Fin.ext same.symm
    -- The record tells its parts apart by their places, the message by their names.
    have indices : ((Layout.segments (layout.fieldsFor version) full).map fun part =>
        part.1.index).Nodup := by
      have all := lays.indices_distinct.sublist ((lays.fieldsFor_sublist version).map _)
      rw [← fields,List.map_map] at all
      exact all
    have read : record ⟨part.1.index,inside⟩ = _ := foldl_place indices member inside (zero type)
    have name : (type.members.get ⟨part.1.index,inside⟩).name = part.1.name :=
      congrArg FieldSpec.name spec
    have distinct : values.Distinct := by
      rw [Bindings.Distinct,Message.readings_names]
      exact lays.fieldsFor_distinct version
    rw [read,MemberType.toValue_ofOctets (room _ (List.get_mem _ _))
      (RecordType.declares_of_spec spec),name]
    exact Bindings.get?_of_mem distinct (List.mem_map.mpr ⟨part,member,rfl⟩)
  · intro absent
    obtain ⟨own,declared,place,spec⟩ := RecordType.field_of_member lays index
    constructor
    · apply Bindings.get?_eq_none
      rw [Message.readings_names]
      intro member
      obtain ⟨field,carried,same⟩ := List.mem_map.mp member
      have other := (lays.fieldsFor_sublist version).subset carried
      have ownName : own.name = (type.members.get index).name := congrArg FieldSpec.name spec
      have equal := List.inj_on_of_nodup_map lays.names_distinct other declared
        (same.trans ownName.symm)
      exact absent field carried (by rw [equal,place])
    · apply foldl_place_absent
      intro part member
      have carried : part.1 ∈ layout.fieldsFor version := by
        rw [← fields]
        exact List.mem_map_of_mem member
      exact absent part.1 carried

/-- Over the layout of a record type, records and messages have one codec. A record and any
message with the same values have the same payload, and there is such a message for every
record. A payload is refused by both for the one reason, its length in the first
generation; otherwise both read the same values from it, and the members that the version
does not carry are zero in the record and not set in the message. -/
theorem codec_agrees_message (room : type.TakesRoom) (built : type.layout = .ok layout)
    (version : Version) :
    (∀ record : Record type,
      (∃ message, Message.Reachable layout message ∧ record.HeldBy message) ∧
      ∀ message : Message, message.layout = layout → record.HeldBy message →
        ∃ payload, record.encode layout version = .ok payload ∧
          message.encode version = .ok payload) ∧
    ∀ payload : List UInt8,
      (∃ (record : Record type) (message : Message),
        decode layout payload version = .ok record ∧
        Message.decode layout payload version = .ok message ∧
        ∀ index : Fin type.members.length,
          ((∃ field ∈ layout.fieldsFor version, field.index = index.val) →
            message.get? (type.members.get index).name =
              some ((type.members.get index).type.toValue (record index))) ∧
          ((∀ field ∈ layout.fieldsFor version, field.index ≠ index.val) →
            message.get? (type.members.get index).name = none ∧
              record index = (type.members.get index).type.zero)) ∨
      (∃ error, version = .v1 ∧ payload.length ≠ layout.payloadSize .v1 ∧
        error = .sizeMismatch layout.name (layout.payloadSize .v1) payload.length ∧
        (decode layout payload version : Except Error (Record type)) = .error error ∧
        Message.decode layout payload version = .error error) := by
  obtain ⟨_,_,lays⟩ := Layout.build_ok_iff.mp built
  constructor
  · intro record
    refine ⟨⟨record.toMessage layout,record.toMessage_reachable room lays,
      record.toMessage_heldBy lays⟩,?_⟩
    intro message same held
    refine ⟨_,?_,Message.encode_eq message version⟩
    rw [encode_heldBy room lays same held,Message.encode_eq]
  · intro payload
    rw [decode_eq room lays,Message.decode_eq]
    cases received : layout.receive version payload with
    | ok full =>
      refine Or.inl ⟨_,_,rfl,rfl,?_⟩
      intro index
      rw [Message.decode_get? lays]
      exact decoded_agree room lays version full index
    | error error =>
      obtain ⟨first,different,same⟩ := Layout.receive_error received
      exact Or.inr ⟨error,first,different,same,rfl,rfl⟩

/-- A short payload of the second generation, read with an array among the extensions. -/
theorem codec_agrees_message_attPosMocap :
    let type := CommonDialect.attPosMocap
    let layout : Layout := ⟨"ATT_POS_MOCAP",138,Layout.wireOrder (Layout.placed type.specs)⟩
    type.TakesRoom ∧ type.layout = .ok layout ∧
      (∃ payload, (zero type).encode layout .v2 = .ok payload ∧
        ((zero type).toMessage layout).encode .v2 = .ok payload) ∧
      ∃ (record : Record type) (message : Message),
        decode layout [0,0,0,0,0,0,0,0,1] .v2 = .ok record ∧
        Message.decode layout [0,0,0,0,0,0,0,0,1] .v2 = .ok message ∧
        message.get? "q" = some ((MemberType.numbers .float 4).toValue (record ⟨1,by decide⟩)) ∧
        message.get? "covariance" =
          some ((MemberType.numbers .float 21).toValue (record ⟨5,by decide⟩)) := by
  intro type layout
  have room : type.TakesRoom := by
    intro member inside
    simp only [type,CommonDialect.attPosMocap,List.mem_cons,List.not_mem_nil,or_false] at inside
    rcases inside with rfl | rfl | rfl | rfl | rfl | rfl <;> simp [MemberType.TakesRoom]
  have built : type.layout = .ok layout := rfl
  obtain ⟨_,_,lays⟩ := Layout.build_ok_iff.mp built
  obtain ⟨encoded,decoded⟩ := codec_agrees_message room built .v2
  refine ⟨room,built,(encoded (zero type)).2 _ rfl (toMessage_heldBy lays _),?_⟩
  rcases decoded [0,0,0,0,0,0,0,0,1] with ⟨record,message,read,got,same⟩ | ⟨_,first,_⟩
  · refine ⟨record,message,read,got,?_,?_⟩
    · exact (same ⟨1,by decide⟩).1 ⟨⟨⟨"q",.numeric .float,false,4,false⟩,1⟩,by decide,rfl⟩
    · exact (same ⟨5,by decide⟩).1 ⟨⟨⟨"covariance",.numeric .float,false,21,true⟩,5⟩,by decide,rfl⟩
  · cases first

end Record

end MavPayload
