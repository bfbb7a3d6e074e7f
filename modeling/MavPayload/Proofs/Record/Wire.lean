import MavPayload.Proofs.Field
import MavPayload.Proofs.Record.Walk

/-! The codec of records by the octets of fields. The octets of a member are those of its
field, and what it makes of octets is what its field makes of them, unless it is an array of
no numbers. -/
namespace MavPayload

namespace MemberType

variable {type : MemberType} {field : Field}

theorem isArray_of_numbers {own : NumericType} {count : Nat} (room : 1 ≤ count)
    (declares : (numbers own count).Declares field.toFieldSpec) : field.isArray = true := by
  obtain ⟨element,length⟩ := declares
  exact FieldSpec.isArray_iff.mpr ⟨by rw [length]; exact room,by simp [element,elementType]⟩

theorem octets_numbers {field : FieldSpec} {own : NumericType} (array : field.isArray = true)
    (numeric : field.type = own) (items : List (BitVec own.width))
    (length : items.length = field.length) :
    field.octets (some (.array (items.map (.number own)))) = items.flatMap own.encode := by
  have whole : (List.range field.length).map (fun place =>
      (items.map (Value.number own))[place]?.getD (Value.zero field.type)) =
      items.map (Value.number own) := by
    apply List.ext_getElem
    · simp [length]
    · intro place left right
      rw [List.getElem_map,List.getElem_range,List.getElem?_eq_getElem right,Option.getD_some]
  simp only [FieldSpec.octets,array,if_true,Option.bind_some,Value.asArray?,Option.getD_some]
  rw [← List.flatMap_map,whole,List.flatMap_map]
  simp only [FieldSpec.encodeElement_number numeric]

theorem octets_toValue (room : type.TakesRoom) (declares : type.Declares field.toFieldSpec)
    (value : type.Carrier) : field.octets (some (type.toValue value)) = type.octets value := by
  obtain ⟨element,length⟩ := declares
  cases type with
  | number own => exact FieldSpec.octets_number element length value
  | enumeration names => exact FieldSpec.octets_number element length value
  | text size =>
    have single : field.isArray = false := by
      simp [FieldSpec.isArray,FieldSpec.isText,element,elementType]
    simp only [toValue,octets,FieldSpec.octets,single,Bool.false_eq_true,if_false,Option.map_some,
      Option.getD_some,FieldSpec.encodeElement,FieldSpec.elementSize,element,elementType,length,
      MemberType.length]
  | numbers own count =>
    have array := isArray_of_numbers room ⟨element,length⟩
    have items : (Vector.toList value).length = field.length := by
      rw [Vector.length_toList,length]
      rfl
    exact octets_numbers array element _ items

theorem toValue_ofOctets (room : type.TakesRoom) (declares : type.Declares field.toFieldSpec)
    (bytes : List UInt8) : type.toValue (type.ofOctets bytes) = field.ofOctets bytes := by
  obtain ⟨element,length⟩ := declares
  cases type with
  | number own =>
    have single : field.isArray = false := by simp [FieldSpec.isArray,length,MemberType.length]
    simp only [toValue,ofOctets,FieldSpec.ofOctets,single,Bool.false_eq_true,if_false,
      FieldSpec.decodeElement,element,elementType]
  | enumeration names =>
    have single : field.isArray = false := by simp [FieldSpec.isArray,length,MemberType.length]
    simp only [toValue,ofOctets,FieldSpec.ofOctets,single,Bool.false_eq_true,if_false,
      FieldSpec.decodeElement,element,elementType]
  | text size =>
    have single : field.isArray = false := by
      simp [FieldSpec.isArray,FieldSpec.isText,element,elementType]
    simp only [toValue,ofOctets,FieldSpec.ofOctets,single,Bool.false_eq_true,if_false,
      FieldSpec.decodeElement,FieldSpec.elementSize,element,elementType,length,MemberType.length]
  | numbers own count =>
    have array := isArray_of_numbers room ⟨element,length⟩
    simp only [toValue,ofOctets,FieldSpec.ofOctets,array,if_true,FieldSpec.decodeElement,
      FieldSpec.elementSize,element,elementType,length,MemberType.length]
    rw [Message.toList_ofFn_range fun place =>
      own.decode ((bytes.drop (own.size * place)).take own.size),List.map_map]
    rfl

end MemberType

namespace Record

variable {type : RecordType} {layout : Layout}

def held (record : Record type) (field : Field) : Option Value :=
  if inside : field.index < type.members.length then
    some ((type.members.get ⟨field.index,inside⟩).type.toValue (record ⟨field.index,inside⟩))
  else none

theorem octets_held (room : type.TakesRoom) (lays : layout.Lays type.specs)
    (record : Record type) {field : Field} (declared : field ∈ layout.fields) :
    record.octets field = field.octets (record.held field) := by
  obtain ⟨inside,same⟩ := RecordType.member_of_field lays declared
  rw [octets,held,dif_pos inside,dif_pos inside]
  exact (MemberType.octets_toValue (room _ (List.get_mem _ _)) (RecordType.declares_of_spec same)
    _).symm

theorem room_eq_size (takes : type.TakesRoom) (lays : layout.Lays type.specs) {field : Field}
    (declared : field ∈ layout.fields) : room type field = field.size := by
  obtain ⟨inside,same⟩ := RecordType.member_of_field lays declared
  rw [room,dif_pos inside]
  exact (MemberType.room_eq_size_iff (RecordType.declares_of_spec same)).mpr
    (takes _ (List.get_mem _ _))

/-- Encoding never leaves the payload, and every field has the octets of its member. -/
theorem encode_eq (room : type.TakesRoom) (lays : layout.Lays type.specs) (record : Record type)
    (version : Version) :
    record.encode layout version = .ok (sent version
      ((layout.fieldsFor version).flatMap fun field => field.octets (record.held field))) := by
  have same : (layout.fieldsFor version).flatMap record.octets =
      (layout.fieldsFor version).flatMap fun field => field.octets (record.held field) :=
    List.flatMap_congr fun field carried =>
      octets_held room lays record ((lays.fieldsFor_sublist version).subset carried)
  have full : ((layout.fieldsFor version).flatMap fun field =>
      field.octets (record.held field)).length = layout.payloadSize version :=
    Layout.flatMap_length fun _ _ => FieldSpec.octets_length _ _
  rw [encode_written lays,written,same,full,Nat.sub_self,List.replicate_zero,List.append_nil]

/-- Decoding fails only where the payload has the wrong length, and every field sets its
member. -/
theorem decode_eq (room : type.TakesRoom) (lays : layout.Lays type.specs) (payload : List UInt8)
    (version : Version) :
    (decode layout payload version : Except Error (Record type)) =
      (layout.receive version payload).map fun full =>
        (Layout.segments (layout.fieldsFor version) full).foldl place (zero type) := by
  rw [decode_divide lays]
  congr 2
  funext full
  rw [Layout.segments_eq,Reader.divide_congr fun field carried =>
    room_eq_size room lays ((lays.fieldsFor_sublist version).subset carried)]

end Record

end MavPayload
