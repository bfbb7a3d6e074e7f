import MavPayload.Proofs.Codec
import MavPayload.Proofs.Element
import MavPayload.Proofs.Frame
import MavPayload.Proofs.Layout.Build
import MavPayload.Record

/-! The walk of a record's codec as it moves the cursor. Each member takes the octets of its
own type, at most as many as its field has, so the walk stays in the payload; fewer are
taken by an array of no numbers alone, whose field is that of a single number. -/
namespace MavPayload

namespace MemberType

/-- Whether a member takes the room that its field has. An array of no numbers takes none,
but its field is that of a single number. -/
def TakesRoom : MemberType → Prop
  | numbers _ count => 1 ≤ count
  | _ => True

/-- Whether a field is one that a member of the type declares. -/
def Declares (type : MemberType) (field : FieldSpec) : Prop :=
  field.type = type.elementType ∧ field.length = type.length

def room : MemberType → Nat
  | number type => type.size
  | enumeration names => names.type.size
  | text length => max length 1
  | numbers type count => type.size * count

def octets : (type : MemberType) → type.Carrier → List UInt8
  | number type,bits => type.encode bits
  | enumeration names,bits => names.type.encode bits
  | text length,chars => CharBuffer.encode (max length 1) chars
  | numbers type _,items => items.toList.flatMap type.encode

def ofOctets : (type : MemberType) → List UInt8 → type.Carrier
  | number type,bytes => type.decode bytes
  | enumeration names,bytes => names.type.decode bytes
  | text length,bytes => CharBuffer.decode (max length 1) bytes
  | numbers type count,bytes => Vector.ofFn fun place : Fin count =>
    type.decode ((bytes.drop (type.size * place)).take type.size)

variable {type : MemberType} {field : Field}

@[simp] theorem octets_length (type : MemberType) (value : type.Carrier) :
    (type.octets value).length = type.room := by
  cases type with
  | number own => exact own.encode_length value
  | enumeration names => exact names.type.encode_length value
  | text length => exact CharBuffer.encode_length _ _
  | numbers own count =>
    simp only [octets,room,List.length_flatMap,NumericType.encode_length,List.map_const',
      List.sum_replicate_nat,Vector.length_toList,Nat.mul_comm]

theorem room_le_size (declares : type.Declares field.toFieldSpec) : type.room ≤ field.size := by
  obtain ⟨element,length⟩ := declares
  rw [FieldSpec.size,element,length]
  cases type with
  | number own => simp [room,elementType,FieldType.size,MemberType.length]
  | enumeration names => simp [room,elementType,FieldType.size,MemberType.length]
  | text size => simp [room,elementType,FieldType.size,MemberType.length]
  | numbers own count => exact Nat.mul_le_mul_left _ (Nat.le_max_left _ _)

/-- The room that a member takes is all of its field, unless it is an array of no numbers. -/
theorem room_eq_size_iff (declares : type.Declares field.toFieldSpec) :
    type.room = field.size ↔ type.TakesRoom := by
  obtain ⟨element,length⟩ := declares
  rw [FieldSpec.size,element,length]
  cases type with
  | number own => simp [room,elementType,FieldType.size,MemberType.length,TakesRoom]
  | enumeration names => simp [room,elementType,FieldType.size,MemberType.length,TakesRoom]
  | text size => simp [room,elementType,FieldType.size,MemberType.length,TakesRoom]
  | numbers own count =>
    have positive : 0 < own.size := (FieldType.numeric own).size_pos
    change own.size * count = own.size * max count 1 ↔ 1 ≤ count
    rw [Nat.mul_right_inj positive.ne']
    omega

theorem write_puts (declares : type.Declares field.toFieldSpec) (value : type.Carrier) :
    Writer.Puts (type.write field value) (type.octets value) := by
  cases type with
  | number own => exact fun _ _ => rfl
  | enumeration names => exact fun _ _ => rfl
  | text size =>
    have length : field.length = size := declares.2
    intro writer _
    rw [write,length]
    rfl
  | numbers own count => exact Writer.Puts.foldlM fun _ _ _ _ => rfl

theorem read_yields (declares : type.Declares field.toFieldSpec) :
    Reader.Yields (type.read field) type.room type.ofOctets := by
  have number (own : NumericType) :
      Reader.Yields (fun reader => reader.number own) own.size own.decode := by
    intro reader _
    simp only [Reader.number]
    cases reader.take own.size <;> rfl
  cases type with
  | number own => exact number own
  | enumeration names => exact number names.type
  | text size =>
    have length : field.length = size := declares.2
    intro reader _
    simp only [read,Reader.text,room,length]
    cases reader.take (max size 1) <;> rfl
  | numbers own count => exact (number own).times count

end MemberType

namespace RecordType

variable {type : RecordType} {layout : Layout}

/-- Whether every member takes the room that its field has. -/
def TakesRoom (type : RecordType) : Prop :=
  ∀ member ∈ type.members, member.type.TakesRoom

theorem member_of_field (lays : layout.Lays type.specs) {field : Field}
    (declared : field ∈ layout.fields) :
    ∃ inside : field.index < type.members.length,
      (type.members.get ⟨field.index,inside⟩).spec = field.toFieldSpec := by
  have found := lays.mem_iff.mp declared
  rw [specs,List.getElem?_map,Option.map_eq_some_iff] at found
  obtain ⟨member,found,same⟩ := found
  obtain ⟨inside,rfl⟩ := List.getElem?_eq_some_iff.mp found
  exact ⟨inside,same⟩

theorem field_of_member (lays : layout.Lays type.specs) (index : Fin type.members.length) :
    ∃ field ∈ layout.fields, field.index = index.val ∧
      field.toFieldSpec = (type.members.get index).spec := by
  refine ⟨{ (type.members.get index).spec with index := index.val },?_,rfl,rfl⟩
  rw [lays.mem_iff,specs,List.getElem?_map,List.getElem?_eq_getElem index.isLt]
  rfl

theorem declares_of_spec {member : Member} {field : FieldSpec} (same : member.spec = field) :
    member.type.Declares field := by
  subst same
  exact ⟨rfl,rfl⟩

end RecordType

namespace Record

variable {type : RecordType} {layout : Layout}

theorem set_same (record : Record type) (index : Fin type.members.length)
    (value : (type.members.get index).type.Carrier) : record.set index value index = value := by
  simp [set]

theorem set_other (record : Record type) {index other : Fin type.members.length}
    (different : other ≠ index) (value : (type.members.get index).type.Carrier) :
    record.set index value other = record other := by
  simp [set,different]

def room (type : RecordType) (field : Field) : Nat :=
  if inside : field.index < type.members.length then
    (type.members.get ⟨field.index,inside⟩).type.room
  else 0

def octets (record : Record type) (field : Field) : List UInt8 :=
  if inside : field.index < type.members.length then
    (type.members.get ⟨field.index,inside⟩).type.octets (record ⟨field.index,inside⟩)
  else []

def place (record : Record type) (part : Field × List UInt8) : Record type :=
  if inside : part.1.index < type.members.length then
    record.set ⟨part.1.index,inside⟩
      ((type.members.get ⟨part.1.index,inside⟩).type.ofOctets part.2)
  else record

@[simp] theorem octets_length (record : Record type) (field : Field) :
    (record.octets field).length = room type field := by
  unfold octets room
  split
  · exact MemberType.octets_length _ _
  · rfl

theorem room_le_size (lays : layout.Lays type.specs) {field : Field}
    (declared : field ∈ layout.fields) : room type field ≤ field.size := by
  obtain ⟨inside,same⟩ := RecordType.member_of_field lays declared
  rw [room,dif_pos inside]
  exact MemberType.room_le_size (RecordType.declares_of_spec same)

theorem writeField_puts (lays : layout.Lays type.specs) (record : Record type) {field : Field}
    (declared : field ∈ layout.fields) :
    Writer.Puts (record.writeField field) (record.octets field) := by
  obtain ⟨inside,same⟩ := RecordType.member_of_field lays declared
  intro writer within
  rw [writeField,octets,dif_pos inside,dif_pos inside]
  exact MemberType.write_puts (RecordType.declares_of_spec same) _ writer within

theorem readField_yields (lays : layout.Lays type.specs) (record : Record type) {field : Field}
    (declared : field ∈ layout.fields) :
    Reader.Yields (fun reader => readField field reader record) (room type field)
      fun bytes => record.place (field,bytes) := by
  obtain ⟨inside,same⟩ := RecordType.member_of_field lays declared
  have read := MemberType.read_yields (RecordType.declares_of_spec same)
  intro reader within
  simp only [readField,place,room,dif_pos inside,read reader within]
  cases reader.take (type.members.get ⟨field.index,inside⟩).type.room <;> rfl

theorem extent_le_payloadSize (lays : layout.Lays type.specs) (version : Version) :
    Reader.extent (room type) (layout.fieldsFor version) ≤ layout.payloadSize version := by
  have each : ∀ field ∈ layout.fieldsFor version, room type field ≤ field.size :=
    fun field carried => room_le_size lays ((lays.fieldsFor_sublist version).subset carried)
  rw [Layout.payloadSize]
  generalize layout.fieldsFor version = fields at each ⊢
  induction fields with
  | nil => exact Nat.le_refl _
  | cons field rest ih =>
    have later := ih fun other member => each other (List.mem_cons_of_mem _ member)
    exact Nat.add_le_add (each field (by simp)) later

def written (layout : Layout) (record : Record type) (version : Version) : List UInt8 :=
  let front := (layout.fieldsFor version).flatMap record.octets
  front ++ List.replicate (layout.payloadSize version - front.length) 0

theorem octets_extent (layout : Layout) (record : Record type) (version : Version) :
    ((layout.fieldsFor version).flatMap record.octets).length =
      Reader.extent (room type) (layout.fieldsFor version) :=
  Reader.flatMap_extent fun field _ => record.octets_length field

theorem written_length (lays : layout.Lays type.specs) (record : Record type)
    (version : Version) : (record.written layout version).length = layout.payloadSize version := by
  have fits := extent_le_payloadSize lays version
  rw [written,List.length_append,List.length_replicate,octets_extent]
  omega

/-- Encoding never leaves the payload. -/
theorem encode_written (lays : layout.Lays type.specs) (record : Record type)
    (version : Version) :
    record.encode layout version = .ok (sent version (record.written layout version)) := by
  have filled := Layout.fill_zeros
    (fun field carried => writeField_puts lays record
      ((lays.fieldsFor_sublist version).subset carried))
    (by rw [octets_extent]; exact extent_le_payloadSize lays version)
  simp only [encode,Layout.encodeWith,filled]
  rfl

/-- Decoding fails only where the payload has the wrong length. -/
theorem decode_divide (lays : layout.Lays type.specs) (payload : List UInt8)
    (version : Version) :
    (decode layout payload version : Except Error (Record type)) =
      (layout.receive version payload).map fun full =>
        (Reader.divide (room type) (layout.fieldsFor version) full).foldl place (zero type) := by
  simp only [decode,Layout.decodeWith]
  cases received : layout.receive version payload with
  | error error => rfl
  | ok full =>
    have yields : ∀ field ∈ layout.fieldsFor version, ∀ record : Record type,
        Reader.Yields (fun reader => readField field reader record) (room type field)
          fun bytes => record.place (field,bytes) := fun field carried record =>
      readField_yields lays record ((lays.fieldsFor_sublist version).subset carried)
    have fits := extent_le_payloadSize lays version
    rw [← Layout.receive_length received] at fits
    simp only [bind,Except.bind,Layout.scan_divide yields (zero type) fits,Except.map]

theorem foldl_place_absent {index : Fin type.members.length} {parts : List (Field × List UInt8)}
    (absent : ∀ part ∈ parts, part.1.index ≠ index.val) (record : Record type) :
    parts.foldl place record index = record index := by
  induction parts generalizing record with
  | nil => rfl
  | cons part rest ih =>
    rw [List.foldl_cons,ih fun other member => absent other (List.mem_cons_of_mem _ member)]
    have different := absent part (by simp)
    unfold place
    split
    · exact set_other _ (fun same => different (congrArg Fin.val same).symm) _
    · rfl

theorem foldl_place {parts : List (Field × List UInt8)}
    (distinct : (parts.map fun part => part.1.index).Nodup) {part : Field × List UInt8}
    (member : part ∈ parts) (inside : part.1.index < type.members.length)
    (record : Record type) :
    parts.foldl place record ⟨part.1.index,inside⟩ =
      (type.members.get ⟨part.1.index,inside⟩).type.ofOctets part.2 := by
  induction parts generalizing record with
  | nil => cases member
  | cons first rest ih =>
    obtain ⟨fresh,distinct⟩ := List.nodup_cons.mp distinct
    rw [List.foldl_cons]
    rcases List.mem_cons.mp member with rfl | member
    · rw [foldl_place_absent fun other inRest same =>
        fresh (List.mem_map.mpr ⟨other,inRest,same⟩)]
      simp only [place,inside,dif_pos,set_same]
    · exact ih distinct member _

end Record

end MavPayload
