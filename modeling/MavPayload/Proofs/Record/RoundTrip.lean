import MavPayload.Proofs.Record.Walk

/-! A record over the wire and back. Numbers and values of enumerations come back bit for
bit, texts as far as their buffers carry them, and extensions not at all in the first
generation. That holds of every layout, since a receiver walks as its sender did. -/
namespace MavPayload

/-- What the wire carries of a member: all of it, unless it is a text. -/
def MemberType.carried : (type : MemberType) → type.Carrier → type.Carrier
  | number _,bits => bits
  | enumeration _,bits => bits
  | text length,chars => CharBuffer.carried (max length 1) chars
  | numbers _ _,items => items

theorem MemberType.ofOctets_octets (type : MemberType) (value : type.Carrier) :
    type.ofOctets (type.octets value) = type.carried value := by
  cases type with
  | number own => exact own.decode_encode value
  | enumeration names => exact names.type.decode_encode value
  | text length => exact CharBuffer.decode_encode _ _
  | numbers own count =>
    apply Vector.ext
    intro place inside
    have within : place < (Vector.toList value).length := by rwa [Vector.length_toList]
    have part := flatMap_part own.encode_length (Vector.toList value) within
    simp only [ofOctets,octets,carried,Vector.getElem_ofFn,part,own.decode_encode]
    exact Vector.getElem_toList _

namespace Record

variable {type : RecordType} {layout : Layout}

/-- The record that a receiver makes of one that was sent. Members that the version does
not carry are zero. -/
def carried (version : Version) (record : Record type) : Record type := fun index =>
  if version = .v1 ∧ (type.members.get index).isExtension = true then
    (type.members.get index).type.zero
  else (type.members.get index).type.carried (record index)

theorem divide_written (layout : Layout) (record : Record type) (version : Version) :
    Reader.divide (room type) (layout.fieldsFor version) (record.written layout version) =
      (layout.fieldsFor version).map fun field => (field,record.octets field) :=
  Reader.divide_flatMap (fun field _ => record.octets_length field) _

/-- Each member is set once, by its own field, from the octets that it was written as. -/
theorem foldl_place_octets (lays : layout.Lays type.specs) (record : Record type)
    (version : Version) :
    ((layout.fieldsFor version).map fun field => (field,record.octets field)).foldl place
      (zero type) = record.carried version := by
  funext index
  obtain ⟨field,declared,place,same⟩ := RecordType.field_of_member lays index
  have extension : field.isExtension = (type.members.get index).isExtension :=
    congrArg FieldSpec.isExtension same
  unfold carried
  split
  · rename_i left
    apply foldl_place_absent
    intro part member equal
    obtain ⟨other,carried,rfl⟩ := List.mem_map.mp member
    obtain ⟨declaredOther,base⟩ := lays.mem_fieldsFor.mp carried
    have one : other = field := List.inj_on_of_nodup_map lays.indices_distinct declaredOther
      declared (equal.trans place.symm)
    rw [one,extension,left.2] at base
    exact absurd (base left.1) (by decide)
  · rename_i kept
    have carried : field ∈ layout.fieldsFor version := by
      refine lays.mem_fieldsFor.mpr ⟨declared,fun first => ?_⟩
      rw [extension]
      exact Bool.eq_false_iff.mpr fun extended => kept ⟨first,extended⟩
    have distinct : (((layout.fieldsFor version).map fun field =>
        (field,record.octets field)).map fun part => part.1.index).Nodup := by
      rw [List.map_map]
      exact lays.indices_distinct.sublist ((lays.fieldsFor_sublist version).map _)
    obtain ⟨inside,_⟩ := RecordType.member_of_field lays declared
    obtain rfl : index = ⟨field.index,inside⟩ := Fin.ext place.symm
    rw [foldl_place distinct (List.mem_map_of_mem carried) inside,octets,dif_pos inside,
      MemberType.ofOctets_octets]

/-- A record that has been encoded is decoded, whatever its type, to what the version carries
of it. -/
theorem decode_encode_carried (built : type.layout = .ok layout) (record : Record type)
    (version : Version) :
    ∃ payload, record.encode layout version = .ok payload ∧
      decode layout payload version = .ok (record.carried version) := by
  obtain ⟨_,_,lays⟩ := Layout.build_ok_iff.mp built
  refine ⟨_,encode_written lays record version,?_⟩
  rw [decode_divide lays,Layout.receive_sent (written_length lays record version)]
  simp only [Except.map,divide_written,foldl_place_octets lays]

/-- An array of no numbers in front of a value that has no name, a text that is cut inside a
character, a signalling NaN, and an extension. -/
theorem decode_encode_carried_cut :
    let names : Enumeration := ⟨.uint8,[("CUT_NONE",0)]⟩
    let type : RecordType := ⟨"CUT",8,[⟨"empty",.numbers .uint16 0,false⟩,
      ⟨"mode",.enumeration names,false⟩,⟨"label",.text 3,false⟩,
      ⟨"trail",.numbers .float 1,false⟩,⟨"stamp",.number .uint64,true⟩]⟩
    let layout : Layout := ⟨"CUT",8,Layout.wireOrder (Layout.placed type.specs)⟩
    let trail : Vector (BitVec 32) 1 := Vector.replicate 1 0x7FA00000
    let record : Record type := ((((zero type).set ⟨1,by decide⟩ (200 : BitVec 8)).set
      ⟨2,by decide⟩ "a€").set ⟨3,by decide⟩ trail).set ⟨4,by decide⟩ (6 : BitVec 64)
    type.layout = .ok layout ∧ ∃ (payload : List UInt8) (other : Record type),
      record.encode layout .v1 = .ok payload ∧ decode layout payload .v1 = .ok other ∧
      other ⟨1,by decide⟩ = (200 : BitVec 8) ∧ other ⟨2,by decide⟩ = "a\uFFFD" ∧
      other ⟨3,by decide⟩ = trail ∧ other ⟨4,by decide⟩ = (0 : BitVec 64) := by
  intro names type layout trail record
  have built : type.layout = .ok layout := rfl
  obtain ⟨payload,encoded,decoded⟩ := decode_encode_carried built record .v1
  have torn : CharBuffer.carried 3 "a€" = "a\uFFFD" := by decide +kernel
  exact ⟨built,payload,_,encoded,decoded,rfl,torn,rfl,rfl⟩

end Record

end MavPayload
