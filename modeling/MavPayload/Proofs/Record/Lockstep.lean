import MavPayload.Proofs.Record.Walk

/-! The walk of a record's codec against the layout that it walks. The layout says where
each field stands, the codec moves by what each member takes, and nothing but an array of no
numbers lets the two fall apart. -/
namespace MavPayload.Record

variable {type : RecordType} {layout : Layout} {version : Version}

/-- Whether each member moves the cursor by the size of its field, in both directions, so
that the walk has come to each field where the sizes of those before it add up, and to the
end of the payload after the last one. -/
structure InLockstep (type : RecordType) (layout : Layout) (version : Version) : Prop where
  writes : ∀ field ∈ layout.fieldsFor version, ∀ (record : Record type) (writer next : Writer),
    writer.Inside → record.writeField field writer = some next →
      next.offset = writer.offset + field.size
  reads : ∀ field ∈ layout.fieldsFor version, ∀ (record other : Record type)
    (reader next : Reader), reader.Inside → readField field reader record = some (other,next) →
      next.offset = reader.offset + field.size
  written : ∀ (record : Record type) (before after : List Field),
    layout.fieldsFor version = before ++ after → ∃ writer,
      before.foldlM (fun writer field => record.writeField field writer)
        (Writer.zeros (layout.payloadSize version)) = some writer ∧
      writer.offset = Layout.totalSize before
  read : ∀ (payload : List UInt8) (before after : List Field),
    payload.length = layout.payloadSize version → layout.fieldsFor version = before ++ after →
    ∃ (record : Record type) (reader : Reader),
      before.foldlM (fun (state : Record type × Reader) field => readField field state.2 state.1)
        (zero type,⟨payload,0⟩) = some (record,reader) ∧
      reader.offset = Layout.totalSize before
  /-- What a field writes by itself is what stands at its place in the payload. -/
  stands : ∀ (record : Record type) (before after : List Field) (field : Field),
    layout.fieldsFor version = before ++ field :: after → ∃ payload alone,
      layout.fill? version record.writeField = some payload ∧
      record.writeField field (Writer.zeros field.size) = some ⟨alone,field.size⟩ ∧
      (payload.drop (Layout.totalSize before)).take field.size = alone

theorem room_eq_size_iff (lays : layout.Lays type.specs) (version : Version) :
    (∀ field ∈ layout.fieldsFor version, room type field = field.size) ↔
      ∀ member ∈ type.members, (version = .v1 → member.isExtension = false) →
        member.type.TakesRoom := by
  constructor
  · intro same member inside carried
    obtain ⟨index,rfl⟩ := List.get_of_mem inside
    obtain ⟨field,declared,place,spec⟩ := RecordType.field_of_member lays index
    have extension : field.isExtension = (type.members.get index).isExtension :=
      congrArg FieldSpec.isExtension spec
    have size := same field (lays.mem_fieldsFor.mpr ⟨declared,fun first => by
      rw [extension,carried first]⟩)
    obtain ⟨bound,_⟩ := RecordType.member_of_field lays declared
    obtain rfl : index = ⟨field.index,bound⟩ := Fin.ext place.symm
    rw [room,dif_pos bound] at size
    exact (MemberType.room_eq_size_iff (RecordType.declares_of_spec spec.symm)).mp size
  · intro takes field carried
    obtain ⟨declared,base⟩ := lays.mem_fieldsFor.mp carried
    obtain ⟨bound,spec⟩ := RecordType.member_of_field lays declared
    have extension : (type.members.get ⟨field.index,bound⟩).isExtension = field.isExtension :=
      congrArg FieldSpec.isExtension spec
    rw [room,dif_pos bound,MemberType.room_eq_size_iff (RecordType.declares_of_spec spec)]
    exact takes _ (List.get_mem _ _) fun first => extension.trans (base first)

theorem writeField_alone (lays : layout.Lays type.specs) (record : Record type) {field : Field}
    (declared : field ∈ layout.fields) :
    record.writeField field (Writer.zeros field.size) = some ⟨record.octets field ++
      List.replicate (field.size - room type field) 0,room type field⟩ := by
  have fits : (record.octets field).length ≤ field.size := by
    rw [octets_length]
    exact room_le_size lays declared
  rw [writeField_puts lays record declared _ (Nat.zero_le _),Writer.put_zeros_append fits,
    octets_length]

theorem InLockstep.room (lockstep : InLockstep type layout version)
    (lays : layout.Lays type.specs) {field : Field} (carried : field ∈ layout.fieldsFor version) :
    room type field = field.size := by
  have alone := writeField_alone lays (zero type) ((lays.fieldsFor_sublist version).subset carried)
  have moved := lockstep.writes field carried _ _ _ (Nat.zero_le _) alone
  rwa [Writer.zeros,Nat.zero_add] at moved

theorem carried_before {before after : List Field}
    (parts : layout.fieldsFor version = before ++ after) :
    ∀ field ∈ before, field ∈ layout.fieldsFor version := by
  intro field member
  rw [parts]
  exact List.mem_append_left _ member

section

variable (lays : layout.Lays type.specs)
  (same : ∀ field ∈ layout.fieldsFor version, room type field = field.size)

include same

theorem extent_eq_totalSize {fields : List Field}
    (carried : ∀ field ∈ fields, field ∈ layout.fieldsFor version) :
    Reader.extent (room type) fields = Layout.totalSize fields := by
  induction fields with
  | nil => rfl
  | cons field rest ih =>
    rw [Reader.extent,Layout.totalSize,same field (carried field (by simp)),
      ih fun other member => carried other (List.mem_cons_of_mem _ member)]

theorem octets_totalSize (record : Record type) {fields : List Field}
    (carried : ∀ field ∈ fields, field ∈ layout.fieldsFor version) :
    (fields.flatMap record.octets).length = Layout.totalSize fields := by
  rw [Reader.flatMap_extent fun field _ => record.octets_length field,
    extent_eq_totalSize same carried]

include lays

/-- The octets of the fields before a place, put over zeros. -/
theorem written_before (record : Record type) {before after : List Field}
    (parts : layout.fieldsFor version = before ++ after) :
    ∃ writer, before.foldlM (fun writer field => record.writeField field writer)
        (Writer.zeros (layout.payloadSize version)) = some writer ∧
      writer.offset = Layout.totalSize before := by
  have carried := carried_before parts
  have puts := Writer.Puts.foldlM (fun field member => writeField_puts lays record
    ((lays.fieldsFor_sublist version).subset (carried field member)))
    (Writer.zeros (layout.payloadSize version)) (Nat.zero_le _)
  have size := octets_totalSize same record carried
  have fits : (before.flatMap record.octets).length ≤ layout.payloadSize version := by
    rw [size,Layout.payloadSize,parts,Layout.totalSize_append]
    exact Nat.le_add_right _ _
  rw [Writer.put_zeros_append fits] at puts
  exact ⟨_,puts,size⟩

theorem read_before {payload : List UInt8} (full : payload.length = layout.payloadSize version)
    {before after : List Field} (parts : layout.fieldsFor version = before ++ after) :
    ∃ (record : Record type) (reader : Reader),
      before.foldlM (fun (state : Record type × Reader) field => readField field state.2 state.1)
        (zero type,⟨payload,0⟩) = some (record,reader) ∧
      reader.offset = Layout.totalSize before := by
  have carried := carried_before parts
  have each : ∀ field ∈ before, ∀ record : Record type,
      Reader.Yields (fun reader => readField field reader record) (room type field)
        fun bytes => record.place (field,bytes) := fun field member record =>
    readField_yields lays record ((lays.fieldsFor_sublist version).subset (carried field member))
  have yields := Reader.Yields.foldlM each (zero type) ⟨payload,0⟩ (Nat.zero_le _)
  have fits : Layout.totalSize before ≤ payload.length := by
    rw [full,Layout.payloadSize,parts,Layout.totalSize_append]
    exact Nat.le_add_right _ _
  rw [extent_eq_totalSize same carried] at yields
  simp only [Reader.take,Nat.zero_add,fits,if_true,Option.map_some] at yields
  exact ⟨_,_,yields,rfl⟩

theorem stands_written (record : Record type) {before after : List Field} {field : Field}
    (parts : layout.fieldsFor version = before ++ field :: after) :
    ∃ payload alone, layout.fill? version record.writeField = some payload ∧
      record.writeField field (Writer.zeros field.size) = some ⟨alone,field.size⟩ ∧
      (payload.drop (Layout.totalSize before)).take field.size = alone := by
  have carried : ∀ other ∈ before ++ field :: after, other ∈ layout.fieldsFor version := by
    rw [parts]
    exact fun _ member => member
  have present : field ∈ layout.fieldsFor version := carried field (by simp)
  have size : (record.octets field).length = field.size := by
    rw [octets_length,same field present]
  have front := octets_totalSize same record fun other member =>
    carried other (List.mem_append_left _ member)
  have alone := writeField_alone lays record ((lays.fieldsFor_sublist version).subset present)
  rw [same field present,Nat.sub_self,List.replicate_zero,List.append_nil] at alone
  have filled := Layout.fill_zeros
    (fun other member => writeField_puts lays record
      ((lays.fieldsFor_sublist version).subset member))
    (Nat.le_of_eq (octets_totalSize same record fun _ member => member))
  refine ⟨_,_,filled,alone,?_⟩
  rw [parts,List.flatMap_append,List.flatMap_cons,List.append_assoc,List.append_assoc,
    List.drop_left' front,List.take_left' size]

theorem inLockstep_of_room : InLockstep type layout version where
  writes field carried record writer next inside wrote := by
    rw [writeField_puts lays record ((lays.fieldsFor_sublist version).subset carried) _ inside]
      at wrote
    rw [Writer.put_offset wrote,octets_length,same field carried]
  reads field carried record other reader next inside got := by
    have yields := readField_yields lays record ((lays.fieldsFor_sublist version).subset carried)
      reader inside
    dsimp only at yields
    rw [got] at yields
    obtain ⟨taken,took,equal⟩ := Option.map_eq_some_iff.mp yields.symm
    cases equal
    rw [Reader.take_offset took,same field carried]
  written record _ _ parts := written_before lays same record parts
  read _ _ _ full parts := read_before lays same full parts
  stands record _ _ _ parts := stands_written lays same record parts

end

/-- The codec of a record keeps to its layout exactly if no member that the version carries
is an array of no numbers. -/
theorem inLockstep_iff (built : type.layout = .ok layout) (version : Version) :
    InLockstep type layout version ↔ ∀ member ∈ type.members,
      (version = .v1 → member.isExtension = false) → member.type.TakesRoom := by
  obtain ⟨_,_,lays⟩ := Layout.build_ok_iff.mp built
  rw [← room_eq_size_iff lays]
  constructor
  · exact fun lockstep _ carried => lockstep.room lays carried
  · exact inLockstep_of_room lays

/-- The first generation does not carry the array of no numbers, which is an extension. -/
theorem inLockstep_iff_extension :
    let type : RecordType := ⟨"CUT",9,[⟨"count",.number .uint16,false⟩,
      ⟨"gains",.numbers .uint8 3,false⟩,⟨"label",.text 0,false⟩,⟨"empty",.numbers .uint8 0,true⟩]⟩
    let layout : Layout := ⟨"CUT",9,Layout.wireOrder (Layout.placed type.specs)⟩
    type.layout = .ok layout ∧ InLockstep type layout .v1 ∧ ¬ InLockstep type layout .v2 := by
  intro type layout
  have built : type.layout = .ok layout := rfl
  refine ⟨built,(inLockstep_iff built .v1).mpr ?_,fun lockstep => ?_⟩
  · intro member inside carried
    simp only [type,List.mem_cons,List.not_mem_nil,or_false] at inside
    rcases inside with rfl | rfl | rfl | rfl
    · trivial
    · exact (by decide : 1 ≤ 3)
    · trivial
    · exact absurd (carried rfl) (by decide)
  · have last : type.members.get ⟨3,by decide⟩ ∈ type.members := List.get_mem _ _
    have takes := (inLockstep_iff built .v2).mp lockstep _ last nofun
    exact absurd takes (by decide : ¬ 1 ≤ 0)

/-- The field of an array of no numbers has an octet that the codec passes over, so what
follows it stands one octet too early and the payload ends in one that nothing was written
to. -/
theorem not_inLockstep_empty :
    let type : RecordType := ⟨"ODD_ARR",60005,[⟨"a",.number .uint16,false⟩,
      ⟨"empty",.numbers .uint8 0,false⟩,⟨"b",.number .uint8,false⟩,⟨"c",.number .uint8,false⟩]⟩
    let layout : Layout := ⟨"ODD_ARR",60005,Layout.wireOrder (Layout.placed type.specs)⟩
    let record : Record type := (((zero type).set ⟨0,by decide⟩ (1 : BitVec 16)).set
      ⟨2,by decide⟩ (2 : BitVec 8)).set ⟨3,by decide⟩ (3 : BitVec 8)
    type.layout = .ok layout ∧ ¬ InLockstep type layout .v1 ∧
      record.encode layout .v1 = .ok [1,0,2,3,0] := by
  intro type layout record
  have built : type.layout = .ok layout := rfl
  obtain ⟨_,_,lays⟩ := Layout.build_ok_iff.mp built
  refine ⟨built,fun lockstep => ?_,by decide +kernel⟩
  have carried : (⟨⟨"empty",.numeric .uint8,false,0,false⟩,1⟩ : Field) ∈ layout.fieldsFor .v1 := by
    decide
  exact absurd (lockstep.room lays carried) (by decide)

end MavPayload.Record
