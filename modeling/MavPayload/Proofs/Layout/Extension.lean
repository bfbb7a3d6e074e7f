import MavPayload.Proofs.Message.Wire

/-! Declarations that differ in extensions at their ends. The longer layout is the shorter
one with the new fields behind it, so each peer reads of a payload what it knows, and
neither can tell from a message without the new fields which of the two the other has. -/
namespace MavPayload.Layout

variable {name : String} {id : Nat} {base extensions : List FieldSpec} {old new : Layout}

/-- The fields that further extensions are placed as. -/
def addedFields (base extensions : List FieldSpec) : List Field :=
  extensions.mapIdx fun place spec => { spec with index := base.length + place }

theorem addedFields_extension (extended : ∀ spec ∈ extensions, spec.isExtension = true) :
    ∀ field ∈ addedFields base extensions, field.isExtension = true := by
  intro field member
  obtain ⟨place,inside,rfl⟩ := List.mem_mapIdx.mp member
  exact extended _ (List.getElem_mem inside)

theorem mem_addedFields {spec : FieldSpec} (member : spec ∈ extensions) :
    ∃ field ∈ addedFields base extensions, field.toFieldSpec = spec := by
  obtain ⟨place,inside,rfl⟩ := List.mem_iff_getElem.mp member
  exact ⟨_,List.mem_mapIdx.mpr ⟨place,inside,rfl⟩,rfl⟩

theorem fields_extended (extended : ∀ spec ∈ extensions, spec.isExtension = true)
    (before : old.Lays base) (after : new.Lays (base ++ extensions)) :
    new.fields = old.fields ++ addedFields base extensions := by
  rw [after.fields_eq,before.fields_eq,placed_append]
  exact wireOrder_append (addedFields_extension extended)

theorem baseFields_extended {added : List Field} (more : new.fields = old.fields ++ added)
    (extended : ∀ field ∈ added, field.isExtension = true) : new.baseFields = old.baseFields := by
  have none : added.takeWhile (fun field => !field.isExtension) = [] := by
    cases added with
    | nil => rfl
    | cons field rest => simp [extended field (by simp)]
  rw [baseFields,baseFields,more,List.takeWhile_append,none,List.append_nil]
  split
  · rename_i all
    exact ((List.takeWhile_prefix _).eq_of_length all).symm
  · rfl

/-- What the shorter layout makes of a payload is the beginning of what the longer one makes
of it. -/
theorem receive_extended {added : List Field} (more : new.fields = old.fields ++ added)
    (payload : List UInt8) : ∃ short full, old.receive .v2 payload = .ok short ∧
      new.receive .v2 payload = .ok full ∧ short = full.take (old.payloadSize .v2) ∧
      (payload.length ≤ old.payloadSize .v2 → full.drop (old.payloadSize .v2) =
        List.replicate (totalSize added) 0) := by
  have size : new.payloadSize .v2 = old.payloadSize .v2 + totalSize added := by
    simp only [payloadSize,fieldsFor,more,totalSize_append]
  refine ⟨_,_,rfl,rfl,?_,?_⟩
  · rw [size,List.take_append,List.take_take,List.take_replicate,List.length_take]
    congr 2
    · omega
    · omega
  · intro short
    rw [size,List.take_of_length_le (by omega),List.drop_append,List.drop_of_length_le short,
      List.nil_append,List.drop_replicate]
    congr 1
    omega

theorem octets_extended {added : List Field} (more : new.fields = old.fields ++ added)
    {values : Bindings Value} (unset : ∀ field ∈ added, values.get? field.name = none) :
    Message.octets ⟨new,values⟩ .v2 =
      Message.octets ⟨old,values⟩ .v2 ++ List.replicate (totalSize added) 0 := by
  have zeros : (added.flatMap fun field => field.octets (values.get? field.name)) =
      List.replicate (totalSize added) 0 := by
    clear more
    induction added with
    | nil => rfl
    | cons field rest ih =>
      rw [List.flatMap_cons,unset field (by simp),FieldSpec.octets_none,
        ih fun other member => unset other (List.mem_cons_of_mem _ member),
        List.replicate_append_replicate]
      rfl
  simp only [Message.octets,Message.get?,fieldsFor,more,List.flatMap_append,zeros]

theorem octets_nonempty {values : Bindings Value} (nonempty : old.fields ≠ []) :
    Message.octets ⟨old,values⟩ .v2 ≠ [] := by
  intro empty
  have length := Message.octets_length ⟨old,values⟩ .v2
  obtain ⟨field,rest,fields⟩ := List.exists_cons_of_ne_nil nonempty
  have positive := field.size_pos
  simp only [empty,List.length_nil,payloadSize,fieldsFor,fields,totalSize] at length
  omega

theorem added_names_new (after : new.Lays (base ++ extensions)) {field : Field}
    (added : field ∈ addedFields base extensions) : ∀ spec ∈ base, spec.name ≠ field.name := by
  intro spec inBase same
  have distinct := after.acceptable.distinct
  rw [List.map_append] at distinct
  obtain ⟨place,inside,rfl⟩ := List.mem_mapIdx.mp added
  exact List.disjoint_of_nodup_append distinct (List.mem_map.mpr ⟨spec,inBase,rfl⟩)
    (List.mem_map.mpr ⟨extensions[place],List.getElem_mem inside,same.symm⟩)

/-- From one payload of the second generation, the peer with the shorter layout reads what
the other reads of the fields that both know. If the payload is no longer than the shorter
layout, the other reads zeros for the rest. -/
theorem decode_extended {added : List Field} (more : new.fields = old.fields ++ added)
    (before : old.Lays base) (after : new.Lays (base ++ extensions)) (payload : List UInt8) :
    ∃ known received, Message.decode old payload .v2 = .ok known ∧
      Message.decode new payload .v2 = .ok received ∧
      (∀ other, known.get? other =
        if (old.field? other).isSome then received.get? other else none) ∧
      (payload.length ≤ old.payloadSize .v2 → ∀ field ∈ added,
        received.get? field.name = some (Value.zeroFor field.toFieldSpec)) := by
  obtain ⟨short,full,cut,whole,same,rest⟩ := receive_extended more payload
  have distinct : (Message.readings new.fields full).Distinct := by
    rw [Bindings.Distinct,Message.readings_names]
    exact after.names_distinct
  refine ⟨_,_,by rw [Message.decode_eq,cut]; rfl,by rw [Message.decode_eq,whole]; rfl,?_,?_⟩
  · intro other
    have front : full.take (totalSize old.fields) = short := same.symm
    rw [Message.decode_get? before,Message.decode_get? after]
    simp only [fieldsFor,more,Message.readings_append,Bindings.get?_append,front]
    split
    · rename_i found
      obtain ⟨field,found⟩ := Option.isSome_iff_exists.mp found
      obtain ⟨declared,rfl⟩ := before.field?_eq_some_iff.mp found
      obtain ⟨value,held⟩ := Message.readings_get? short declared
      rw [held,Option.some_or]
    · rename_i missing
      apply Bindings.get?_eq_none
      rw [Message.readings_names]
      intro member
      obtain ⟨field,declared,named⟩ := List.mem_map.mp member
      exact missing (Option.isSome_iff_exists.mpr
        ⟨field,before.field?_eq_some_iff.mpr ⟨declared,named⟩⟩)
  · intro fits field member
    rw [Message.decode_get? after]
    apply Bindings.get?_of_mem distinct
    have behind : full.drop (totalSize old.fields) = List.replicate (totalSize added) 0 := rest fits
    rw [more,Message.readings_append,behind,Message.readings_zeros]
    exact List.mem_append_right _ (List.mem_map.mpr ⟨field,member,rfl⟩)

/-- A declaration and the same with further extensions have one checksum and one layout of
the first generation, and any payload of that is the same to both. A payload of the second
generation gives the peer with the shorter layout what it gives the other one, restricted
to the fields of the shorter layout; and if it is no longer than that layout, the further
extensions are zero. A message that sets none of them has one payload under both, if there
is a field at all. -/
theorem extension_compatible (extended : ∀ spec ∈ extensions, spec.isExtension = true)
    (builtOld : build name id base = .ok old)
    (builtNew : build name id (base ++ extensions) = .ok new) :
    old.crcExtra = new.crcExtra ∧ old.payloadSize .v1 = new.payloadSize .v1 ∧
    old.fieldsFor .v1 = new.fieldsFor .v1 ∧
    (∀ payload, (Message.decode old payload .v1).map Message.values =
      (Message.decode new payload .v1).map Message.values) ∧
    (∀ payload, ∃ known received, Message.decode old payload .v2 = .ok known ∧
      Message.decode new payload .v2 = .ok received ∧
      (∀ other, known.get? other =
        if (old.field? other).isSome then received.get? other else none) ∧
      (payload.length ≤ old.payloadSize .v2 → ∀ spec ∈ extensions,
        received.get? spec.name = some (Value.zeroFor spec))) ∧
    (∀ (values : Bindings Value) (version : Version),
      (∀ other value, values.get? other = some value → ∃ spec ∈ base, spec.name = other) →
      old.fields ≠ [] → ∃ payload, Message.encode ⟨old,values⟩ version = .ok payload ∧
        Message.encode ⟨new,values⟩ version = .ok payload) := by
  obtain ⟨oldName,_,before⟩ := build_ok_iff.mp builtOld
  obtain ⟨newName,_,after⟩ := build_ok_iff.mp builtNew
  have named : old.name = new.name := oldName.trans newName.symm
  have more := fields_extended extended before after
  have first : new.baseFields = old.baseFields :=
    baseFields_extended more (addedFields_extension extended)
  have size : old.payloadSize .v1 = new.payloadSize .v1 := by
    simp only [payloadSize,fieldsFor,first]
  refine ⟨by simp only [crcExtra,named,first],size,first.symm,?_,?_,?_⟩
  · intro payload
    rw [Message.decode_eq,Message.decode_eq]
    simp only [receive,named,size,fieldsFor,first]
    split <;> rfl
  · intro payload
    obtain ⟨known,received,knows,receives,restricted,zeros⟩ :=
      decode_extended more before after payload
    refine ⟨known,received,knows,receives,restricted,?_⟩
    intro fits spec member
    obtain ⟨field,added,rfl⟩ := mem_addedFields member
    exact zeros fits field added
  · intro values version only nonempty
    refine ⟨_,Message.encode_eq _ _,?_⟩
    rw [Message.encode_eq]
    cases version with
    | v1 => simp only [Message.octets,Message.get?,fieldsFor,first]
    | v2 =>
      have unset : ∀ field ∈ addedFields base extensions, values.get? field.name = none := by
        intro field added
        cases held : values.get? field.name with
        | none => rfl
        | some value =>
          obtain ⟨spec,inBase,same⟩ := only _ value held
          exact absurd same (added_names_new after added spec inBase)
      rw [octets_extended more unset,sent_append_zeros _ _ (octets_nonempty nonempty)]

/-- A payload that ends inside its first field, and a message with one field set. -/
theorem extension_compatible_cut :
    let base : List FieldSpec := [⟨"side",.numeric .uint8,false,0,true⟩,
      ⟨"count",.numeric .uint32,false,0,false⟩]
    let extensions : List FieldSpec := [⟨"gains",.numeric .uint16,false,2,true⟩]
    let old : Layout := ⟨"CUT",7,wireOrder (placed base)⟩
    let new : Layout := ⟨"CUT",7,wireOrder (placed (base ++ extensions))⟩
    (∀ spec ∈ extensions, spec.isExtension = true) ∧ build "CUT" 7 base = .ok old ∧
      build "CUT" 7 (base ++ extensions) = .ok new ∧ old.crcExtra = new.crcExtra ∧
      (∃ known received, Message.decode old [1,2] .v2 = .ok known ∧
        Message.decode new [1,2] .v2 = .ok received ∧
        known.get? "count" = received.get? "count" ∧
        received.get? "gains" = some (.array [.number .uint16 0,.number .uint16 0])) ∧
      ∃ payload, Message.encode ⟨old,[("count",.number .uint32 5)]⟩ .v2 = .ok payload ∧
        Message.encode ⟨new,[("count",.number .uint32 5)]⟩ .v2 = .ok payload := by
  intro base extensions old new
  have extended : ∀ spec ∈ extensions, spec.isExtension = true := by decide
  have builtOld : build "CUT" 7 base = .ok old := rfl
  have builtNew : build "CUT" 7 (base ++ extensions) = .ok new := rfl
  obtain ⟨crc,_,_,_,decoded,encoded⟩ := extension_compatible extended builtOld builtNew
  obtain ⟨known,received,knows,receives,restricted,zeros⟩ := decoded [1,2]
  refine ⟨extended,builtOld,builtNew,crc,⟨known,received,knows,receives,?_,?_⟩,?_⟩
  · exact restricted "count"
  · exact zeros (by decide) ⟨"gains",.numeric .uint16,false,2,true⟩ (by decide)
  · apply encoded [("count",.number .uint32 5)] .v2 _ (by decide)
    intro other value held
    obtain ⟨rfl,_⟩ := Prod.mk.inj (List.mem_singleton.mp (Bindings.get?_mem held))
    exact ⟨⟨"count",.numeric .uint32,false,0,false⟩,by decide,rfl⟩

end MavPayload.Layout
