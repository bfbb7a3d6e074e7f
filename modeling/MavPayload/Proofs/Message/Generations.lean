import MavPayload.Proofs.Layout.Order
import MavPayload.Proofs.Message.Reachable

/-! The two generations of one layout. The base fields stand in front of the extensions, so
a payload of the first generation is the beginning of one of the second, and what lies
behind it there is left out as zeros by a sender that knows no extension. -/
namespace MavPayload

namespace Layout

theorem receive_generations {layout : Layout} {payload : List UInt8}
    (whole : payload.length = layout.payloadSize .v1) :
    layout.receive .v1 payload = .ok payload ∧ layout.receive .v2 payload =
      .ok (payload ++ List.replicate (totalSize layout.extensions) 0) := by
  have size := layout.payloadSize_generations
  refine ⟨if_pos whole,?_⟩
  simp only [receive]
  rw [List.take_of_length_le (by omega),whole,size,Nat.add_sub_cancel_left]

end Layout

namespace Message

theorem octets_generations (message : Message) :
    message.octets .v2 = message.octets .v1 ++ message.layout.extensions.flatMap fun field =>
      field.octets (message.get? field.name) := by
  rw [octets,Layout.fieldsFor,message.layout.fields_generations,List.flatMap_append]
  rfl

theorem octets_base (message : Message) :
    (message.octets .v2).take (message.layout.payloadSize .v1) = message.octets .v1 := by
  rw [octets_generations,List.take_left' (octets_length message .v1)]

variable {layout : Layout} {specs : List FieldSpec}

theorem readings_generations (payload : List UInt8)
    (whole : payload.length = layout.payloadSize .v1) :
    readings layout.fields (payload ++ List.replicate (Layout.totalSize layout.extensions) 0) =
      readings layout.baseFields payload ++ layout.extensions.map fun field =>
        (field.name,Value.zeroFor field.toFieldSpec) := by
  have base : payload.length = Layout.totalSize layout.baseFields := whole
  rw [layout.fields_generations,readings_append,List.take_left' base,List.drop_left' base,
    readings_zeros]

theorem readings_extension (lays : layout.Lays specs) (payload : List UInt8) {field : Field}
    (declared : field ∈ layout.fields) (extended : field.isExtension = true) :
    (readings layout.baseFields payload).get? field.name = none ∧
      Bindings.get? (layout.extensions.map fun field =>
        (field.name,Value.zeroFor field.toFieldSpec)) field.name =
          some (Value.zeroFor field.toFieldSpec) := by
  have base : field ∉ layout.baseFields := by
    intro member
    have carried : field ∈ layout.fieldsFor .v1 := member
    have plain := (lays.mem_fieldsFor.mp carried).2 rfl
    rw [extended] at plain
    cases plain
  have names := lays.names_distinct
  rw [layout.fields_generations,List.map_append] at names
  rw [layout.fields_generations,List.mem_append] at declared
  have member := declared.resolve_left base
  obtain ⟨_,distinct,apart⟩ := List.nodup_append'.mp names
  constructor
  · apply Bindings.get?_eq_none
    rw [readings_names]
    exact fun present => apart present (List.mem_map_of_mem member)
  · exact Bindings.get?_map distinct (fun field => Value.zeroFor field.toFieldSpec) member

theorem decode_generations (lays : layout.Lays specs) {payload : List UInt8}
    (whole : payload.length = layout.payloadSize .v1) :
    ∃ first second, decode layout payload .v1 = .ok first ∧
      decode layout payload .v2 = .ok second ∧
      (∀ name, first.get? name = (readings layout.baseFields payload).get? name) ∧
      ∀ name, second.get? name = ((readings layout.baseFields payload).get? name).or
        (Bindings.get? (layout.extensions.map fun field =>
          (field.name,Value.zeroFor field.toFieldSpec)) name) := by
  obtain ⟨short,long⟩ := Layout.receive_generations whole
  refine ⟨_,_,by rw [decode_eq,short]; rfl,by rw [decode_eq,long]; rfl,?_,?_⟩
  · exact fun name => decode_get? lays .v1 payload name
  · intro name
    rw [decode_get? lays .v2,Layout.fieldsFor,readings_generations payload whole,
      Bindings.get?_append]

/-- A payload of the first generation is the beginning of the one that the same message has
in the second, once that is filled up with zeros again, whatever its extensions hold. Read
in either generation, a payload of the first gives the base fields the same values; the
extensions are not set in one and zero in the other. -/
theorem generations_agree {name : String} {id : Nat}
    (built : Layout.build name id specs = .ok layout) :
    (∀ message, Reachable layout message → ∃ first second, message.encode .v1 = .ok first ∧
      message.encode .v2 = .ok second ∧ second.length ≤ layout.payloadSize .v2 ∧
      first = (second ++ List.replicate (layout.payloadSize .v2 - second.length) 0).take
        (layout.payloadSize .v1)) ∧
    ∀ payload : List UInt8, payload.length = layout.payloadSize .v1 → ∃ first second,
      decode layout payload .v1 = .ok first ∧ decode layout payload .v2 = .ok second ∧
      ∀ field ∈ layout.fields,
        (field.isExtension = false → ∃ value, first.get? field.name = some value ∧
          second.get? field.name = some value) ∧
        (field.isExtension = true → first.get? field.name = none ∧
          second.get? field.name = some (Value.zeroFor field.toFieldSpec)) := by
  obtain ⟨_,_,lays⟩ := Layout.build_ok_iff.mp built
  constructor
  · intro message reachable
    obtain ⟨shorter,whole⟩ := sent_zeros .v2 (message.octets .v2)
    have size := octets_length message .v2
    rw [size,reachable.layout_eq] at shorter whole
    refine ⟨_,_,encode_eq message .v1,encode_eq message .v2,shorter,?_⟩
    rw [whole,← reachable.layout_eq,octets_base,sent]
  · intro payload whole
    obtain ⟨first,second,short,long,base,all⟩ := decode_generations lays whole
    refine ⟨first,second,short,long,fun field declared => ⟨fun plain => ?_,fun extended => ?_⟩⟩
    · have carried : field ∈ layout.fieldsFor .v1 :=
        lays.mem_fieldsFor.mpr ⟨declared,fun _ => plain⟩
      have member : field ∈ layout.baseFields := carried
      obtain ⟨value,held⟩ := readings_get? payload member
      exact ⟨value,(base _).trans held,by rw [all,held,Option.some_or]⟩
    · obtain ⟨absent,zero⟩ := readings_extension lays payload declared extended
      rw [base,all,absent,Option.none_or]
      exact ⟨rfl,zero⟩

/-- An extension of the widest type, declared first, and a base field that ends in a zero,
which the second generation sends only because of the extension behind it. -/
theorem generations_agree_cut :
    let specs : List FieldSpec := [⟨"stamp",.numeric .uint64,false,0,true⟩,
      ⟨"count",.numeric .uint16,false,0,false⟩,⟨"label",.char,false,3,false⟩]
    let layout : Layout := ⟨"CUT",7,Layout.wireOrder (Layout.placed specs)⟩
    let message : Message :=
      ⟨layout,[("count",.number .uint16 5),("label",.text "a"),("stamp",.number .uint64 6)]⟩
    Layout.build "CUT" 7 specs = .ok layout ∧ Reachable layout message ∧
      (∃ first second, message.encode .v1 = .ok first ∧ message.encode .v2 = .ok second ∧
        second.length ≤ 13 ∧ first = (second ++ List.replicate (13 - second.length) 0).take 5) ∧
      [5,0,97,0,0].length = layout.payloadSize .v1 ∧
      ∃ first second, decode layout [5,0,97,0,0] .v1 = .ok first ∧
        decode layout [5,0,97,0,0] .v2 = .ok second ∧
        (∃ value, first.get? "count" = some value ∧ second.get? "count" = some value) ∧
        first.get? "stamp" = none ∧ second.get? "stamp" = some (.number .uint64 0) := by
  intro specs layout message
  have built : Layout.build "CUT" 7 specs = .ok layout := rfl
  have counted : Message.set { layout } "count" (.number .uint16 5) =
      .ok ⟨layout,[("count",.number .uint16 5)]⟩ := rfl
  have labelled : Message.set ⟨layout,[("count",.number .uint16 5)]⟩ "label" (.text "a") =
      .ok ⟨layout,[("count",.number .uint16 5),("label",.text "a")]⟩ := rfl
  have stamped : Message.set ⟨layout,[("count",.number .uint16 5),("label",.text "a")]⟩ "stamp"
      (.number .uint64 6) = .ok message := rfl
  have reachable : Reachable layout message := .set (.set (.set .new counted) labelled) stamped
  obtain ⟨written,read⟩ := generations_agree built
  obtain ⟨first,second,short,long,fields⟩ := read [5,0,97,0,0] rfl
  refine ⟨built,reachable,written message reachable,rfl,first,second,short,long,?_,?_⟩
  · exact (fields ⟨⟨"count",.numeric .uint16,false,0,false⟩,1⟩ (by decide)).1 rfl
  · exact (fields ⟨⟨"stamp",.numeric .uint64,false,0,true⟩,0⟩ (by decide)).2 rfl

end Message

end MavPayload
