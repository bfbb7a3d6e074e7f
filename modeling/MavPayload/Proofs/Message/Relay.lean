import MavPayload.Proofs.CharBuffer
import MavPayload.Proofs.Message.RoundTrip

/-! A message that is passed on: what has been received is sent again. Numbers pass as they
are, and so does a text if its buffer was legible. The octets may change once more where a
text was torn, but the message that is received does not change again. -/
namespace MavPayload

namespace FieldSpec

theorem octets_wireForm_numeric {field : FieldSpec} {type : NumericType}
    (numeric : field.type = .numeric type) (held : Option Value) :
    field.octets (some (field.wireForm held)) = field.octets held := by
  by_cases long : 0 < field.length
  · have array : field.isArray = true := isArray_iff.mpr ⟨long,by simp [numeric]⟩
    simp only [octets,array,if_true,wireForm,numeric,long,Option.bind_some,Value.asArray?,
      Option.getD_some,Value.zero]
    apply List.flatMap_congr
    intro place member
    have inside := List.mem_range.mp member
    congr 1
    generalize (held.bind Value.asArray?).getD [] = items
    by_cases given : place < items.length
    · rw [List.getElem?_append_left (by rw [List.length_take]; omega),List.getElem?_take,
        if_pos inside]
    · rw [List.getElem?_append_right (by rw [List.length_take]; omega),
        List.getElem?_eq_none (by omega : items.length ≤ place),List.getElem?_replicate]
      split <;> rfl
  · have single : field.isArray = false := by simp [isArray,long]
    cases held with
    | some value => simp only [wireForm,numeric,long,if_false,Option.getD_some]
    | none =>
      have zero := encodeElement_zero field
      rw [numeric,Value.zero] at zero
      rw [octets_none]
      simp only [octets,single,Bool.false_eq_true,if_false,wireForm,numeric,long,Option.getD_none,
        Option.map_some,Option.getD_some,zero,size_of_single single]

theorem wireForm_wireForm (field : FieldSpec) (held : Option Value) :
    field.wireForm (some (field.wireForm held)) = field.wireForm held := by
  cases type : field.type with
  | char =>
    simp only [wireForm,type,Option.bind_some,Value.asText?,Option.getD_some,
      CharBuffer.carried_carried]
  | numeric own =>
    by_cases long : 0 < field.length
    · simp only [wireForm,type,long,if_true,Option.bind_some,Value.asArray?,Option.getD_some]
      generalize (held.bind Value.asArray?).getD [] = items
      have size : (items.take field.length ++
          List.replicate (field.length - items.length) (Value.number own 0)).length =
          field.length := by
        rw [List.length_append,List.length_take,List.length_replicate]
        omega
      rw [List.take_of_length_le (Nat.le_of_eq size),size,Nat.sub_self,List.replicate_zero,
        List.append_nil]
    · simp only [wireForm,type,long,if_false,Option.getD_some]

/-- What a field is received as is written as the field was, if a text buffer was legible and
not otherwise. -/
theorem octets_wireForm_iff {field : FieldSpec} {held : Option Value}
    (fits : ∀ value, held = some value → value.matchesField field = true) :
    field.octets (some (field.wireForm held)) = field.octets held ↔
      ∀ text, held = some (.text text) →
        CharBuffer.Legible (CharBuffer.encode (max field.length 1) text) := by
  cases type : field.type with
  | numeric own =>
    refine iff_of_true (octets_wireForm_numeric type held) ?_
    rintro text rfl
    have known := fits _ rfl
    cases array : field.isArray <;>
      simp [Value.matchesField,array,Value.isElementOf,type] at known
  | char =>
    have single : field.isArray = false := by simp [isArray,isText,type]
    cases held with
    | none =>
      refine iff_of_true ?_ (by simp)
      have zero := encodeElement_zero field
      rw [type,Value.zero,encodeElement_text type] at zero
      simp only [wireForm,type,Option.bind_none,Option.getD_none,CharBuffer.carried_empty]
      rw [octets_text type,zero,octets_none,size_of_single single]
    | some value =>
      have known := fits value rfl
      simp only [Value.matchesField,single,Bool.false_eq_true,if_false] at known
      cases value with
      | text text =>
        simp only [wireForm,type,Option.bind_some,Value.asText?,Option.getD_some,octets_text type,
          Option.some.injEq,Value.text.injEq,forall_eq',CharBuffer.encode_carried_iff]
      | _ => simp [Value.isElementOf,type] at known

end FieldSpec

namespace Message

variable {layout : Layout} {message : Message} {specs : List FieldSpec}

/-- What is received of a message that has been sent. -/
def inWireForm (message : Message) (version : Version) : Message where
  layout := message.layout
  values := Bindings.insertAll [] ((message.layout.fieldsFor version).map fun field =>
    (field.name,field.wireForm (message.get? field.name)))

theorem inWireForm_get? (lays : message.layout.Lays specs) {version : Version} {field : Field}
    (carried : field ∈ message.layout.fieldsFor version) :
    (message.inWireForm version).get? field.name =
      some (field.wireForm (message.get? field.name)) := by
  have distinct := lays.fieldsFor_distinct version
  have names : Bindings.Distinct ((message.layout.fieldsFor version).map fun field =>
      (field.name,field.wireForm (message.get? field.name))) := by
    rwa [Bindings.Distinct,List.map_map]
  rw [Message.get?,inWireForm,Bindings.get?_insertAll names,
    Bindings.get?_map distinct (fun field => field.wireForm (message.get? field.name)) carried]
  rfl

theorem inWireForm_inWireForm (lays : message.layout.Lays specs) (version : Version) :
    (message.inWireForm version).inWireForm version = message.inWireForm version := by
  have values : ((message.layout.fieldsFor version).map fun field =>
        (field.name,field.wireForm ((message.inWireForm version).get? field.name))) =
      (message.layout.fieldsFor version).map fun field =>
        (field.name,field.wireForm (message.get? field.name)) := by
    apply List.map_congr_left
    intro field carried
    rw [inWireForm_get? lays carried,FieldSpec.wireForm_wireForm]
  exact congrArg (fun values => Message.mk message.layout (Bindings.insertAll [] values)) values

theorem decode_inWireForm (lays : layout.Lays specs) (reachable : Reachable layout message)
    (version : Version) : decode layout (sent version (message.octets version)) version =
      .ok (message.inWireForm version) := by
  have own := reachable.layout_eq
  have full : (message.octets version).length = layout.payloadSize version := by
    rw [octets_length,own]
  rw [decode_eq,Layout.receive_sent full,Except.map,readings_octets lays reachable,inWireForm,own]

theorem decode_sent (lays : layout.Lays specs) (reachable : Reachable layout message)
    (version : Version) :
    ∃ received, decode layout (sent version (message.octets version)) version = .ok received ∧
      received.layout = layout ∧ ∀ field ∈ layout.fieldsFor version,
        received.get? field.name = some (field.wireForm (message.get? field.name)) := by
  refine ⟨_,decode_inWireForm lays reachable version,reachable.layout_eq,?_⟩
  cases reachable.layout_eq
  exact fun field carried => inWireForm_get? lays carried

/-- A message that has been sent is received, and sending it again gives the same octets
exactly if the buffer of every text that the version carries was legible. -/
theorem encode_decode_encode_iff {name : String} {id : Nat}
    (built : Layout.build name id specs = .ok layout) (reachable : Reachable layout message)
    (version : Version) :
    ∃ payload received, message.encode version = .ok payload ∧
      decode layout payload version = .ok received ∧
      (received.encode version = .ok payload ↔ ∀ field ∈ layout.fieldsFor version, ∀ text,
        message.get? field.name = some (.text text) →
          CharBuffer.Legible (CharBuffer.encode (max field.length 1) text)) := by
  obtain ⟨_,_,lays⟩ := Layout.build_ok_iff.mp built
  obtain ⟨received,decoded,same,values⟩ := decode_sent lays reachable version
  have lengths : (received.octets version).length = (message.octets version).length := by
    rw [octets_length,octets_length,same,reachable.layout_eq]
  refine ⟨_,received,encode_eq message version,decoded,?_⟩
  rw [encode_eq,Except.ok.injEq,sent_inj lengths,octets,octets,same,reachable.layout_eq,
    flatMap_inj fun _ _ => by rw [FieldSpec.octets_length,FieldSpec.octets_length]]
  apply forall₂_congr
  intro field carried
  have declared := (lays.fieldsFor_sublist version).subset carried
  rw [values field carried]
  exact FieldSpec.octets_wireForm_iff fun _ held => reachable.get?_matches lays declared held

/-- A text that is cut inside a character which begins like a replacement character. -/
theorem encode_decode_encode_iff_cut :
    let specs : List FieldSpec := [⟨"label",.char,false,3,false⟩,
      ⟨"gains",.numeric .uint8,false,2,true⟩]
    let layout : Layout := ⟨"CUT",7,Layout.wireOrder (Layout.placed specs)⟩
    let message : Message :=
      ⟨layout,[("label",.text "a\uFFFC"),("gains",.array [.number .uint8 5])]⟩
    Layout.build "CUT" 7 specs = .ok layout ∧ Reachable layout message ∧
      ∃ payload received, message.encode .v2 = .ok payload ∧
        decode layout payload .v2 = .ok received ∧ received.encode .v2 = .ok payload := by
  intro specs layout message
  have built : Layout.build "CUT" 7 specs = .ok layout := rfl
  have labelled : Message.set { layout } "label" (.text "a\uFFFC") =
      .ok ⟨layout,[("label",.text "a\uFFFC")]⟩ := rfl
  have both : Message.set ⟨layout,[("label",.text "a\uFFFC")]⟩ "gains"
      (.array [.number .uint8 5]) = .ok message := rfl
  have reachable : Reachable layout message := .set (.set .new labelled) both
  have legible : CharBuffer.Legible (CharBuffer.encode 3 "a\uFFFC") :=
    ⟨['a'],[0xEF,0xBF],0,by decide,by decide,Or.inr rfl,by decide⟩
  obtain ⟨payload,received,encoded,decoded,again⟩ :=
    encode_decode_encode_iff built reachable .v2
  refine ⟨built,reachable,payload,received,encoded,decoded,again.mpr ?_⟩
  intro field carried text held
  have fields : layout.fieldsFor .v2 = [⟨⟨"label",.char,false,3,false⟩,0⟩,
      ⟨⟨"gains",.numeric .uint8,false,2,true⟩,1⟩] := rfl
  rw [fields,List.mem_cons,List.mem_singleton] at carried
  rcases carried with rfl | rfl
  · cases held
    exact legible
  · cases held

/-- The octets of a torn character are not those of the replacement character that it is
read as, so a message with one is passed on changed. -/
theorem encode_decode_encode_torn :
    let specs : List FieldSpec := [⟨"label",.char,false,3,false⟩]
    let layout : Layout := ⟨"CUT",7,Layout.wireOrder (Layout.placed specs)⟩
    let message : Message := ⟨layout,[("label",.text "a€")]⟩
    Layout.build "CUT" 7 specs = .ok layout ∧ Reachable layout message ∧
      ∃ received, message.encode .v1 = .ok [0x61,0xE2,0x82] ∧
        decode layout [0x61,0xE2,0x82] .v1 = .ok received ∧
        received.encode .v1 = .ok [0x61,0xEF,0xBF] := by
  intro specs layout message
  have labelled : Message.set { layout } "label" (.text "a€") = .ok message := rfl
  refine ⟨rfl,.set .new labelled,_,?_,rfl,?_⟩
  · decide +kernel
  · decide +kernel

/-- A message over the wire: what a message is encoded to, decoded. -/
def trip (layout : Layout) (version : Version) (message : Message) : Except Error Message := do
  decode layout (← message.encode version) version

theorem trip_eq (lays : layout.Lays specs) (reachable : Reachable layout message)
    (version : Version) :
    message.trip layout version = .ok (message.inWireForm version) := by
  simp only [trip,encode_eq,bind,Except.bind,decode_inWireForm lays reachable]

/-- A message that has been received once stays as it is over the wire. -/
theorem trip_fixed {name : String} {id : Nat} (built : Layout.build name id specs = .ok layout)
    (reachable : Reachable layout message) (version : Version) :
    ∃ once, message.trip layout version = .ok once ∧ once.trip layout version = .ok once := by
  obtain ⟨_,_,lays⟩ := Layout.build_ok_iff.mp built
  have once : Reachable layout (message.inWireForm version) :=
    .decode (decode_inWireForm lays reachable version)
  refine ⟨_,trip_eq lays reachable version,?_⟩
  rw [trip_eq lays once,inWireForm_inWireForm]
  rwa [reachable.layout_eq]

/-- A message from octets that are no text. The buffer has room for one octet of the second
replacement character, which is read as a replacement character every time. -/
theorem trip_fixed_torn :
    let specs : List FieldSpec := [⟨"label",.char,false,6,false⟩,
      ⟨"gains",.numeric .uint8,false,2,true⟩]
    let layout : Layout := ⟨"CUT",7,Layout.wireOrder (Layout.placed specs)⟩
    let message : Message := ⟨layout,[("label",.text "a\uFFFDb\uFFFDc")]⟩
    Layout.build "CUT" 7 specs = .ok layout ∧
      decode layout [0x61,0xFF,0x62,0xC3,0x63,0] .v1 = .ok message ∧
      ∃ once, message.trip layout .v2 = .ok once ∧
        once.get? "label" = some (.text "a\uFFFDb\uFFFD") ∧ once.trip layout .v2 = .ok once := by
  intro specs layout message
  have built : Layout.build "CUT" 7 specs = .ok layout := rfl
  have decoded : decode layout [0x61,0xFF,0x62,0xC3,0x63,0] .v1 = .ok message := by
    have text : CharBuffer.decode 6 [0x61,0xFF,0x62,0xC3,0x63,0] = "a\uFFFDb\uFFFDc" := by
      decide +kernel
    have read : decode layout [0x61,0xFF,0x62,0xC3,0x63,0] .v1 =
        .ok ⟨layout,[("label",.text (CharBuffer.decode 6 [0x61,0xFF,0x62,0xC3,0x63,0]))]⟩ := rfl
    rw [read,text]
  obtain ⟨once,arrives,again⟩ := trip_fixed built (.decode decoded) .v2
  obtain ⟨_,_,lays⟩ := Layout.build_ok_iff.mp built
  have label : once.get? "label" = some (.text (CharBuffer.carried 6 "a\uFFFDb\uFFFDc")) := by
    rw [trip_eq lays (.decode decoded)] at arrives
    cases arrives
    rfl
  have cut : CharBuffer.carried 6 "a\uFFFDb\uFFFDc" = "a\uFFFDb\uFFFD" := by decide +kernel
  rw [cut] at label
  exact ⟨built,decoded,once,arrives,label,again⟩

end Message

end MavPayload
