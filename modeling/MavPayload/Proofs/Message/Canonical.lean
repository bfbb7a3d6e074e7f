import MavPayload.Proofs.Message.Relay

/-! Payloads that come back. Any octets at all may stand in numbers; a payload is written again
as it was received, with the zeros at its end left out or filled in, if its texts are legible
and not otherwise. -/
namespace MavPayload

namespace CharBuffer

/-- Whether a buffer holds a text without zeros and behind it nothing but zeros. -/
def Canonical (buffer : List UInt8) : Prop :=
  ∃ (text : String) (zeros : Nat), '\x00' ∉ text.toList ∧
    buffer = Text.Utf8.encode text ++ List.replicate zeros 0

theorem Canonical.legible {buffer : List UInt8} (canonical : Canonical buffer) :
    Legible buffer := by
  obtain ⟨text,zeros,noZero,rfl⟩ := canonical
  refine ⟨text.toList,[],zeros,noZero,List.nil_prefix,Or.inl rfl,?_⟩
  rw [List.append_nil]
  rfl

end CharBuffer

namespace FieldSpec

/-- The octets of a field are written again as they were read, unless they are a text that is
not legible. -/
theorem octets_ofOctets_iff {field : FieldSpec} {bytes : List UInt8}
    (sized : bytes.length = field.size) : field.octets (some (field.ofOctets bytes)) = bytes ↔
      (field.type = .char → CharBuffer.Legible bytes) := by
  cases kind : field.type with
  | numeric type =>
    exact iff_of_true (octets_ofOctets_numeric kind sized) fun char => nomatch char
  | char =>
    have single : field.isArray = false := by simp [isArray,isText,kind]
    have room : max field.length 1 = bytes.length := by
      rw [sized,size_of_single single,elementSize,kind]
    have read : field.ofOctets bytes = .text (CharBuffer.decode bytes.length bytes) := by
      simp only [ofOctets,single,Bool.false_eq_true,if_false,decodeElement,elementSize,kind,room]
    rw [read,octets_text kind,room,CharBuffer.encode_decode_iff]
    exact ⟨fun legible _ => legible,fun legible => legible rfl⟩

end FieldSpec

namespace Layout

/-- A payload cut or filled up with zeros to the size of a version. -/
def fitted (layout : Layout) (version : Version) (payload : List UInt8) : List UInt8 :=
  payload.take (layout.payloadSize version) ++
    List.replicate (layout.payloadSize version - payload.length) 0

variable {layout : Layout} {version : Version} {payload : List UInt8} {fields : List Field}

theorem fitted_of_full (full : payload.length = layout.payloadSize version) :
    layout.fitted version payload = payload := by
  rw [fitted,full,Nat.sub_self,List.replicate_zero,List.append_nil,
    List.take_of_length_le (Nat.le_of_eq full)]

theorem receive_fitted (fits : version = .v1 → payload.length = layout.payloadSize .v1) :
    layout.receive version payload = .ok (layout.fitted version payload) := by
  cases version with
  | v1 => simp only [receive,fits rfl,if_true,fitted_of_full (fits rfl)]
  | v2 => rfl

theorem segments_sized (full : payload.length = totalSize fields) :
    ∀ part ∈ segments fields payload, part.2.length = part.1.size := by
  induction fields generalizing payload with
  | nil => simp [segments]
  | cons field rest ih =>
    rw [totalSize] at full
    intro part member
    rcases List.mem_cons.mp member with rfl | member
    · exact List.length_take_of_le (by omega)
    · exact ih (by rw [List.length_drop]; omega) part member

theorem segments_joined (full : payload.length = totalSize fields) :
    (segments fields payload).flatMap Prod.snd = payload := by
  induction fields generalizing payload with
  | nil => exact (List.eq_nil_of_length_eq_zero full).symm
  | cons field rest ih =>
    rw [totalSize] at full
    rw [segments,List.flatMap_cons,ih (by rw [List.length_drop]; omega),List.take_append_drop]

end Layout

namespace Message

variable {layout : Layout} {specs : List FieldSpec} {version : Version} {payload full : List UInt8}

theorem octets_readings (lays : layout.Lays specs) (version : Version) (full : List UInt8) :
    octets { layout, values :=
      Bindings.insertAll [] (readings (layout.fieldsFor version) full) } version =
      (Layout.segments (layout.fieldsFor version) full).flatMap fun part =>
        part.1.octets (some (part.1.ofOctets part.2)) := by
  have fields := Layout.segments_fields (layout.fieldsFor version) full
  have names : ((Layout.segments (layout.fieldsFor version) full).map fun part =>
      part.1.name).Nodup := by
    have distinct := lays.fieldsFor_distinct version
    rwa [← fields,List.map_map] at distinct
  have overParts (written : Field → List UInt8) : (layout.fieldsFor version).flatMap written =
      (Layout.segments (layout.fieldsFor version) full).flatMap fun part => written part.1 := by
    rw [← congrArg (List.flatMap written) fields,List.flatMap_map]
  rw [octets,overParts]
  apply List.flatMap_congr
  intro part member
  rw [decode_get? lays,readings,Bindings.get?_map names (fun part => part.1.ofOctets part.2) member]

/-- A payload that is received is sent again as it was, exactly if all its texts are legible. -/
theorem encode_decode_iff (lays : layout.Lays specs)
    (received : layout.receive version payload = .ok full) :
    ∃ message, decode layout payload version = .ok message ∧
      (message.encode version = .ok (sent version full) ↔
        ∀ part ∈ Layout.segments (layout.fieldsFor version) full,
          part.1.type = .char → CharBuffer.Legible part.2) := by
  have length : full.length = Layout.totalSize (layout.fieldsFor version) :=
    Layout.receive_length received
  have sized := Layout.segments_sized length
  let again : Message :=
    { layout, values := Bindings.insertAll [] (readings (layout.fieldsFor version) full) }
  have sizes : (again.octets version).length = full.length := by
    rw [octets_length,Layout.receive_length received]
  -- both payloads are cut at the same places, so they are equal part by part
  have parts : again.octets version = full ↔
      ∀ part ∈ Layout.segments (layout.fieldsFor version) full,
        part.1.octets (some (part.1.ofOctets part.2)) = part.2 := by
    have places := flatMap_inj fun part
        (member : part ∈ Layout.segments (layout.fieldsFor version) full) =>
      show (part.1.octets (some (part.1.ofOctets part.2))).length = (Prod.snd part).length by
        rw [FieldSpec.octets_length,sized part member]
    rwa [← octets_readings lays,Layout.segments_joined length] at places
  refine ⟨again,by rw [decode_eq,received]; rfl,?_⟩
  rw [encode_eq,Except.ok.injEq,sent_inj sizes,parts]
  exact forall₂_congr fun part member => FieldSpec.octets_ofOctets_iff (sized part member)

/-- A payload whose texts are followed only by zeros is decoded, and the message is encoded to
the payload: the same octets in the first generation, and in the second the octets that were
known, without the zeros at their end. -/
theorem encode_decode_canonical {name : String} {id : Nat}
    (built : Layout.build name id specs = .ok layout)
    (fits : version = .v1 → payload.length = layout.payloadSize .v1)
    (canonical : ∀ part ∈
      Layout.segments (layout.fieldsFor version) (layout.fitted version payload),
        part.1.type = .char → CharBuffer.Canonical part.2) :
    ∃ message, decode layout payload version = .ok message ∧
      (version = .v1 → message.encode .v1 = .ok payload) ∧
      (version = .v2 → message.encode .v2 = .ok (sent .v2 (layout.fitted .v2 payload))) := by
  obtain ⟨_,_,lays⟩ := Layout.build_ok_iff.mp built
  obtain ⟨message,decoded,again⟩ := encode_decode_iff lays (Layout.receive_fitted fits)
  have encoded := again.mpr fun part member char => (canonical part member char).legible
  refine ⟨message,decoded,?_,?_⟩
  · rintro rfl
    rwa [Layout.fitted_of_full (fits rfl)] at encoded
  · rintro rfl
    exact encoded

/-- The octets of a signaling NaN, a text and an array. Of the last three octets that are
received in the second generation one is a zero that is left out, and two belong to no field. -/
theorem encode_decode_canonical_longer :
    let specs : List FieldSpec := [⟨"label",.char,false,3,false⟩,
      ⟨"ratio",.numeric .float,false,0,false⟩,⟨"gains",.numeric .uint8,false,2,true⟩]
    let layout : Layout := ⟨"CUT",7,Layout.wireOrder (Layout.placed specs)⟩
    Layout.build "CUT" 7 specs = .ok layout ∧
      (∃ message, decode layout [1,0,0x80,0x7F,0x61,0,0] .v1 = .ok message ∧
        message.encode .v1 = .ok [1,0,0x80,0x7F,0x61,0,0]) ∧
      ∃ message, decode layout [1,0,0x80,0x7F,0x61,0,0,5,0,9,9] .v2 = .ok message ∧
        message.encode .v2 = .ok [1,0,0x80,0x7F,0x61,0,0,5] := by
  intro specs layout
  have built : Layout.build "CUT" 7 specs = .ok layout := rfl
  let ratio : Field := ⟨⟨"ratio",.numeric .float,false,0,false⟩,1⟩
  let label : Field := ⟨⟨"label",.char,false,3,false⟩,0⟩
  let gains : Field := ⟨⟨"gains",.numeric .uint8,false,2,true⟩,2⟩
  have canonical : CharBuffer.Canonical [0x61,0,0] := ⟨"a",2,by decide,rfl⟩
  have base : ∀ part ∈ Layout.segments (layout.fieldsFor .v1)
      (layout.fitted .v1 [1,0,0x80,0x7F,0x61,0,0]),
        part.1.type = .char → CharBuffer.Canonical part.2 := by
    change ∀ part ∈ [(ratio,[1,0,0x80,0x7F]),(label,[0x61,0,0])], _
    simp [ratio,label,canonical]
  have all : ∀ part ∈ Layout.segments (layout.fieldsFor .v2)
      (layout.fitted .v2 [1,0,0x80,0x7F,0x61,0,0,5,0,9,9]),
        part.1.type = .char → CharBuffer.Canonical part.2 := by
    change ∀ part ∈ [(ratio,[1,0,0x80,0x7F]),(label,[0x61,0,0]),(gains,[5,0])], _
    simp [ratio,label,gains,canonical]
  obtain ⟨first,decodedFirst,encodedFirst,_⟩ :=
    encode_decode_canonical built (fun _ => rfl) base
  obtain ⟨second,decodedSecond,_,encodedSecond⟩ :=
    encode_decode_canonical built (by nofun) all
  have kept : sent .v2 (layout.fitted .v2 [1,0,0x80,0x7F,0x61,0,0,5,0,9,9]) =
      [1,0,0x80,0x7F,0x61,0,0,5] := by decide +kernel
  rw [kept] at encodedSecond
  exact ⟨built,⟨first,decodedFirst,encodedFirst rfl⟩,second,decodedSecond,encodedSecond rfl⟩

end Message

end MavPayload
