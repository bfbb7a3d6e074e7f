import MavPayload.Proofs.Message.Reachable

/-! A message over the wire and back. What arrives is the wire form of each field that the
version carries, which is the message itself if the wire has room for all of it. -/
namespace MavPayload

namespace Message

/-- Whether a version carries a message whole: it carries the fields that are set and no
others, arrays are as long as declared, and texts fit their buffers. -/
structure CarriedWhole (message : Message) (version : Version) : Prop where
  set_iff : ∀ name, message.isSet name = true ↔
    ∃ field ∈ message.layout.fieldsFor version, field.name = name
  arrays : ∀ field ∈ message.layout.fieldsFor version, ∀ items,
    message.get? field.name = some (.array items) → items.length = field.length
  texts : ∀ field ∈ message.layout.fieldsFor version, ∀ text,
    message.get? field.name = some (.text text) →
      (Text.Utf8.encode text).length ≤ max field.length 1 ∧ '\x00' ∉ text.toList

end Message

namespace FieldSpec

theorem wireForm_eq_self {field : FieldSpec} {value : Value}
    (fits : value.matchesField field = true)
    (arrays : ∀ items, value = .array items → items.length = field.length)
    (texts : ∀ text, value = .text text →
      (Text.Utf8.encode text).length ≤ max field.length 1 ∧ '\x00' ∉ text.toList) :
    field.wireForm (some value) = value := by
  cases type : field.type with
  | char =>
    have single : field.isArray = false := by simp [isArray,isText,type]
    simp only [Value.matchesField,single,Bool.false_eq_true,if_false] at fits
    cases value with
    | text text =>
      obtain ⟨short,noZero⟩ := texts text rfl
      simp only [wireForm,type,Option.bind_some,Value.asText?,Option.getD_some,
        CharBuffer.carried_eq_self short noZero]
    | _ => simp [Value.isElementOf,type] at fits
  | numeric type =>
    by_cases long : 0 < field.length
    · have array : field.isArray = true := isArray_iff.mpr ⟨long,by simp [type]⟩
      simp only [Value.matchesField,array,if_true] at fits
      cases value with
      | array items =>
        have same := arrays items rfl
        simp [wireForm,type,Value.asArray?,← same]
      | _ => simp at fits
    · simp only [wireForm,type,long,if_false,Option.getD_some]

end FieldSpec

namespace Message

theorem readings_octets {layout : Layout} {message : Message} {specs : List FieldSpec}
    (lays : layout.Lays specs) (reachable : Reachable layout message) (version : Version) :
    readings (layout.fieldsFor version) (message.octets version) =
      (layout.fieldsFor version).map fun field =>
        (field.name,field.wireForm (message.get? field.name)) := by
  rw [readings,octets,reachable.layout_eq,Layout.segments_flatMap fun _ _ =>
    FieldSpec.octets_length _ _,List.map_map]
  apply List.map_congr_left
  intro field member
  have declared := (lays.fieldsFor_sublist version).subset member
  have fits : ∀ value, message.get? field.name = some value →
      value.matchesField field.toFieldSpec = true :=
    fun _ held => reachable.get?_matches lays declared held
  simp only [Function.comp_apply,FieldSpec.ofOctets_octets fits]

/-- A message that has been encoded is decoded, and each field that the version carries
holds its wire form, while no other field is set. If the version carries the message
whole, the two are the same. -/
theorem decode_encode_wireForm {name : String} {id : Nat} {specs : List FieldSpec}
    {layout : Layout} (built : Layout.build name id specs = .ok layout) {message : Message}
    (reachable : Reachable layout message) (version : Version) :
    ∃ payload received, message.encode version = .ok payload ∧
      decode layout payload version = .ok received ∧ received.layout = layout ∧
      (∀ field ∈ layout.fieldsFor version,
        received.get? field.name = some (field.wireForm (message.get? field.name))) ∧
      (∀ other, (∀ field ∈ layout.fieldsFor version, field.name ≠ other) →
        received.get? other = none) ∧
      (message.CarriedWhole version → ∀ other, received.get? other = message.get? other) := by
  obtain ⟨_,_,lays⟩ := Layout.build_ok_iff.mp built
  have full : (message.octets version).length = layout.payloadSize version := by
    rw [octets_length,reachable.layout_eq]
  have decoded : decode layout (sent version (message.octets version)) version = .ok
      { layout, values :=
        Bindings.insertAll [] (readings (layout.fieldsFor version) (message.octets version)) } := by
    rw [decode_eq,Layout.receive_sent full]
    rfl
  have values := decode_get? lays version (message.octets version)
  rw [readings_octets lays reachable] at values decoded
  have carried (field : Field) (member : field ∈ layout.fieldsFor version) :=
    (values field.name).trans (Bindings.get?_map (lays.fieldsFor_distinct version)
      (fun field => field.wireForm (message.get? field.name)) member)
  have absent (other : String) (none : ∀ field ∈ layout.fieldsFor version, field.name ≠ other) :=
    (values other).trans (Bindings.get?_eq_none (by simpa using none))
  refine ⟨_,_,encode_eq message version,decoded,rfl,carried,absent,?_⟩
  intro whole other
  cases held : message.get? other with
  | none =>
    apply absent
    intro field member same
    have unset := (whole.set_iff other).mpr ⟨field,by rwa [reachable.layout_eq],same⟩
    simp [isSet,held] at unset
  | some value =>
    obtain ⟨field,member,rfl⟩ := (whole.set_iff other).mp (by simp [isSet,held])
    have arrays := whole.arrays field member
    have texts := whole.texts field member
    rw [reachable.layout_eq] at member
    have declared := (lays.fieldsFor_sublist version).subset member
    rw [carried field member,held,FieldSpec.wireForm_eq_self
      (reachable.get?_matches lays declared held)]
    · rintro items rfl
      exact arrays items held
    · rintro text rfl
      exact texts text held

/-- A text that is cut inside a character, an array that is too short and a number that is
not set. -/
theorem decode_encode_wireForm_cut :
    let specs : List FieldSpec := [⟨"label",.char,false,3,false⟩,
      ⟨"count",.numeric .uint16,false,0,false⟩,⟨"gains",.numeric .uint8,false,2,true⟩]
    let layout : Layout := ⟨"CUT",7,Layout.wireOrder (Layout.placed specs)⟩
    let message : Message :=
      ⟨layout,[("label",.text "a€"),("gains",.array [.number .uint8 5])]⟩
    Layout.build "CUT" 7 specs = .ok layout ∧ Reachable layout message ∧
      ∃ payload received, message.encode .v2 = .ok payload ∧
        decode layout payload .v2 = .ok received ∧
        received.get? "label" = some (.text "a\uFFFD") ∧
        received.get? "count" = some (.number .uint16 0) ∧
        received.get? "gains" = some (.array [.number .uint8 5,.number .uint8 0]) := by
  intro specs layout message
  have built : Layout.build "CUT" 7 specs = .ok layout := rfl
  have labelled : Message.set { layout } "label" (.text "a€") =
      .ok ⟨layout,[("label",.text "a€")]⟩ := rfl
  have both : Message.set ⟨layout,[("label",.text "a€")]⟩ "gains" (.array [.number .uint8 5]) =
      .ok message := rfl
  have reachable : Reachable layout message := .set (.set .new labelled) both
  obtain ⟨payload,received,encoded,decoded,_,carried,_,_⟩ :=
    decode_encode_wireForm built reachable .v2
  have cut : CharBuffer.carried 3 "a€" = "a\uFFFD" := by decide +kernel
  refine ⟨built,reachable,payload,received,encoded,decoded,?_,?_,?_⟩
  · rw [← cut]
    exact carried ⟨⟨"label",.char,false,3,false⟩,0⟩ (by decide)
  · exact carried ⟨⟨"count",.numeric .uint16,false,0,false⟩,1⟩ (by decide)
  · exact carried ⟨⟨"gains",.numeric .uint8,false,2,true⟩,2⟩ (by decide)

end Message

end MavPayload
