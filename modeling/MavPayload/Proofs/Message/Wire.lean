import MavPayload.Proofs.Bindings
import MavPayload.Proofs.Codec
import MavPayload.Proofs.Field
import MavPayload.Proofs.Frame
import MavPayload.Proofs.Layout.Build

/-! The codec of messages as two equations. Encoding sends the concatenation of the octets
of the fields; decoding gives every field the value of its own part of the payload. -/
namespace MavPayload.Message

/-- The payload of a message before it is shortened. -/
def octets (message : Message) (version : Version) : List UInt8 :=
  (message.layout.fieldsFor version).flatMap fun field => field.octets (message.get? field.name)

def readings (fields : List Field) (payload : List UInt8) : Bindings Value :=
  (Layout.segments fields payload).map fun part => (part.1.name,part.1.ofOctets part.2)

@[simp] theorem readings_names (fields : List Field) (payload : List UInt8) :
    (readings fields payload).map Prod.fst = fields.map fun field => field.name := by
  have names := congrArg (List.map fun field => field.name) (Layout.segments_fields fields payload)
  rw [List.map_map] at names
  rw [readings,List.map_map]
  exact names

theorem readings_append (first second : List Field) (payload : List UInt8) :
    readings (first ++ second) payload =
      readings first (payload.take (Layout.totalSize first)) ++
        readings second (payload.drop (Layout.totalSize first)) := by
  simp only [readings,Layout.segments_append,List.map_append]
  rw [Layout.segments_take _ _ _ (Nat.le_refl _)]

theorem readings_get? {fields : List Field} (payload : List UInt8) {field : Field}
    (member : field ∈ fields) : ∃ value, (readings fields payload).get? field.name = some value := by
  apply Bindings.exists_get?
  rw [readings_names]
  exact List.mem_map_of_mem member

theorem readings_zeros (fields : List Field) :
    readings fields (List.replicate (Layout.totalSize fields) 0) =
      fields.map fun field => (field.name,Value.zeroFor field.toFieldSpec) := by
  rw [readings,Layout.segments_zeros _ _ (Nat.le_refl _),List.map_map]
  simp only [Function.comp_def,FieldSpec.ofOctets_zeros]

theorem octets_length (message : Message) (version : Version) :
    (message.octets version).length = message.layout.payloadSize version :=
  Layout.flatMap_length fun _ _ => FieldSpec.octets_length _ _

/-- Encoding never leaves the payload. -/
theorem encode_eq (message : Message) (version : Version) :
    message.encode version = .ok (sent version (message.octets version)) :=
  Layout.encodeWith_octets (fun field _ => writeField_puts field _)
    fun _ _ => FieldSpec.octets_length _ _

/-- Decoding fails only where the payload has the wrong length. -/
theorem decode_eq (layout : Layout) (payload : List UInt8) (version : Version) :
    decode layout payload version = (layout.receive version payload).map fun full =>
      { layout, values := Bindings.insertAll [] (readings (layout.fieldsFor version) full) } := by
  simp only [decode,Layout.decodeWith]
  cases received : layout.receive version payload with
  | error error => rfl
  | ok full =>
    have scanned := Layout.scan_segments (fun field _ values => readInto_yields field values)
      ([] : Bindings Value) (Layout.receive_length received)
    simp only [bind,Except.bind,scanned,Except.map,pure,Except.pure]
    congr 2
    rw [readings,Bindings.insertAll,List.foldl_map]

theorem decode_error_iff {layout : Layout} {payload : List UInt8} {version : Version}
    {error : Error} :
    decode layout payload version = .error error ↔
      version = .v1 ∧ payload.length ≠ layout.payloadSize .v1 ∧
        error = .sizeMismatch layout.name (layout.payloadSize .v1) payload.length := by
  rw [decode_eq]
  constructor
  · intro refused
    cases received : layout.receive version payload with
    | ok full =>
      rw [received] at refused
      cases refused
    | error other =>
      rw [received] at refused
      cases refused
      exact Layout.receive_error received
  · rintro ⟨rfl,different,rfl⟩
    simp only [Layout.receive,different,if_false,Except.map]

theorem decode_get? {specs : List FieldSpec} {layout : Layout} (lays : layout.Lays specs)
    (version : Version) (full : List UInt8) (name : String) :
    Message.get? { layout, values := Bindings.insertAll [] (readings (layout.fieldsFor version) full) }
      name = (readings (layout.fieldsFor version) full).get? name := by
  have distinct : (readings (layout.fieldsFor version) full).Distinct := by
    rw [Bindings.Distinct,readings_names]
    exact lays.fieldsFor_distinct version
  rw [get?,Bindings.get?_insertAll distinct,Bindings.get?_nil,Option.or_none]

end MavPayload.Message
