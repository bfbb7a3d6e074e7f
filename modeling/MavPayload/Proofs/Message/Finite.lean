import MavPayload.Proofs.Message.Assignment
import MavPayload.Proofs.Message.JsonRoundTrip
import MavPayload.Proofs.Message.Relay

/-! Finite messages. A document sets no float that is not finite, and the wire makes none of
those that are, so what has been read from a document and sent can be written as one
again. -/
namespace MavPayload

theorem Json.Number.toDouble_isFinite (number : Number) : Binary.isFinite number.toDouble = true := by
  cases number with
  | integer value inRange =>
    obtain ⟨least,most⟩ := inRange
    exact Binary.isFinite_ofInt (by change _ < 18446744073709551616; omega)
  | float bits finite => exact finite

namespace NumericType

theorem ofNumber?_isFinite {type : NumericType} {number : Json.Number} {bits : BitVec type.width}
    (taken : type.ofNumber? number = some bits) : type.isFinite bits = true := by
  cases type with
  | double =>
    cases taken
    exact number.toDouble_isFinite
  | float =>
    simp only [ofNumber?] at taken
    split at taken
    · rename_i finite
      cases taken
      exact finite
    · cases taken
  | _ => rfl

theorem zero_isFinite (type : NumericType) : type.isFinite 0 = true := by
  cases type <;> decide

end NumericType

namespace FieldSpec

variable {field : FieldSpec} {type : NumericType} {json : Json} {value : Value}

theorem elementOfJson_isFinite (numeric : field.type = .numeric type)
    (read : field.elementOfJson json = .ok value) : value.IsFinite := by
  obtain ⟨_,_,_,taken,rfl⟩ := (elementOfJson_ok_iff numeric).mp read
  exact .number (NumericType.ofNumber?_isFinite taken)

theorem elementsOfJson_isFinite (numeric : field.type = .numeric type) {items : List Json}
    {values : List Value} (all : items.mapM field.elementOfJson = .ok values) :
    (Value.array values).IsFinite := by
  apply Value.IsFinite.array
  intro item member
  obtain ⟨_,_,read⟩ := mapM_ok_mem all member
  exact elementOfJson_isFinite numeric read

theorem ofJson_isFinite (read : field.ofJson json = .ok value) : value.IsFinite := by
  cases field.form with
  | text kind =>
    obtain ⟨text,_,rfl⟩ := (ofJson_text kind).mp read
    exact .text text
  | single kind one =>
    rw [ofJson_single kind one] at read
    exact elementOfJson_isFinite kind read
  | octets kind array =>
    rcases (ofJson_octets kind array).mp read with ⟨_,bytes,_,_,rfl⟩ | ⟨_,_,_,all,rfl⟩
    · apply Value.IsFinite.array
      intro item member
      obtain ⟨byte,_,rfl⟩ := List.mem_map.mp member
      exact .number rfl
    · exact elementsOfJson_isFinite kind all
  | list kind other array =>
    obtain ⟨_,_,_,all,rfl⟩ := (ofJson_list kind other array).mp read
    exact elementsOfJson_isFinite kind all

theorem wireForm_isFinite (field : FieldSpec) {held : Option Value}
    (finite : ∀ value, held = some value → value.IsFinite) : (field.wireForm held).IsFinite := by
  unfold wireForm
  split
  · exact .text _
  · rename_i type _
    have zero : (Value.number type 0).IsFinite := .number type.zero_isFinite
    split
    · apply Value.IsFinite.array
      intro item member
      rcases List.mem_append.mp member with given | filled
      · cases held with
        | none => simp at given
        | some value =>
          cases finite value rfl with
          | array each => exact each item (List.mem_of_mem_take given)
          | _ => simp [Value.asArray?] at given
      · rw [(List.mem_replicate.mp filled).2]
        exact zero
    · cases held with
      | none => exact zero
      | some value => exact finite value rfl

end FieldSpec

namespace Message

variable {layout : Layout} {specs : List FieldSpec} {message next : Message}

theorem assign_finite {entries : List (String × Json)} {key : String} {json : Json}
    (done : message.assign (.object entries) = .ok next)
    (named : Json.lookup? key entries = some json) :
    ∃ value, next.get? key = some value ∧ value.IsFinite := by
  obtain ⟨field,_,_,value,read,held⟩ := (assign_overwritten done).named key json named
  exact ⟨value,held,FieldSpec.ofJson_isFinite read⟩

theorem assign_new {json : Json} (done : assign { layout } json = .ok message) :
    Reachable layout message ∧ message.IsFinite := by
  refine ⟨.assign .new done,?_⟩
  obtain ⟨entries,_,rfl,_,_⟩ := assign_ok_iff.mp done
  intro key value held
  cases named : Json.lookup? key entries with
  | none =>
    rw [(assign_overwritten done).others key named] at held
    cases held
  | some item =>
    obtain ⟨own,set,finite⟩ := assign_finite done named
    cases held.symm.trans set
    exact finite

/-- Whether a message is what another one becomes on the wire: each field that the version
carries holds its wire form, and no other field is set. -/
structure WireFormOf (received message : Message) (version : Version) : Prop where
  layout_eq : received.layout = message.layout
  carried : ∀ field ∈ message.layout.fieldsFor version,
    received.get? field.name = some (field.wireForm (message.get? field.name))
  absent : ∀ other, (∀ field ∈ message.layout.fieldsFor version, field.name ≠ other) →
    received.get? other = none

theorem decode_absent (lays : layout.Lays specs) {payload : List UInt8} {version : Version}
    (decoded : decode layout payload version = .ok message) {other : String}
    (free : ∀ field ∈ layout.fieldsFor version, field.name ≠ other) :
    message.get? other = none := by
  rw [decode_eq] at decoded
  obtain ⟨full,_,rfl⟩ := except_map_ok_iff.mp decoded
  rw [decode_get? lays]
  apply Bindings.get?_eq_none
  rw [readings_names]
  simpa using free

theorem WireFormOf.isFinite {received : Message} {version : Version}
    (arrived : received.WireFormOf message version) (finite : message.IsFinite) :
    received.IsFinite := by
  intro name value held
  by_cases free : ∀ field ∈ message.layout.fieldsFor version, field.name ≠ name
  · rw [arrived.absent name free] at held
    cases held
  · simp only [not_forall,not_not] at free
    obtain ⟨field,carried,rfl⟩ := free
    rw [arrived.carried field carried] at held
    cases held
    exact field.wireForm_isFinite fun value given => finite _ value given

theorem decode_sent_wireFormOf (lays : layout.Lays specs) (reachable : Reachable layout message)
    (version : Version) :
    ∃ received, decode layout (sent version (message.octets version)) version = .ok received ∧
      received.WireFormOf message version := by
  obtain ⟨received,decoded,same,carried⟩ := decode_sent lays reachable version
  have own := reachable.layout_eq
  refine ⟨received,decoded,same.trans own.symm,?_,?_⟩
  · rwa [own]
  · rw [own]
    exact fun other free => decode_absent lays decoded free

theorem assign_toJson (lays : layout.Lays specs) (reachable : Reachable layout message)
    (finite : message.IsFinite) :
    ∃ json back, message.toJson = .ok json ∧ json.nesting ≤ Json.maxDepth ∧
      assign { layout } json = .ok back ∧ back.layout = layout ∧
      ∀ name, back.get? name = message.get? name := by
  obtain ⟨entries,written,describes⟩ := toJson_describes lays reachable finite
  have sorted := describes.sorted
  obtain ⟨back,read,same,values⟩ := assign_describes lays reachable.layout_eq sorted
  refine ⟨_,back,written,?_,read,same,values⟩
  have inside := Json.entriesNesting_le sorted.shallow
  rw [Json.ofEntries,Json.nesting]
  exact (Nat.succ_le_succ inside).trans (by decide)

/-- What a document makes of a new message is sent and received, and the document of what has
been received gives a new message the same. -/
theorem assign_relayed (lays : layout.Lays specs) {json : Json}
    (done : assign { layout } json = .ok message) (version : Version) :
    ∃ payload received document back, message.encode version = .ok payload ∧
      decode layout payload version = .ok received ∧ received.toJson = .ok document ∧
      document.nesting ≤ Json.maxDepth ∧ assign { layout } document = .ok back ∧
      back.WireFormOf message version := by
  obtain ⟨reachable,finite⟩ := assign_new done
  obtain ⟨received,decoded,arrived⟩ := decode_sent_wireFormOf lays reachable version
  obtain ⟨document,back,written,shallow,read,same,values⟩ :=
    assign_toJson lays (.decode decoded) (arrived.isFinite finite)
  refine ⟨_,received,document,back,encode_eq message version,decoded,written,shallow,read,
    same.trans reachable.layout_eq.symm,?_,?_⟩
  · exact fun field carried => (values _).trans (arrived.carried field carried)
  · exact fun other free => (values _).trans (arrived.absent other free)

end Message

end MavPayload
