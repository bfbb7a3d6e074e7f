import MavPayload.Proofs.Message.Finite
import MavPayload.Proofs.Message.Invariant

/-! Which messages can be written as documents. All of them can but those that hold a float
without JSON, and such a float is blamed on the first field in wire order that holds one. No
document sets one. -/
namespace MavPayload

/-- Whether a value is an infinite float, one that is not a number, or an array with such a
float in it. In both formats these are the floats with a full exponent field. -/
inductive Value.HoldsNonFinite : Value → Prop
  | single {bits : BitVec 32} : bits.toNat / 2 ^ 23 % 2 ^ 8 = 2 ^ 8 - 1 →
    HoldsNonFinite (.number .float bits)
  | double {bits : BitVec 64} : bits.toNat / 2 ^ 52 % 2 ^ 11 = 2 ^ 11 - 1 →
    HoldsNonFinite (.number .double bits)
  | element {items : List Value} {item : Value} : item ∈ items → HoldsNonFinite item →
    HoldsNonFinite (.array items)

namespace NumericType

variable {type : NumericType} {bits : BitVec type.width}

theorem holdsNonFinite_iff :
    (Value.number type bits).HoldsNonFinite ↔ type.isFinite bits = false := by
  constructor
  · rintro (full | full)
    · exact Binary.Format.isFinite_eq_false_iff.mpr full
    · exact Binary.Format.isFinite_eq_false_iff.mpr full
  · intro infinite
    cases type with
    | double => exact .double (Binary.Format.isFinite_eq_false_iff.mp infinite)
    | float => exact .single (Binary.Format.isFinite_eq_false_iff.mp infinite)
    | _ => cases infinite

theorem toNumber?_eq_none_iff :
    type.toNumber? bits = none ↔ type.isFinite bits = false := by
  constructor
  · intro missing
    by_contra other
    obtain ⟨_,written,_⟩ := ofNumber?_toNumber? (Bool.not_eq_false _ ▸ other)
    rw [missing] at written
    cases written
  · intro infinite
    cases type with
    | double => exact dif_neg (Bool.eq_false_iff.mp infinite)
    | float => exact dif_neg (Bool.eq_false_iff.mp (Binary.widen_infinite infinite))
    | _ => cases infinite

end NumericType

namespace Value

theorem allToJson_eq (name : String) (items : List Value) :
    allToJson name items = items.mapM (toJson name) := by
  induction items with
  | nil => rw [allToJson]; rfl
  | cons item rest ih => rw [allToJson,ih,List.mapM_cons]

theorem holdsNonFinite_array {items : List Value} :
    (array items).HoldsNonFinite ↔ ∃ item ∈ items, item.HoldsNonFinite := by
  constructor
  · rintro (_ | _ | ⟨member,holds⟩)
    exact ⟨_,member,holds⟩
  · rintro ⟨_,member,holds⟩
    exact .element member holds

/-- Induction over values, with what holds of all items of an array. -/
theorem items_induction {motive : Value → Prop} (bool : ∀ value, motive (.bool value))
    (number : ∀ type bits, motive (.number type bits)) (text : ∀ content, motive (.text content))
    (array : ∀ items, (∀ item ∈ items, motive item) → motive (.array items)) (value : Value) :
    motive value :=
  @Value.rec motive (fun items => ∀ item ∈ items, motive item) bool number text array nofun
    (fun _ _ first rest => List.forall_mem_cons.mpr ⟨first,rest⟩) value

theorem toJson_error_iff {name : String} (value : Value) {error : Error} :
    value.toJson name = .error error ↔ value.HoldsNonFinite ∧ error = .nonFiniteFloat name := by
  induction value using items_induction generalizing error with
  | bool | text =>
    rw [toJson]
    constructor
    · intro failed
      cases failed
    · rintro ⟨⟨⟩,_⟩
  | number type bits =>
    rw [toJson,NumericType.holdsNonFinite_iff,← NumericType.toNumber?_eq_none_iff]
    cases type.toNumber? bits <;> simp [eq_comm]
  | array items each =>
    rw [toJson,except_map_error_iff,allToJson_eq,holdsNonFinite_array]
    constructor
    · intro failed
      obtain ⟨before,item,after,split,_,here⟩ := mapM_error_iff.mp failed
      have member : item ∈ items := by simp [split]
      obtain ⟨holds,same⟩ := (each item member).mp here
      exact ⟨⟨item,member,holds⟩,same⟩
    · rintro ⟨⟨item,member,holds⟩,rfl⟩
      obtain ⟨other,outcome⟩ := mapM_fails member ((each item member).mpr ⟨holds,rfl⟩)
      -- The item that fails first need not be this one, but it fails in the same way.
      obtain ⟨_,first,_,split,_,failed⟩ := mapM_error_iff.mp outcome
      rw [outcome,((each first (by simp [split])).mp failed).2]

theorem IsFinite.holdsNone {value : Value} (finite : value.IsFinite) : ¬ value.HoldsNonFinite := by
  induction finite with
  | bool | text => rintro ⟨⟩
  | number own =>
    rw [NumericType.holdsNonFinite_iff,own]
    nofun
  | array _ ih =>
    rw [holdsNonFinite_array]
    rintro ⟨item,member,holds⟩
    exact ih item member holds

theorem holdsNone_of_asByte? {items : List Value} {bytes : List UInt8}
    (read : items.mapM asByte? = some bytes) : ∀ item ∈ items, ¬ item.HoldsNonFinite := by
  induction items generalizing bytes with
  | nil => nofun
  | cons item rest ih =>
    obtain ⟨byte,here,later⟩ := Option.bind_eq_some_iff.mp ((List.mapM_cons ..).symm.trans read)
    obtain ⟨others,there,_⟩ := Option.bind_eq_some_iff.mp later
    rw [List.forall_mem_cons]
    refine ⟨?_,ih there⟩
    rintro ⟨⟩ <;> cases here

end Value

/-- A field fails to write a value for nothing but a float in it, and says its own name. -/
theorem FieldSpec.toJson_error_iff {field : FieldSpec} {value : Value} {error : Error} :
    field.toJson value = .error error ↔
      value.HoldsNonFinite ∧ error = .nonFiniteFloat field.name := by
  unfold toJson
  split
  · rename_i bytes octets
    have read : value.asBytes? = some bytes := by
      split at octets
      · exact octets
      · cases octets
    cases value with
    | array items =>
      refine iff_of_false nofun ?_
      rw [Value.holdsNonFinite_array]
      rintro ⟨⟨item,member,holds⟩,_⟩
      exact Value.holdsNone_of_asByte? read item member holds
    | _ => cases read
  · exact value.toJson_error_iff

namespace Message

/-- Whether a field is the first one in wire order whose value holds a float that is not
finite. -/
inductive FirstNonFinite (message : Message) (field : Field) : Prop
  | intro {before after : List Field} {value : Value} :
    message.layout.fields = before ++ field :: after →
    (∀ earlier ∈ before, ∀ other, message.get? earlier.name = some other →
      ¬ other.HoldsNonFinite) →
    message.get? field.name = some value → value.HoldsNonFinite → FirstNonFinite message field

/-- Whether a document has set a value: it has a key for it, and has left it in a message. -/
inductive SetByDocument (layout : Layout) (key : String) (value : Value) : Prop
  | intro {before after : Message} {entries : List (String × Json)} {json : Json} :
    Reachable layout before → before.assign (.object entries) = .ok after →
    Json.lookup? key entries = some json → after.get? key = some value →
    SetByDocument layout key value

/-- Whether documents have set all that a message holds. -/
def FromDocuments (layout : Layout) (message : Message) : Prop :=
  ∀ key value, message.get? key = some value → SetByDocument layout key value

variable {layout : Layout} {specs : List FieldSpec} {message : Message} {error : Error}

section

variable {field : Field} {value : Value}

theorem writeEntry_error_iff : writeEntry (field,value) = .error error ↔
    value.HoldsNonFinite ∧ error = .nonFiniteFloat field.name := by
  rw [writeEntry,except_bind_error_iff,FieldSpec.toJson_error_iff]
  simp [pure,Except.pure]

theorem writeEntry_succeeds_iff :
    (∃ entry, writeEntry (field,value) = .ok entry) ↔ ¬ value.HoldsNonFinite := by
  cases written : writeEntry (field,value) with
  | ok entry =>
    refine iff_of_true ⟨entry,rfl⟩ fun holds => ?_
    cases written.symm.trans (writeEntry_error_iff.mpr ⟨holds,rfl⟩)
  | error error =>
    exact iff_of_false nofun (not_not.mpr (writeEntry_error_iff.mp written).1)

end

theorem toJson_error_entries :
    message.toJson = .error error ↔ message.entries.mapM writeEntry = .error error := by
  change (message.entries.mapM writeEntry >>= _) = _ ↔ _
  rw [except_bind_error_iff]
  simp [pure,Except.pure]

theorem toJson_error_iff : message.toJson = .error error ↔
    ∃ field, message.FirstNonFinite field ∧ error = .nonFiniteFloat field.name := by
  rw [toJson_error_entries,Message.entries,mapM_filterMap_error_iff]
  constructor
  · rintro ⟨before,field,after,split,fine,⟨_,value⟩,set,failed⟩
    obtain ⟨_,held,same⟩ := Option.map_eq_some_iff.mp set
    cases same
    obtain ⟨holds,rfl⟩ := writeEntry_error_iff.mp failed
    refine ⟨field,.intro split (fun earlier member other known => ?_) held holds,rfl⟩
    exact writeEntry_succeeds_iff.mp (fine earlier member _ (by rw [known,Option.map_some]))
  · rintro ⟨field,⟨split,fine,held,holds⟩,rfl⟩
    refine ⟨_,field,_,split,?_,_,by rw [held,Option.map_some],writeEntry_error_iff.mpr ⟨holds,rfl⟩⟩
    rintro earlier member _ set
    obtain ⟨other,known,rfl⟩ := Option.map_eq_some_iff.mp set
    exact writeEntry_succeeds_iff.mpr (fine earlier member other known)

theorem toJson_fails_iff (reachable : Reachable layout message) :
    (∃ error, message.toJson = .error error) ↔
      ∃ key value, message.get? key = some value ∧ value.HoldsNonFinite := by
  constructor
  · rintro ⟨error,failed⟩
    obtain ⟨field,⟨_,_,held,holds⟩,_⟩ := toJson_error_iff.mp failed
    exact ⟨field.name,_,held,holds⟩
  · rintro ⟨key,value,held,holds⟩
    obtain ⟨field,declared,rfl,_⟩ := reachable.exists_field held
    have member := (mem_entries reachable).mpr ⟨declared,held⟩
    simp only [toJson_error_entries]
    exact mapM_fails member (writeEntry_error_iff.mpr ⟨holds,rfl⟩)

theorem toJson_keys (lays : layout.Lays specs) (reachable : Reachable layout message) {json : Json}
    (written : message.toJson = .ok json) : ∃ entries, json = .object entries ∧
      (entries.map Prod.fst).Nodup ∧
      ∀ key, key ∈ entries.map Prod.fst ↔ message.isSet key = true := by
  obtain ⟨entries,all,rfl⟩ := toJson_ok_iff.mp written
  have sorted := Json.sortedEntries_perm (writeEntries_distinct lays reachable all)
  refine ⟨_,rfl,Json.sortedEntries_distinct entries,fun key => ?_⟩
  rw [(sorted.map Prod.fst).mem_iff,writeEntries_keys all]
  exact mem_names reachable

theorem toJson_of_documents (reachable : Reachable layout message)
    (documents : message.FromDocuments layout) : ∃ json, message.toJson = .ok json := by
  cases written : message.toJson with
  | ok json => exact ⟨json,rfl⟩
  | error error =>
    obtain ⟨key,value,held,holds⟩ := (toJson_fails_iff reachable).mp ⟨error,written⟩
    obtain ⟨_,done,named,left⟩ := documents key value held
    obtain ⟨own,set,finite⟩ := assign_finite done named
    cases left.symm.trans set
    exact absurd holds finite.holdsNone

theorem FromDocuments.perform (documents : message.FromDocuments layout)
    (reachable : Reachable layout message) {call : Call}
    (other : ∀ key value, call ≠ .set key value) : (message.perform call).FromDocuments layout := by
  rw [Message.perform,call.run_eq]
  cases call with
  | set key value => exact absurd rfl (other key value)
  | clear name =>
    intro key value held
    have inside := (Bindings.erase_sublist _ name).subset (Bindings.get?_mem held)
    exact documents key value (Bindings.get?_of_mem reachable.wellFormed.distinct inside)
  | assign json =>
    cases done : Call.apply message (.assign json) with
    | error error => exact documents
    | ok next =>
      intro key value held
      obtain ⟨entries,_,rfl,_,_⟩ := assign_ok_iff.mp done
      cases named : Json.lookup? key entries with
      | some item => exact .intro reachable done named held
      | none => exact documents key value (((assign_overwritten done).others key named).symm.trans held)

theorem FromDocuments.after (documents : message.FromDocuments layout)
    (reachable : Reachable layout message) {calls : List Call}
    (others : ∀ call ∈ calls, ∀ key value, call ≠ .set key value) :
    (message.after calls).FromDocuments layout := by
  induction calls generalizing message with
  | nil => exact documents
  | cons call rest ih =>
    obtain ⟨here,there⟩ := List.forall_mem_cons.mp others
    exact ih (documents.perform reachable here) (reachable.perform call) there

/-- A message is written as a document exactly if no value in it holds a float that is not
finite. If one does, the first field in wire order that has such a value is blamed; if none does,
the keys of the document are the names of the fields that are set. What documents alone have set
is always written. -/
theorem toJson_fails_exactly {name : String} {id : Nat}
    (built : Layout.build name id specs = .ok layout) (reachable : Reachable layout message) :
    ((∃ error, message.toJson = .error error) ↔
      ∃ key value, message.get? key = some value ∧ value.HoldsNonFinite) ∧
    (∀ error, message.toJson = .error error ↔
      ∃ field, message.FirstNonFinite field ∧ error = .nonFiniteFloat field.name) ∧
    (∀ json, message.toJson = .ok json → ∃ entries, json = .object entries ∧
      (entries.map Prod.fst).Nodup ∧
      ∀ key, key ∈ entries.map Prod.fst ↔ message.isSet key = true) ∧
    (message.FromDocuments layout → ∃ json, message.toJson = .ok json) ∧
    ∀ calls, (∀ call ∈ calls, ∀ key value, call ≠ Call.set key value) →
      ∃ json, (after { layout } calls).toJson = .ok json := by
  obtain ⟨_,_,lays⟩ := Layout.build_ok_iff.mp built
  refine ⟨toJson_fails_iff reachable,fun _ => toJson_error_iff,fun _ => toJson_keys lays reachable,
    toJson_of_documents reachable,fun calls others => ?_⟩
  have documents : FromDocuments layout { layout } := nofun
  exact toJson_of_documents (Reachable.new.after calls) (documents.after .new others)

/-- An infinite single, and an array with a double that is not a number, which comes first on
the wire and last in a document. -/
theorem toJson_fails_exactly_first :
    let specs : List FieldSpec := [⟨"a",.numeric .float,false,0,false⟩,
      ⟨"z",.numeric .double,false,2,false⟩]
    let layout : Layout := ⟨"FIRST",7,Layout.wireOrder (Layout.placed specs)⟩
    let message : Message := ⟨layout,[("a",.number .float 0x7F800000#32),
      ("z",.array [.number .double 0#64,.number .double 0x7FF8000000000001#64])]⟩
    Layout.build "FIRST" 7 specs = .ok layout ∧ Reachable layout message ∧
      message.toJson = .error (.nonFiniteFloat "z") ∧
      (∃ field, message.FirstNonFinite field ∧ field.name = "z") ∧
      ∃ json, (after { layout } [.assign (.object [("z",.array [])]),.clear "a"]).toJson =
        .ok json := by
  intro specs layout message
  have built : Layout.build "FIRST" 7 specs = .ok layout := rfl
  have fit : ∀ entry ∈ message.values, ∃ field, layout.field? entry.1 = some field ∧
      entry.2.matchesField field.toFieldSpec = true := by
    intro entry member
    simp only [message,List.mem_cons,List.not_mem_nil,or_false] at member
    rcases member with rfl | rfl <;> exact ⟨_,rfl,rfl⟩
  have reachable : Reachable layout message := Reachable.new.insertAll fit
  have failed : message.toJson = .error (.nonFiniteFloat "z") := rfl
  obtain ⟨_,errors,_,_,documents⟩ := toJson_fails_exactly built reachable
  obtain ⟨field,first,same⟩ := (errors _).mp failed
  refine ⟨built,reachable,failed,⟨field,first,(Error.nonFiniteFloat.inj same).symm⟩,?_⟩
  apply documents
  simp

end Message

end MavPayload
