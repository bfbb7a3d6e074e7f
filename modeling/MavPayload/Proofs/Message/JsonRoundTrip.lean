import MavPayload.Proofs.Message.Assignment
import MavPayload.Proofs.Message.Json

/-! A message over its JSON text and back. -/
namespace MavPayload.Message

/-- Whether every float that a message holds is finite. -/
def IsFinite (message : Message) : Prop :=
  ∀ name value, message.get? name = some value → value.IsFinite

/-- Whether the entries of an object are those of a message: each is a set field with
JSON that the field reads as its value, and every set field has one. -/
structure Describes (message : Message) (entries : List (String × Json)) : Prop where
  distinct : (entries.map Prod.fst).Nodup
  shallow : ∀ entry ∈ entries, entry.2.nesting ≤ 1
  read : ∀ entry ∈ entries, ∃ field ∈ message.layout.fields, ∃ value, field.name = entry.1 ∧
    message.get? entry.1 = some value ∧ field.ofJson entry.2 = .ok value
  complete : ∀ name value, message.get? name = some value → name ∈ entries.map Prod.fst

variable {layout : Layout} {specs : List FieldSpec} {message : Message}

theorem Describes.perm {entries others : List (String × Json)} (describes : message.Describes entries)
    (same : entries.Perm others) : message.Describes others where
  distinct := (same.map Prod.fst).nodup_iff.mp describes.distinct
  shallow entry member := describes.shallow entry (same.mem_iff.mpr member)
  read entry member := describes.read entry (same.mem_iff.mpr member)
  complete name value held := (same.map Prod.fst).mem_iff.mp (describes.complete name value held)

theorem Describes.sorted {entries : List (String × Json)} (describes : message.Describes entries) :
    message.Describes (Json.sortedEntries entries) :=
  describes.perm (Json.sortedEntries_perm describes.distinct).symm

theorem toJson_describes (lays : layout.Lays specs) (reachable : Reachable layout message)
    (finite : message.IsFinite) :
    ∃ entries, message.toJson = .ok (Json.ofEntries entries) ∧ message.Describes entries := by
  have carried {field : Field} {value : Value} (member : (field,value) ∈ message.entries) :
      ∃ json, field.toJson value = .ok json ∧ json.nesting ≤ 1 ∧ field.ofJson json = .ok value := by
    obtain ⟨declared,held⟩ := (mem_entries reachable).mp member
    exact FieldSpec.ofJson_toJson (reachable.get?_matches lays declared held) (finite _ _ held)
  obtain ⟨entries,written⟩ : ∃ entries, message.entries.mapM writeEntry = .ok entries := by
    apply mapM_ok_of_forall
    rintro ⟨field,value⟩ member
    obtain ⟨json,written,_⟩ := carried member
    exact ⟨(field.name,json),writeEntry_ok_iff.mpr ⟨rfl,written⟩⟩
  have source (entry : String × Json) (member : entry ∈ entries) :
      ∃ field value, (field,value) ∈ message.entries ∧ field.name = entry.1 ∧
        entry.2.nesting ≤ 1 ∧ field.ofJson entry.2 = .ok value := by
    obtain ⟨⟨field,value⟩,inside,done⟩ := mapM_ok_mem written member
    obtain ⟨named,same⟩ := writeEntry_ok_iff.mp done
    obtain ⟨json,written,shallow,read⟩ := carried inside
    cases written.symm.trans same
    exact ⟨field,value,inside,named,shallow,read⟩
  refine ⟨entries,toJson_ok_iff.mpr ⟨entries,written,rfl⟩,
    writeEntries_distinct lays reachable written,?_,?_,?_⟩
  · intro entry member
    obtain ⟨_,_,_,_,shallow,_⟩ := source entry member
    exact shallow
  · intro entry member
    obtain ⟨field,value,inside,named,_,read⟩ := source entry member
    obtain ⟨declared,held⟩ := (mem_entries reachable).mp inside
    rw [reachable.layout_eq]
    exact ⟨field,declared,value,named,named ▸ held,read⟩
  · intro name value held
    rw [writeEntries_keys written,mem_names reachable,isSet,held]
    rfl

theorem assign_describes (lays : layout.Lays specs) (same : message.layout = layout)
    {entries : List (String × Json)} (describes : message.Describes entries) :
    ∃ back, assign { layout } (.object entries) = .ok back ∧ back.layout = layout ∧
      ∀ name, back.get? name = message.get? name := by
  have reads {key : String} {json : Json} (named : Json.lookup? key entries = some json) :=
    describes.sorted.read (key,json) (Json.mem_sortedEntries.mpr named)
  simp only [same] at reads
  have accepts : ∀ key json, Json.lookup? key entries = some json →
      Accepts { layout } key json := by
    intro key json named
    obtain ⟨field,declared,value,own,_,read⟩ := reads named
    exact ⟨field,declared,own,value,read⟩
  obtain ⟨back,done⟩ := (assign_succeeds lays).mpr ⟨entries,rfl,accepts⟩
  have overwritten := assign_overwritten done
  refine ⟨back,done,overwritten.layout_eq,fun name => ?_⟩
  cases named : Json.lookup? name entries with
  | some json =>
    obtain ⟨field,declared,own,value,read,set⟩ := overwritten.named name json named
    obtain ⟨other,known,_,also,held,again⟩ := reads named
    obtain rfl := List.inj_on_of_nodup_map lays.names_distinct declared known (own.trans also.symm)
    cases read.symm.trans again
    exact set.trans held.symm
  | none =>
    rw [overwritten.others name named]
    cases held : message.get? name with
    | none => rfl
    | some value =>
      obtain ⟨entry,inside,rfl⟩ := List.mem_map.mp (describes.sorted.complete name value held)
      rw [Json.mem_sortedEntries.mp inside] at named
      cases named

/-- A message whose floats are finite is written, with blanks or without, and a new message
that reads either text holds the same values, to the last bit, and no others. -/
theorem unmarshal_marshal {name : String} {id : Nat}
    (built : Layout.build name id specs = .ok layout) (reachable : Reachable layout message)
    (finite : message.IsFinite) :
    ∃ compact pretty back, message.marshal = .ok compact ∧ message.marshalPretty = .ok pretty ∧
      unmarshal { layout } compact = .ok back ∧ unmarshal { layout } pretty = .ok back ∧
      back.layout = layout ∧ ∀ name, back.get? name = message.get? name := by
  obtain ⟨_,_,lays⟩ := Layout.build_ok_iff.mp built
  obtain ⟨entries,written,describes⟩ := toJson_describes lays reachable finite
  have sorted := describes.sorted
  obtain ⟨back,read,same,values⟩ := assign_describes lays reachable.layout_eq sorted
  have shallow : (Json.ofEntries entries).nesting ≤ Json.maxDepth := by
    have inside := Json.entriesNesting_le sorted.shallow
    rw [Json.ofEntries,Json.nesting]
    exact (Nat.succ_le_succ inside).trans (by decide)
  have parsed {spacing : Json.Spacing} (blank : spacing.IsBlank) :
      unmarshal { layout } (String.ofList (Json.print spacing 0 (Json.ofEntries entries))) =
        .ok back := by
    rw [unmarshal,Json.ofText?_print blank shallow]
    exact read
  refine ⟨(Json.ofEntries entries).compact,(Json.ofEntries entries).pretty,back,?_,?_,
    parsed Json.Spacing.compact_isBlank,parsed Json.Spacing.pretty_isBlank,same,values⟩
  · rw [marshal,written]
    rfl
  · rw [marshalPretty,written]
    rfl

/-- The zero with a minus sign as a single, the least double, a text that is escaped, octets
and an empty array; one field is not set. -/
theorem unmarshal_marshal_leastDouble :
    let specs : List FieldSpec := [⟨"offset",.numeric .float,false,0,false⟩,
      ⟨"tiny",.numeric .double,false,0,false⟩,⟨"label",.char,false,8,false⟩,
      ⟨"raw",.numeric .uint8,false,3,false⟩,⟨"steps",.numeric .int16,false,2,true⟩,
      ⟨"count",.numeric .uint64,false,0,true⟩]
    let layout : Layout := ⟨"LEAST",9,Layout.wireOrder (Layout.placed specs)⟩
    let message : Message := ⟨layout,[("offset",.number .float 0x80000000#32),
      ("tiny",.number .double 1#64),("label",.text "a\"\n\x01"),
      ("raw",.array [.number .uint8 0#8,.number .uint8 255#8]),("steps",.array [])]⟩
    Layout.build "LEAST" 9 specs = .ok layout ∧ Reachable layout message ∧ message.IsFinite ∧
      ∃ compact pretty back, message.marshal = .ok compact ∧ message.marshalPretty = .ok pretty ∧
        unmarshal { layout } compact = .ok back ∧ unmarshal { layout } pretty = .ok back ∧
        back.get? "offset" = some (.number .float 0x80000000#32) ∧
        back.get? "tiny" = some (.number .double 1#64) ∧
        back.get? "label" = some (.text "a\"\n\x01") ∧
        back.get? "raw" = some (.array [.number .uint8 0#8,.number .uint8 255#8]) ∧
        back.get? "steps" = some (.array []) ∧ back.get? "count" = none := by
  intro specs layout message
  have built : Layout.build "LEAST" 9 specs = .ok layout := rfl
  have fit : ∀ entry ∈ message.values, ∃ field, layout.field? entry.1 = some field ∧
      entry.2.matchesField field.toFieldSpec = true := by
    intro entry member
    simp only [message,List.mem_cons,List.not_mem_nil,or_false] at member
    rcases member with rfl | rfl | rfl | rfl | rfl <;> exact ⟨_,rfl,rfl⟩
  have reachable : Reachable layout message := Reachable.new.insertAll fit
  have finite : message.IsFinite := by
    intro name value held
    have member := Bindings.get?_mem held
    simp only [message,List.mem_cons,Prod.mk.injEq,List.not_mem_nil,or_false] at member
    rcases member with ⟨_,rfl⟩ | ⟨_,rfl⟩ | ⟨_,rfl⟩ | ⟨_,rfl⟩ | ⟨_,rfl⟩
    · exact .number (by decide)
    · exact .number (by decide)
    · exact .text _
    · refine .array fun item member => ?_
      rcases List.mem_cons.mp member with rfl | member
      · exact .number rfl
      · rw [List.mem_singleton.mp member]
        exact .number rfl
    · exact .array (by simp)
  obtain ⟨compact,pretty,back,written,spaced,read,again,_,values⟩ :=
    unmarshal_marshal built reachable finite
  exact ⟨built,reachable,finite,compact,pretty,back,written,spaced,read,again,values _,values _,
    values _,values _,values _,values _⟩

end MavPayload.Message
