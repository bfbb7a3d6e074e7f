import MavPayload.Proofs.Message.Operations
import MavPayload.Proofs.Message.Wire

/-! The messages that a program can come to hold. Whichever way the values of a message
got there, each stands under the name of a field and is one that the field may hold. -/
namespace MavPayload

/-- Whether each value stands under the name of a field that may hold it. -/
structure Message.WellFormed (message : Message) : Prop where
  distinct : message.values.Distinct
  matched : ∀ entry ∈ message.values, ∃ field ∈ message.layout.fields,
    field.name = entry.1 ∧ entry.2.matchesField field.toFieldSpec = true

/-- The messages over a layout that are made by the operations on messages. An operation
that fails makes none. -/
inductive Message.Reachable (layout : Layout) : Message → Prop
  | new : Reachable layout { layout }
  | decode {payload : List UInt8} {version : Version} {message : Message} :
    Message.decode layout payload version = .ok message → Reachable layout message
  | set {message next : Message} {name : String} {value : Value} :
    Reachable layout message → message.set name value = .ok next → Reachable layout next
  | clear {message : Message} (name : String) :
    Reachable layout message → Reachable layout (message.clear name)
  | assign {message next : Message} {json : Json} :
    Reachable layout message → message.assign json = .ok next → Reachable layout next

namespace FieldSpec

theorem decodeElement_matches (field : FieldSpec) (bytes : List UInt8) :
    (field.decodeElement bytes).isElementOf field.type = true := by
  cases type : field.type <;> simp [decodeElement,type,Value.isElementOf]

theorem ofOctets_matches (field : FieldSpec) (bytes : List UInt8) :
    (field.ofOctets bytes).matchesField field = true := by
  cases array : field.isArray with
  | true =>
    simp only [ofOctets,Value.matchesField,array,if_true,List.all_map,List.all_eq_true]
    exact fun _ _ => decodeElement_matches field _
  | false =>
    simp only [ofOctets,Value.matchesField,array,Bool.false_eq_true,if_false]
    exact decodeElement_matches field _

theorem elementOfJson_matches {field : FieldSpec} {type : NumericType} {json : Json}
    {value : Value} (numeric : field.type = .numeric type)
    (read : field.elementOfJson json = .ok value) : value.isElementOf field.type = true := by
  obtain ⟨_,_,_,_,rfl⟩ := (elementOfJson_ok_iff numeric).mp read
  simp [Value.isElementOf,numeric]

theorem ofJson_matches {field : FieldSpec} {json : Json} {value : Value}
    (read : field.ofJson json = .ok value) : value.matchesField field = true := by
  have listed {type : NumericType} (kind : field.type = .numeric type)
      (array : field.isArray = true) {items : List Json} {values : List Value}
      (all : items.mapM field.elementOfJson = .ok values) :
      (Value.array values).matchesField field = true := by
    simp only [Value.matchesField,array,if_true,List.all_eq_true]
    intro item member
    obtain ⟨_,_,one⟩ := mapM_ok_mem all member
    exact elementOfJson_matches kind one
  cases field.form with
  | text kind =>
    obtain ⟨_,_,rfl⟩ := (ofJson_text kind).mp read
    simp [Value.matchesField,isArray,isText,Value.isElementOf,kind]
  | single kind one =>
    rw [ofJson_single kind one] at read
    simp only [Value.matchesField,one,Bool.false_eq_true,if_false]
    exact elementOfJson_matches kind read
  | octets kind array =>
    rcases (ofJson_octets kind array).mp read with ⟨_,bytes,_,_,rfl⟩ | ⟨_,_,_,all,rfl⟩
    · simp [Value.matchesField,array,Value.ofBytes,Value.isElementOf,kind]
    · exact listed kind array all
  | list kind other array =>
    obtain ⟨_,_,_,all,rfl⟩ := (ofJson_list kind other array).mp read
    exact listed kind array all

end FieldSpec

namespace Message

namespace WellFormed

variable {message next : Message}

theorem insertAll (wellFormed : message.WellFormed) {entries : Bindings Value}
    (fit : ∀ entry ∈ entries, ∃ field ∈ message.layout.fields,
      field.name = entry.1 ∧ entry.2.matchesField field.toFieldSpec = true) :
    WellFormed { message with values := message.values.insertAll entries } where
  distinct := Bindings.insertAll_distinct wellFormed.distinct entries
  matched entry member := by
    rcases Bindings.mem_insertAll member with new | old
    · exact fit entry new
    · exact wellFormed.matched entry old

theorem new (layout : Layout) : WellFormed { layout } where
  distinct := List.nodup_nil
  matched _ member := by cases member

theorem decode {layout : Layout} {payload : List UInt8} {version : Version}
    (decoded : Message.decode layout payload version = .ok message) : message.WellFormed := by
  rw [decode_eq] at decoded
  obtain ⟨full,_,rfl⟩ := except_map_ok_iff.mp decoded
  apply (new layout).insertAll
  intro entry member
  obtain ⟨part,inside,rfl⟩ := List.mem_map.mp member
  have carried : part.1 ∈ layout.fieldsFor version := by
    rw [← Layout.segments_fields (layout.fieldsFor version) full]
    exact List.mem_map_of_mem inside
  have declared := (layout.fieldsFor_begins version).subset carried
  exact ⟨part.1,declared,rfl,FieldSpec.ofOctets_matches _ _⟩

theorem set (wellFormed : message.WellFormed) {name : String} {value : Value}
    (done : message.set name value = .ok next) : next.WellFormed := by
  obtain ⟨⟨field,found,fits⟩,rfl⟩ := set_ok_iff.mp done
  obtain ⟨declared,named⟩ := Layout.of_field? found
  have fit : ∀ entry ∈ [(name,value)], ∃ field ∈ message.layout.fields,
      field.name = entry.1 ∧ entry.2.matchesField field.toFieldSpec = true := by
    intro entry member
    rw [List.mem_singleton.mp member]
    exact ⟨field,declared,named,fits⟩
  exact wellFormed.insertAll fit

theorem clear (wellFormed : message.WellFormed) (name : String) :
    (message.clear name).WellFormed where
  distinct := Bindings.erase_distinct wellFormed.distinct name
  matched entry member :=
    wellFormed.matched entry ((Bindings.erase_sublist _ _).subset member)

theorem assign (wellFormed : message.WellFormed) {json : Json}
    (done : message.assign json = .ok next) : next.WellFormed := by
  obtain ⟨entries,read,rfl,all,rfl⟩ := assign_ok_iff.mp done
  have fit : ∀ entry ∈ read, ∃ field ∈ message.layout.fields,
      field.name = entry.1 ∧ entry.2.matchesField field.toFieldSpec = true := by
    intro entry member
    obtain ⟨_,_,one⟩ := mapM_ok_mem all member
    obtain ⟨same,field,found,valid⟩ := readEntry_ok_iff.mp one
    obtain ⟨declared,named⟩ := Layout.of_field? found
    exact ⟨field,declared,named.trans same.symm,FieldSpec.ofJson_matches valid⟩
  exact wellFormed.insertAll fit

end WellFormed

namespace Reachable

variable {layout : Layout} {message : Message}

theorem wellFormed (reachable : Reachable layout message) : message.WellFormed := by
  induction reachable with
  | new => exact .new layout
  | decode decoded => exact .decode decoded
  | set _ done ih => exact ih.set done
  | clear name _ ih => exact ih.clear name
  | assign _ done ih => exact ih.assign done

theorem layout_eq (reachable : Reachable layout message) : message.layout = layout := by
  induction reachable with
  | new => rfl
  | decode decoded =>
    rw [decode_eq] at decoded
    obtain ⟨_,_,rfl⟩ := except_map_ok_iff.mp decoded
    rfl
  | set _ done ih =>
    obtain ⟨_,rfl⟩ := set_ok_iff.mp done
    exact ih
  | clear _ _ ih => exact ih
  | assign _ done ih =>
    obtain ⟨_,_,_,_,rfl⟩ := assign_ok_iff.mp done
    exact ih

theorem insertAll (reachable : Reachable layout message) {entries : Bindings Value}
    (fit : ∀ entry ∈ entries, ∃ field, layout.field? entry.1 = some field ∧
      entry.2.matchesField field.toFieldSpec = true) :
    Reachable layout { message with values := message.values.insertAll entries } := by
  induction entries generalizing message with
  | nil => exact reachable
  | cons entry rest ih =>
    obtain ⟨field,found,fits⟩ := fit entry (by simp)
    rw [← reachable.layout_eq] at found
    have done : message.set entry.1 entry.2 =
        .ok { message with values := message.values.insert entry.1 entry.2 } :=
      set_ok_iff.mpr ⟨⟨field,found,fits⟩,rfl⟩
    exact ih (reachable.set done) fun other member => fit other (List.mem_cons_of_mem _ member)

theorem exists_field (reachable : Reachable layout message) {name : String} {value : Value}
    (held : message.get? name = some value) : ∃ field ∈ layout.fields, field.name = name ∧
      value.matchesField field.toFieldSpec = true := by
  have matched := reachable.wellFormed.matched _ (Bindings.get?_mem held)
  rwa [reachable.layout_eq] at matched

theorem get?_matches {specs : List FieldSpec} (lays : layout.Lays specs)
    (reachable : Reachable layout message) {field : Field} (declared : field ∈ layout.fields)
    {value : Value} (held : message.get? field.name = some value) :
    value.matchesField field.toFieldSpec = true := by
  obtain ⟨other,member,same,fits⟩ := reachable.exists_field held
  rwa [List.inj_on_of_nodup_map lays.names_distinct member declared same] at fits

end Reachable

variable {layout : Layout} {specs : List FieldSpec} {message : Message}

theorem mem_entries (reachable : Reachable layout message) {field : Field} {value : Value} :
    (field,value) ∈ message.entries ↔
      field ∈ layout.fields ∧ message.get? field.name = some value := by
  rw [entries,reachable.layout_eq,List.mem_filterMap]
  constructor
  · rintro ⟨other,declared,held⟩
    obtain ⟨own,found,same⟩ := Option.map_eq_some_iff.mp held
    cases same
    exact ⟨declared,found⟩
  · rintro ⟨declared,held⟩
    exact ⟨field,declared,by rw [held,Option.map_some]⟩

theorem mem_names (reachable : Reachable layout message) {name : String} :
    name ∈ (message.entries.map fun entry => entry.1.name) ↔ message.isSet name = true := by
  rw [isSet,Option.isSome_iff_exists]
  constructor
  · intro member
    obtain ⟨_,inside,rfl⟩ := List.mem_map.mp member
    exact ⟨_,((mem_entries reachable).mp inside).2⟩
  · rintro ⟨value,held⟩
    obtain ⟨field,declared,rfl,_⟩ := reachable.exists_field held
    exact List.mem_map_of_mem ((mem_entries reachable).mpr ⟨declared,held⟩)

theorem entries_distinct (lays : layout.Lays specs) (reachable : Reachable layout message) :
    (message.entries.map fun entry => entry.1.name).Nodup := by
  have kept : (message.entries.map Prod.fst).Sublist layout.fields := by
    rw [entries,reachable.layout_eq]
    induction layout.fields with
    | nil => exact List.Sublist.refl _
    | cons field fields ih =>
      cases held : message.get? field.name with
      | none => simpa [held] using ih.cons field
      | some value => simpa [held] using ih
  have names := (kept.map fun field => field.name).nodup lays.names_distinct
  rwa [List.map_map] at names

theorem writeEntries_distinct (lays : layout.Lays specs) (reachable : Reachable layout message)
    {entries : List (String × Json)} (written : message.entries.mapM writeEntry = .ok entries) :
    Bindings.Distinct entries := by
  rw [Bindings.Distinct,writeEntries_keys written]
  exact entries_distinct lays reachable

end Message

end MavPayload
