import MavPayload.Proofs.Json.Basic
import MavPayload.Proofs.Message.InPlace
import MavPayload.Proofs.Message.Reachable
import MavPayload.Proofs.Text.Order

/-! What a document does to a message. It sets every field that it names and leaves the others
alone, or it is refused for the first of its keys that is at fault and leaves all of them
alone. -/
namespace MavPayload

namespace FieldSpec

/-- What a field asks for where it does not take the JSON that it is given. -/
def expectation (field : FieldSpec) (json : Json) : Expectation :=
  if field.isText then .field field.type field.length
  else if field.isArray then
    match json with
    | .array _ => .element field.type
    | .string _ => if field.isByteArray then .base64 else .field field.type field.length
    | _ => .field field.type field.length
  else .element field.type

variable {field : FieldSpec} {json : Json} {error : Error}

theorem elementOfJson_error (refused : field.elementOfJson json = .error error) :
    error = .typeMismatch field.name (.element field.type) := by
  unfold elementOfJson at refused
  split at refused
  · split at refused
    · cases refused
    · exact (Except.error.inj refused).symm
  · exact (Except.error.inj refused).symm

theorem ofJson_error (refused : field.ofJson json = .error error) :
    error = .typeMismatch field.name (field.expectation json) := by
  unfold ofJson at refused
  unfold expectation
  split at refused
  · rename_i text
    rw [if_pos text]
    split at refused
    · cases refused
    · exact (Except.error.inj refused).symm
  rename_i text
  rw [if_neg text]
  split at refused
  · rename_i array
    rw [if_pos array]
    cases json with
    | array items =>
      obtain ⟨_,_,_,_,_,one⟩ := mapM_error_iff.mp (except_map_error_iff.mp refused)
      exact elementOfJson_error one
    | string content =>
      simp only at refused ⊢
      split at refused
      · rename_i octets
        rw [if_pos octets]
        split at refused
        · cases refused
        · exact (Except.error.inj refused).symm
      · rename_i octets
        rw [if_neg octets]
        exact (Except.error.inj refused).symm
    | _ => exact (Except.error.inj refused).symm
  · rename_i array
    rw [if_neg array]
    exact elementOfJson_error refused

end FieldSpec

namespace Message

/-- Whether a message has a field of a name that takes some JSON. -/
def Accepts (message : Message) (key : String) (json : Json) : Prop :=
  ∃ field ∈ message.layout.fields, field.name = key ∧ ∃ value, field.ofJson json = .ok value

/-- Why a message does not take some JSON under a key. -/
inductive Refuses (message : Message) (key : String) (json : Json) : Error → Prop
  | unknown : (∀ field ∈ message.layout.fields, field.name ≠ key) →
    Refuses message key json (.unknownField message.layout.name key)
  | mismatched {field : Field} : field ∈ message.layout.fields → field.name = key →
    (∀ value, field.ofJson json ≠ .ok value) →
    Refuses message key json (.typeMismatch key (field.expectation json))

/-- Why a message does not take a document: it is no object, or it has a key that is at fault
while no key of lesser octets is. -/
inductive RefusesDocument (message : Message) : Json → Error → Prop
  | shape {json : Json} : (∀ entries, json ≠ .object entries) →
    RefusesDocument message json (.typeMismatch "<root>" .object)
  | entry {entries : List (String × Json)} {key : String} {json : Json} {error : Error} :
    Json.lookup? key entries = some json → message.Refuses key json error →
    (∀ other item, Json.lookup? other entries = some item →
      Text.Utf8.encode other < Text.Utf8.encode key → message.Accepts other item) →
    RefusesDocument message (.object entries) error

/-- Whether a message is what another one becomes by the entries of an object. -/
structure Overwritten (message next : Message) (entries : List (String × Json)) : Prop where
  layout_eq : next.layout = message.layout
  named : ∀ key json, Json.lookup? key entries = some json →
    ∃ field ∈ message.layout.fields, field.name = key ∧
      ∃ value, field.ofJson json = .ok value ∧ next.get? key = some value
  others : ∀ key, Json.lookup? key entries = none → next.get? key = message.get? key

variable {layout : Layout} {specs : List FieldSpec} {message next : Message} {key : String}
  {json : Json} {entries : List (String × Json)} {error : Error}

theorem readEntry_reads : (∃ read, message.readEntry (key,json) = .ok read) ↔
    ∃ own, message.layout.field? key = some own ∧ ∃ value, own.ofJson json = .ok value := by
  simp only [readEntry_ok_iff]
  constructor
  · rintro ⟨read,_,own,known,valid⟩
    exact ⟨own,known,read.2,valid⟩
  · rintro ⟨own,known,value,valid⟩
    exact ⟨(key,value),rfl,own,known,valid⟩

theorem readEntry_accepts (lays : message.layout.Lays specs) :
    (∃ read, message.readEntry (key,json) = .ok read) ↔ message.Accepts key json := by
  simp only [readEntry_reads,lays.field?_eq_some_iff,and_assoc,Accepts]

theorem fieldOf_error_iff {name : String} (lays : message.layout.Lays specs) :
    message.fieldOf name = .error error ↔ (∀ field ∈ message.layout.fields, field.name ≠ name) ∧
      error = .unknownField message.layout.name name := by
  unfold fieldOf
  cases found : message.layout.field? name with
  | some field =>
    obtain ⟨declared,named⟩ := lays.field?_eq_some_iff.mp found
    simp only [reduceCtorEq,false_iff]
    exact fun absent => absent.1 field declared named
  | none =>
    have absent : ∀ field ∈ message.layout.fields, field.name ≠ name := by
      intro field declared named
      have present := lays.field?_eq_some_iff.mpr ⟨declared,named⟩
      rw [found] at present
      cases present
    simp only [Except.error.injEq,eq_comm (a := error)]
    exact ⟨fun same => ⟨absent,same⟩,fun refused => refused.2⟩

theorem readEntry_refuses (lays : message.layout.Lays specs) :
    message.readEntry (key,json) = .error error ↔ message.Refuses key json error := by
  rw [readEntry,except_bind_error_iff,fieldOf_error_iff lays]
  constructor
  · rintro (⟨absent,rfl⟩ | ⟨field,found,refused⟩)
    · exact .unknown absent
    · obtain ⟨declared,rfl⟩ := lays.field?_eq_some_iff.mp (fieldOf_ok_iff.mp found)
      rcases except_bind_error_iff.mp refused with refused | ⟨_,_,impossible⟩
      · rw [FieldSpec.ofJson_error refused]
        refine .mismatched declared rfl fun value valid => ?_
        rw [refused] at valid
        cases valid
      · cases impossible
  · rintro (absent | ⟨declared,named,invalid⟩)
    · exact Or.inl ⟨absent,rfl⟩
    · subst named
      refine Or.inr ⟨_,fieldOf_ok_iff.mpr (lays.field?_eq_some_iff.mpr ⟨declared,rfl⟩),?_⟩
      rename_i field
      cases read : field.ofJson json with
      | ok value => exact absurd read (invalid value)
      | error found =>
        obtain rfl := FieldSpec.ofJson_error read
        exact except_bind_error_iff.mpr (Or.inl rfl)

theorem assign_reads : (∃ next, message.assign json = .ok next) ↔ ∃ entries,
    json = .object entries ∧ ∀ key item, Json.lookup? key entries = some item →
      ∃ read, message.readEntry (key,item) = .ok read := by
  constructor
  · rintro ⟨next,done⟩
    obtain ⟨entries,read,same,all,_⟩ := assign_ok_iff.mp done
    refine ⟨entries,same,fun key item present => ?_⟩
    obtain ⟨result,_,one⟩ := mem_mapM_ok all (Json.mem_sortedEntries.mpr present)
    exact ⟨result,one⟩
  · rintro ⟨entries,rfl,reads⟩
    obtain ⟨read,all⟩ : ∃ read, (Json.sortedEntries entries).mapM message.readEntry = .ok read :=
      mapM_ok_of_forall fun entry member => reads _ _ (Json.mem_sortedEntries.mp member)
    exact ⟨_,assign_ok_iff.mpr ⟨entries,read,rfl,all,rfl⟩⟩

theorem assign_succeeds (lays : message.layout.Lays specs) :
    (∃ next, message.assign json = .ok next) ↔ ∃ entries, json = .object entries ∧
      ∀ key item, Json.lookup? key entries = some item → message.Accepts key item := by
  simp only [assign_reads,readEntry_accepts lays]

theorem unmarshal_reads {text : String} : (∃ next, message.unmarshal text = .ok next) ↔
    ∃ entries, Json.ofText? text = some (.object entries) ∧
      ∀ key json, Json.lookup? key entries = some json →
        ∃ own, message.layout.field? key = some own ∧ ∃ value, own.ofJson json = .ok value := by
  simp only [unmarshal_ok_iff,← readEntry_reads]
  constructor
  · rintro ⟨next,json,read,done⟩
    obtain ⟨entries,rfl,reads⟩ := assign_reads.mp ⟨next,done⟩
    exact ⟨entries,read,reads⟩
  · rintro ⟨entries,read,reads⟩
    obtain ⟨next,done⟩ := assign_reads.mpr ⟨entries,rfl,reads⟩
    exact ⟨next,_,read,done⟩

theorem assign_overwritten (done : message.assign (.object entries) = .ok next) :
    Overwritten message next entries := by
  obtain ⟨_,read,same,all,rfl⟩ := assign_ok_iff.mp done
  cases same
  have keys : read.map Prod.fst = (Json.sortedEntries entries).map Prod.fst :=
    mapM_ok_map all fun _ _ one => (readEntry_ok_iff.mp one).1
  have distinct : Bindings.Distinct read := by
    rw [Bindings.Distinct,keys]
    exact Json.sortedEntries_distinct entries
  have values (key : String) : Message.get?
      { message with values := message.values.insertAll read } key =
        (Bindings.get? read key).or (message.get? key) :=
    Bindings.get?_insertAll distinct key
  refine ⟨rfl,fun key json present => ?_,fun key absent => ?_⟩
  · obtain ⟨⟨name,value⟩,member,one⟩ := mem_mapM_ok all (Json.mem_sortedEntries.mpr present)
    obtain ⟨rfl,field,found,valid⟩ := readEntry_ok_iff.mp one
    obtain ⟨declared,named⟩ := Layout.of_field? found
    refine ⟨field,declared,named,value,valid,?_⟩
    rw [values,Bindings.get?_of_mem distinct member,Option.some_or]
  · rw [values,Bindings.get?_eq_none,Option.none_or]
    rw [keys]
    intro member
    obtain ⟨⟨_,json⟩,inside,rfl⟩ := List.mem_map.mp member
    rw [Json.mem_sortedEntries.mp inside] at absent
    cases absent

theorem assign_shape (shape : ∀ entries, json ≠ .object entries) :
    message.assign json = .error (.typeMismatch rootName .object) := by
  unfold assign
  split
  · exact absurd rfl (shape _)
  · rfl

theorem mem_before_iff {before after : List (String × Json)} {other : String} {item : Json}
    (split : Json.sortedEntries entries = before ++ (key,json) :: after) :
    (other,item) ∈ before ↔ Json.lookup? other entries = some item ∧
      Text.Utf8.encode other < Text.Utf8.encode key := by
  have ascending := Json.sortedEntries_ascending entries
  rw [split] at ascending
  obtain ⟨_,rest,apart⟩ := List.pairwise_append.mp ascending
  rw [← Json.mem_sortedEntries,split,Text.Utf8.encode_lt_iff]
  constructor
  · intro member
    exact ⟨List.mem_append_left _ member,apart _ member (key,json) List.mem_cons_self⟩
  · rintro ⟨member,less⟩
    refine (List.mem_append.mp member).resolve_right fun behind => ?_
    rcases List.mem_cons.mp behind with same | later
    · cases same
      exact String.lt_irrefl _ less
    · exact String.lt_irrefl _ (String.lt_trans less (List.rel_of_pairwise_cons rest later))

theorem assign_entries_refuses (lays : message.layout.Lays specs) :
    message.assign (.object entries) = .error error ↔
      message.RefusesDocument (.object entries) error := by
  rw [assign_object,except_map_error_iff,mapM_error_iff]
  constructor
  · rintro ⟨before,⟨key,json⟩,after,split,fine,failed⟩
    have named : Json.lookup? key entries = some json :=
      Json.mem_sortedEntries.mp (split ▸ List.mem_append_cons_self)
    refine .entry named ((readEntry_refuses lays).mp failed) fun other item present less => ?_
    exact (readEntry_accepts lays).mp (fine _ ((mem_before_iff split).mpr ⟨present,less⟩))
  · intro refused
    cases refused with
    | shape shape => exact absurd rfl (shape entries)
    | @entry _ key json _ named refused first =>
      obtain ⟨before,after,split⟩ := List.append_of_mem (Json.mem_sortedEntries.mpr named)
      refine ⟨before,(key,json),after,split,fun earlier member => ?_,
        (readEntry_refuses lays).mpr refused⟩
      obtain ⟨present,less⟩ := (mem_before_iff split).mp member
      exact (readEntry_accepts lays).mpr (first _ _ present less)

theorem assign_refuses (lays : message.layout.Lays specs) :
    message.assign json = .error error ↔ message.RefusesDocument json error := by
  by_cases object : ∃ entries, json = .object entries
  · obtain ⟨entries,rfl⟩ := object
    exact assign_entries_refuses lays
  · have shape : ∀ entries, json ≠ .object entries := fun entries same => object ⟨entries,same⟩
    rw [assign_shape shape,Except.error.injEq]
    constructor
    · rintro rfl
      exact .shape shape
    · intro refused
      cases refused with
      | shape => rfl
      | entry => exact absurd rfl (shape _)

/-- A document is taken exactly if it is an object under whose every key the message has a
field that takes the JSON there, and then these fields and no others are set. One that is not
taken leaves the message as it was, whatever stands in front of the key that is at fault, and
so does a text that is no JSON. -/
theorem assign_all_or_nothing {name : String} {id : Nat}
    (built : Layout.build name id specs = .ok layout) (reachable : Reachable layout message)
    (json : Json) :
    ((∃ next, (Call.assign json).run message = .ok () next) ↔
      ∃ entries, json = .object entries ∧
        ∀ key item, Json.lookup? key entries = some item → message.Accepts key item) ∧
    (∀ entries next, json = .object entries → (Call.assign json).run message = .ok () next →
      Overwritten message next entries) ∧
    (∀ error next, (Call.assign json).run message = .error error next ↔
      message.RefusesDocument json error ∧ next = message) ∧
    (∀ text, Json.ofText? text = none →
      InPlace.unmarshal text message = .error .malformedJson message) ∧
    ∀ text, Json.ofText? text = some json →
      InPlace.unmarshal text message = (Call.assign json).run message := by
  obtain ⟨_,_,lays⟩ := Layout.build_ok_iff.mp built
  rw [← reachable.layout_eq] at lays
  simp only [Call.run_ok_iff,Call.run_error_iff]
  refine ⟨assign_succeeds lays,?_,?_,fun _ malformed => InPlace.unmarshal_malformed malformed _,
    fun _ read => InPlace.unmarshal_json read _⟩
  · rintro entries next rfl done
    exact assign_overwritten done
  · intro error next
    rw [← assign_refuses lays]
    rfl

/-- Of three keys the one in the middle is at fault, though the last one stands first in the
document; without them the other field is set. -/
theorem assign_all_or_nothing_middle :
    let specs : List FieldSpec := [⟨"b",.numeric .uint8,false,0,false⟩,
      ⟨"a",.numeric .int16,false,2,true⟩]
    let layout : Layout := ⟨"MIX",7,Layout.wireOrder (Layout.placed specs)⟩
    let message : Message := ⟨layout,[("b",.number .uint8 5)]⟩
    let one : Json := .number (.integer 1 (by decide))
    let large : Json := .number (.integer 256 (by decide))
    let document : Json := .object [("ä",.null),("b",large),("a",.array [one])]
    Layout.build "MIX" 7 specs = .ok layout ∧ Reachable layout message ∧
      (Call.assign document).run message =
        .error (.typeMismatch "b" (.element (.numeric .uint8))) message ∧
      message.RefusesDocument document (.typeMismatch "b" (.element (.numeric .uint8))) ∧
      (Call.assign (.object [("a",.array [one])])).run message =
        .ok () ⟨layout,[("b",.number .uint8 5),("a",.array [.number .int16 1])]⟩ ∧
      InPlace.unmarshal "[" message = .error .malformedJson message := by
  intro specs layout message one large document
  have built : Layout.build "MIX" 7 specs = .ok layout := rfl
  have reachable : Reachable layout message := by
    have done : set { layout } "b" (.number .uint8 5) = .ok message := rfl
    exact .set .new done
  have ran : (Call.assign document).run message =
      .error (.typeMismatch "b" (.element (.numeric .uint8))) message := rfl
  obtain ⟨_,_,refused,malformed,_⟩ := assign_all_or_nothing built reachable document
  exact ⟨built,reachable,ran,((refused _ _).mp ran).1,rfl,malformed "[" rfl⟩

end Message

end MavPayload
