import MavPayload.Proofs.Message.InPlace
import MavPayload.Proofs.Message.Reachable

/-! What holds of a message however it has been changed, be it by calls that fail. Every
value stands under the name of a field that may hold it, and so a payload is written from
the values themselves and never from the zeros that would stand for a value of another
type. -/
namespace MavPayload

namespace FieldSpec

/-- One element as octets, if it is an element of the field's type. -/
def ownElement? (field : FieldSpec) (value : Value) : Option (List UInt8) :=
  match field.type,value with
  | .numeric type,.number own bits =>
    if h : own = type then some (type.encode (h ▸ bits)) else none
  | .char,.text text => some (CharBuffer.encode field.elementSize text)
  | _,_ => none

/-- The octets of a field that holds a value of its own type, or none. Zeros stand only for
what is not there. -/
def ownOctets? (field : FieldSpec) : Option Value → Option (List UInt8)
  | none => some (List.replicate field.size 0)
  | some value =>
    if field.isArray then do
      let parts ← (← value.asArray?).mapM field.ownElement?
      let kept := (parts.take field.length).flatten
      return kept ++ List.replicate (field.size - kept.length) 0
    else field.ownElement? value

theorem ownElement?_eq {field : FieldSpec} {value : Value}
    (element : value.isElementOf field.type = true) :
    field.ownElement? value = some (field.encodeElement value) := by
  cases value with
  | number own bits =>
    have same : field.type = .numeric own := by simpa [Value.isElementOf] using element
    simp only [ownElement?,encodeElement,same,dif_pos]
  | text content =>
    have same : field.type = .char := by simpa [Value.isElementOf] using element
    simp only [ownElement?,encodeElement,same]
  | bool _ => cases element
  | array _ => cases element

theorem ownOctets?_eq {field : FieldSpec} {held : Option Value}
    (fits : ∀ value, held = some value → value.matchesField field = true) :
    field.ownOctets? held = some (field.octets held) := by
  cases held with
  | none => rw [ownOctets?,octets_none]
  | some value =>
    have known := fits value rfl
    cases array : field.isArray with
    | true =>
      simp only [Value.matchesField,array,if_true] at known
      cases value with
      | array items =>
        have parts := mapM_some_of_forall fun item (member : item ∈ items) =>
          ownElement?_eq (List.all_eq_true.mp known item member)
        simp only [ownOctets?,array,if_true,Value.asArray?,parts,octets_array array,bind,
          Option.bind_some,pure]
      | _ => cases known
    | false =>
      simp only [Value.matchesField,array,Bool.false_eq_true,if_false] at known
      simp only [ownOctets?,octets,array,Bool.false_eq_true,if_false,ownElement?_eq known,
        Option.map_some,Option.getD_some]

end FieldSpec

namespace Message

/-- The payload of a message before it is shortened, if each value is one that its field
may hold. -/
def ownPayload? (message : Message) (version : Version) : Option (List UInt8) :=
  ((message.layout.fieldsFor version).mapM fun field : Field =>
    field.ownOctets? (message.get? field.name)).map List.flatten

/-- What holds of a message over a layout at any time. -/
structure Intact (layout : Layout) (message : Message) : Prop where
  layout_eq : message.layout = layout
  matched : ∀ entry ∈ message.values, ∃ field ∈ layout.fields,
    field.name = entry.1 ∧ entry.2.matchesField field.toFieldSpec = true
  size_eq : message.size = message.entries.length
  /-- No value is written as zeros for being of another type. -/
  encoded : ∀ version, ∃ payload, message.ownPayload? version = some payload ∧
    message.encode version = .ok (sent version payload)
  settable : ∀ name value, (∃ next, message.set name value = .ok next) ↔
    ∃ field ∈ layout.fields, field.name = name ∧ value.matchesField field.toFieldSpec = true
  changed : ∀ name value next, message.set name value = .ok next → next.layout = layout ∧
    ∀ other, next.get? other = if name = other then some value else message.get? other
  succeeded : ∀ (call : Call) next, call.run message = .ok () next ↔ call.apply message = .ok next
  failed : ∀ (call : Call) error next, call.run message = .error error next →
    call.apply message = .error error ∧ next = message

namespace Reachable

variable {layout : Layout} {specs : List FieldSpec} {message : Message}

theorem size_eq (lays : layout.Lays specs) (reachable : Reachable layout message) :
    message.size = message.entries.length := by
  -- Both lists name the fields that are set, each of them once.
  have names : (message.values.map Prod.fst).Perm
      (message.entries.map fun entry => entry.1.name) := by
    rw [List.perm_ext_iff_of_nodup reachable.wellFormed.distinct (entries_distinct lays reachable)]
    intro name
    rw [mem_names reachable,isSet,Option.isSome_iff_exists]
    refine ⟨Bindings.exists_get?,fun set => ?_⟩
    obtain ⟨_,held⟩ := set
    exact List.mem_map_of_mem (Bindings.get?_mem held)
  simpa [size] using names.length_eq

theorem ownPayload?_eq (lays : layout.Lays specs) (reachable : Reachable layout message)
    (version : Version) : message.ownPayload? version = some (message.octets version) := by
  rw [ownPayload?,octets,reachable.layout_eq,List.flatMap_def]
  have parts := mapM_some_of_forall fun field (carried : field ∈ layout.fieldsFor version) =>
    FieldSpec.ownOctets?_eq fun _ held =>
      reachable.get?_matches lays ((lays.fieldsFor_sublist version).subset carried) held
  rw [parts,Option.map_some]

theorem apply (reachable : Reachable layout message) {call : Call} {next : Message}
    (done : call.apply message = .ok next) : Reachable layout next := by
  cases call with
  | set name value => exact reachable.set done
  | clear name =>
    cases done
    exact reachable.clear name
  | assign json => exact reachable.assign done

theorem perform (reachable : Reachable layout message) (call : Call) :
    Reachable layout (message.perform call) := by
  rw [Message.perform,call.run_eq]
  cases done : call.apply message with
  | ok next => exact reachable.apply done
  | error _ => exact reachable

theorem after (reachable : Reachable layout message) (calls : List Call) :
    Reachable layout (message.after calls) := by
  induction calls generalizing message with
  | nil => exact reachable
  | cons call rest ih => exact ih (reachable.perform call)

theorem intact (lays : layout.Lays specs) (reachable : Reachable layout message) :
    message.Intact layout where
  layout_eq := reachable.layout_eq
  matched := by
    have matched := reachable.wellFormed.matched
    rwa [reachable.layout_eq] at matched
  size_eq := reachable.size_eq lays
  encoded version := ⟨_,reachable.ownPayload?_eq lays version,encode_eq message version⟩
  settable name value := by
    simp only [set_ok_iff,reachable.layout_eq,lays.field?_eq_some_iff]
    constructor
    · rintro ⟨_,⟨field,⟨declared,named⟩,fits⟩,_⟩
      exact ⟨field,declared,named,fits⟩
    · rintro ⟨field,declared,named,fits⟩
      exact ⟨_,⟨field,⟨declared,named⟩,fits⟩,rfl⟩
  changed name value next done := by
    obtain ⟨_,rfl⟩ := set_ok_iff.mp done
    exact ⟨reachable.layout_eq,fun other => Bindings.get?_insert _ _ _ _⟩
  succeeded _ _ := Call.run_ok_iff
  failed _ _ _ := Call.run_error_iff.mp

end Reachable

/-- A message that starts without values or from a payload is intact after any calls, those
that fail included. -/
theorem intact_after {name : String} {id : Nat} {specs : List FieldSpec} {layout : Layout}
    (built : Layout.build name id specs = .ok layout) {start : Message}
    (started : start = { layout } ∨
      ∃ payload version, decode layout payload version = .ok start) (calls : List Call) :
    (start.after calls).Intact layout := by
  obtain ⟨_,_,lays⟩ := Layout.build_ok_iff.mp built
  have reachable : Reachable layout start := by
    rcases started with rfl | ⟨payload,version,decoded⟩
    · exact .new
    · exact .decode decoded
  exact (reachable.after calls).intact lays

/-- Of five calls on a decoded message, three fail. -/
theorem intact_after_refused :
    let specs : List FieldSpec := [⟨"label",.char,false,3,false⟩,
      ⟨"gains",.numeric .uint8,false,2,true⟩]
    let layout : Layout := ⟨"CUT",7,Layout.wireOrder (Layout.placed specs)⟩
    let start : Message := ⟨layout,[("label",.text "hi")]⟩
    let calls : List Call := [.set "gains" (.array [.number .uint8 5]),.set "label" (.number .uint8 5),
      .set "labels" (.text ""),.assign (.object [("gains",.string "AQ=="),("label",.bool true)]),
      .clear "label"]
    Layout.build "CUT" 7 specs = .ok layout ∧ decode layout [104,105,0] .v1 = .ok start ∧
      start.after calls = ⟨layout,[("gains",.array [.number .uint8 5])]⟩ ∧
      (start.after calls).Intact layout := by
  intro specs layout start calls
  have built : Layout.build "CUT" 7 specs = .ok layout := rfl
  have decoded : decode layout [104,105,0] .v1 = .ok start := by
    have text : CharBuffer.decode 3 [104,105,0] = "hi" := by decide +kernel
    have read : decode layout [104,105,0] .v1 =
        .ok ⟨layout,[("label",.text (CharBuffer.decode 3 [104,105,0]))]⟩ := rfl
    rw [read,text]
  refine ⟨built,decoded,?_,intact_after built (Or.inr ⟨_,_,decoded⟩) calls⟩
  rfl

end Message

end MavPayload
