import MavPayload.Proofs.Layout.Fingerprint
import MavPayload.Proofs.Message.Wire

/-! Declarations that list the same fields of each element size, and the same extensions, in
the same order, and differ in how these lists are put together. They are accepted alike, and
their layouts are told apart by nothing but the places where the fields have been declared:
whatever one of them makes of values or of a payload, the other does too. -/
namespace MavPayload.Layout

/-- Whether two declarations differ only in how their groups of fields are put together. -/
structure SameGroups (specs others : List FieldSpec) : Prop where
  base : ∀ size ∈ elementSizes,
    (specs.filter fun spec => !spec.isExtension && spec.type.size == size) =
      others.filter fun spec => !spec.isExtension && spec.type.size == size
  extensions : (specs.filter fun spec => spec.isExtension) =
    others.filter fun spec => spec.isExtension

/-- Whether two layouts have the same name and, from first to last on the wire, the same fields,
wherever these have been declared. -/
structure SameWire (first second : Layout) : Prop where
  name_eq : first.name = second.name
  specs_eq : first.fields.map (fun field => field.toFieldSpec) =
    second.fields.map fun field => field.toFieldSpec

variable {specs others : List FieldSpec} {first second : Layout}

theorem SameGroups.symm (same : SameGroups specs others) : SameGroups others specs where
  base size member := (same.base size member).symm
  extensions := same.extensions.symm

theorem SameGroups.specs_eq (same : SameGroups specs others) :
    (wireOrder (placed specs)).map (fun field => field.toFieldSpec) =
      (wireOrder (placed others)).map fun field => field.toFieldSpec := by
  rw [wireOrder_specs,wireOrder_specs,same.extensions,baseSpecs,baseSpecs,
    List.flatMap_congr same.base]

theorem SameGroups.perm (same : SameGroups specs others) : specs.Perm others := by
  have ordered (specs : List FieldSpec) :
      ((wireOrder (placed specs)).map fun field => field.toFieldSpec).Perm specs := by
    have moved := (wireOrder_perm (placed specs)).map fun field => field.toFieldSpec
    rwa [placed_specs] at moved
  have own := ordered specs
  rw [same.specs_eq] at own
  exact own.symm.trans (ordered others)

theorem FieldsAcceptable.perm (acceptable : FieldsAcceptable specs) (same : specs.Perm others) :
    FieldsAcceptable others where
  named field member := acceptable.named field (same.mem_iff.mpr member)
  distinct := ((same.map _).nodup_iff).mp acceptable.distinct
  backed field member := acceptable.backed field (same.mem_iff.mpr member)
  length_le field member := acceptable.length_le field (same.mem_iff.mpr member)

theorem totalSize_specs {fields ordered : List Field}
    (same : fields.map (fun field => field.toFieldSpec) =
      ordered.map fun field => field.toFieldSpec) : totalSize fields = totalSize ordered := by
  have sizes (fields : List Field) : fields.map (fun field => field.size) =
      (fields.map fun field => field.toFieldSpec).map fun spec => spec.size := by
    rw [List.map_map]
    rfl
  rw [totalSize_sum,totalSize_sum,sizes,sizes,same]

theorem readings_specs {fields ordered : List Field} (payload : List UInt8)
    (same : fields.map (fun field => field.toFieldSpec) =
      ordered.map fun field => field.toFieldSpec) :
    Message.readings fields payload = Message.readings ordered payload := by
  induction fields generalizing ordered payload with
  | nil =>
    rw [List.map_nil,List.nil_eq,List.map_eq_nil_iff] at same
    rw [same]
  | cons field rest ih =>
    obtain ⟨other,others,rfl,spec,specs⟩ := List.map_eq_cons_iff.mp same.symm
    have here := ih (payload.drop field.size) specs.symm
    simp only [Message.readings,segments,List.map_cons] at here ⊢
    rw [spec,here]

theorem SameGroups.lays (same : SameGroups specs others) (lays : first.Lays specs) :
    Lays others ⟨first.name,first.id,wireOrder (placed others)⟩ where
  fields_eq := rfl
  named := lays.named
  id_le := lays.id_le
  acceptable := lays.acceptable.perm same.perm
  size_le := by
    have size := lays.size_le
    rwa [lays.fields_eq,totalSize_specs same.specs_eq] at size

theorem SameGroups.sameWire (same : SameGroups specs others) (lays : first.Lays specs)
    (laysOther : second.Lays others) (named : first.name = second.name) :
    SameWire first second := by
  refine ⟨named,?_⟩
  rw [lays.fields_eq,laysOther.fields_eq]
  exact same.specs_eq

namespace SameWire

variable (same : SameWire first second)
include same

theorem fieldsFor_eq (version : Version) :
    (first.fieldsFor version).map (fun field => field.toFieldSpec) =
      (second.fieldsFor version).map fun field => field.toFieldSpec := by
  cases version with
  | v1 =>
    have base := congrArg (List.takeWhile fun spec => !spec.isExtension) same.specs_eq
    rwa [List.takeWhile_map,List.takeWhile_map] at base
  | v2 => exact same.specs_eq

theorem payloadSize_eq (version : Version) :
    first.payloadSize version = second.payloadSize version :=
  totalSize_specs (same.fieldsFor_eq version)

theorem flatMap_eq {β : Type} (version : Version) (part : FieldSpec → List β) :
    (first.fieldsFor version).flatMap (fun field => part field.toFieldSpec) =
      (second.fieldsFor version).flatMap fun field => part field.toFieldSpec := by
  have parts := congrArg (List.flatMap part) (same.fieldsFor_eq version)
  rwa [List.flatMap_map,List.flatMap_map] at parts

theorem crcExtra_eq : first.crcExtra = second.crcExtra := by
  have signatures : first.baseFields.flatMap signature = second.baseFields.flatMap signature :=
    same.flatMap_eq .v1 fun spec => signature { spec with index := 0 }
  rw [Layout.crcExtra_eq,Layout.crcExtra_eq,fingerprint,fingerprint,same.name_eq,signatures]

theorem encode_eq (values : Bindings Value) (version : Version) :
    Message.encode ⟨first,values⟩ version = Message.encode ⟨second,values⟩ version := by
  rw [Message.encode_eq,Message.encode_eq]
  exact congrArg (fun octets => Except.ok (sent version octets))
    (same.flatMap_eq version fun spec => spec.octets (values.get? spec.name))

theorem receive_eq (version : Version) (payload : List UInt8) :
    first.receive version payload = second.receive version payload := by
  cases version <;> simp only [receive,same.payloadSize_eq,same.name_eq]

theorem decode_eq (payload : List UInt8) (version : Version) :
    (Message.decode first payload version).map Message.values =
      (Message.decode second payload version).map Message.values := by
  rw [Message.decode_eq,Message.decode_eq,same.receive_eq]
  cases second.receive version payload with
  | error error => rfl
  | ok full =>
    simp only [Except.map,readings_specs full (same.fieldsFor_eq version)]

end SameWire

/-- How the groups of a declaration are put together does not matter. -/
theorem interleavings_agree (same : SameGroups specs others) (name : String) (id : Nat) :
    ((∃ layout, build name id specs = .ok layout) ↔ ∃ layout, build name id others = .ok layout) ∧
    ∀ first second, build name id specs = .ok first → build name id others = .ok second →
      first.name = second.name ∧ first.id = second.id ∧
      first.fields.map (fun field => field.toFieldSpec) =
        second.fields.map (fun field => field.toFieldSpec) ∧
      (∀ version, first.payloadSize version = second.payloadSize version) ∧
      first.crcExtra = second.crcExtra ∧
      (∀ values version,
        Message.encode ⟨first,values⟩ version = Message.encode ⟨second,values⟩ version) ∧
      ∀ payload version, (Message.decode first payload version).map Message.values =
        (Message.decode second payload version).map Message.values := by
  have accepted {specs others : List FieldSpec} (same : SameGroups specs others)
      (built : ∃ layout, build name id specs = .ok layout) :
      ∃ layout, build name id others = .ok layout := by
    obtain ⟨layout,built⟩ := built
    obtain ⟨named,numbered,lays⟩ := build_ok_iff.mp built
    exact ⟨⟨layout.name,layout.id,wireOrder (placed others)⟩,
      build_ok_iff.mpr ⟨named,numbered,same.lays lays⟩⟩
  refine ⟨⟨accepted same,accepted same.symm⟩,?_⟩
  intro first second built builtOther
  obtain ⟨named,numbered,lays⟩ := build_ok_iff.mp built
  obtain ⟨namedOther,numberedOther,laysOther⟩ := build_ok_iff.mp builtOther
  have wire := same.sameWire lays laysOther (named.trans namedOther.symm)
  exact ⟨wire.name_eq,numbered.trans numberedOther.symm,wire.specs_eq,wire.payloadSize_eq,
    wire.crcExtra_eq,wire.encode_eq,wire.decode_eq⟩

/-- Groups of one and of several fields, put together in two ways, with an extension first in
one of them. A text is cut, a number is not given, and the payload ends inside an extension. -/
theorem interleavings_agree_mixed :
    let specs : List FieldSpec := [⟨"near",.numeric .uint16,false,0,true⟩,
      ⟨"flag",.numeric .uint8,true,0,false⟩,⟨"time",.numeric .uint64,false,0,false⟩,
      ⟨"label",.char,false,3,false⟩,⟨"far",.numeric .double,false,0,true⟩]
    let others : List FieldSpec := [⟨"time",.numeric .uint64,false,0,false⟩,
      ⟨"flag",.numeric .uint8,true,0,false⟩,⟨"label",.char,false,3,false⟩,
      ⟨"near",.numeric .uint16,false,0,true⟩,⟨"far",.numeric .double,false,0,true⟩]
    let first : Layout := ⟨"MIXED",7,wireOrder (placed specs)⟩
    let second : Layout := ⟨"MIXED",7,wireOrder (placed others)⟩
    let values : Bindings Value := [("label",.text "mixed"),("near",.number .uint16 5)]
    SameGroups specs others ∧ build "MIXED" 7 specs = .ok first ∧
      build "MIXED" 7 others = .ok second ∧ first ≠ second ∧ first.crcExtra = second.crcExtra ∧
      Message.encode ⟨first,values⟩ .v2 = Message.encode ⟨second,values⟩ .v2 ∧
      (Message.decode first [1,2,3,4,5,6,7,8,9,97,0,98,1] .v2).map Message.values =
        (Message.decode second [1,2,3,4,5,6,7,8,9,97,0,98,1] .v2).map Message.values := by
  intro specs others first second values
  have same : SameGroups specs others := ⟨by decide,by decide⟩
  have built : build "MIXED" 7 specs = .ok first := rfl
  have builtOther : build "MIXED" 7 others = .ok second := rfl
  obtain ⟨_,agree⟩ := interleavings_agree same "MIXED" 7
  obtain ⟨_,_,_,_,crc,encoded,decoded⟩ := agree first second built builtOther
  exact ⟨same,built,builtOther,by decide,crc,encoded values .v2,decoded _ .v2⟩

end MavPayload.Layout
