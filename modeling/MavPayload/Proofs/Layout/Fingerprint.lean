import MavPayload.Proofs.Checksum
import MavPayload.Proofs.Layout.Order

/-! The checksum by which two peers compare their layouts. It is the checksum of one string of
octets, which spells out the message's name and the base fields in wire order, each with its
type and, if it is an array, its length. -/
namespace MavPayload

theorem Text.Utf8.encode_toUTF8 (text : String) : encode text = text.toUTF8.data.toList := by
  have whole : text.toList.utf8Encode = text.toByteArray := String.utf8Encode_toList
  rw [String.toUTF8,← whole,List.utf8Encode,List.data_toByteArray]
  rfl

namespace Layout

def word (text : String) : List Nat :=
  text.toUTF8.data.toList.map UInt8.toNat ++ [0x20]

/-- What the checksum of a layout is taken of, each octet as the number that it is. -/
def described (name : String) (fields : List FieldSpec) : List Nat :=
  word name ++ fields.flatMap fun field =>
    word field.type.wireName ++ word field.name ++ if 0 < field.length then [field.length] else []

/-- The octets that the checksum of a layout takes in. -/
def fingerprint (layout : Layout) : List UInt8 :=
  Text.Utf8.encode layout.name ++ Text.Utf8.encode " " ++ layout.baseFields.flatMap signature

theorem crcExtra_eq (layout : Layout) :
    layout.crcExtra = Checksum.folded (Checksum.ofBytes layout.fingerprint) := by
  have joined (fields : List Field) (sum : UInt16) :
      fields.foldl (fun sum field => Checksum.update sum (signature field)) sum =
        Checksum.update sum (fields.flatMap signature) := by
    rw [List.flatMap_def,← Checksum.foldl_update,List.foldl_map]
  rw [crcExtra,joined,Checksum.ofBytes,fingerprint,Checksum.update_append,Checksum.update_append]

theorem word_octets (text : String) :
    (Text.Utf8.encode text ++ Text.Utf8.encode " ").map UInt8.toNat = word text := by
  rw [List.map_append,Text.Utf8.encode_toUTF8,word]
  rfl

theorem signature_octets {field : Field} (short : field.length ≤ 255) :
    (signature field).map UInt8.toNat = word field.type.wireName ++ word field.name ++
      if 0 < field.length then [field.length] else [] := by
  have length : (if 0 < field.length then [UInt8.ofNat field.length] else []).map UInt8.toNat =
      if 0 < field.length then [field.length] else [] := by
    split
    · rw [List.map_singleton,UInt8.toNat_ofNat_of_lt' (by simp [UInt8.size]; omega)]
    · rfl
  rw [← length,← word_octets,← word_octets,← List.map_append,← List.map_append,signature]
  simp only [List.append_assoc]

theorem fingerprint_octets {layout : Layout}
    (short : ∀ field ∈ layout.baseFields, field.length ≤ 255) :
    layout.fingerprint.map UInt8.toNat =
      described layout.name (layout.baseFields.map fun field => field.toFieldSpec) := by
  have fields : layout.baseFields.flatMap (fun field => (signature field).map UInt8.toNat) =
      layout.baseFields.flatMap fun field => word field.type.wireName ++ word field.name ++
        if 0 < field.length then [field.length] else [] :=
    List.flatMap_congr fun field member => signature_octets (short field member)
  rw [fingerprint,List.map_append,word_octets,List.map_flatMap,fields,described,List.flatMap_map]

variable {name : String} {id : Nat} {specs : List FieldSpec} {layout : Layout}

theorem Lays.fingerprint_octets (lays : layout.Lays specs) :
    layout.fingerprint.map UInt8.toNat = described layout.name (baseSpecs specs) := by
  rw [← lays.baseFields_specs]
  apply Layout.fingerprint_octets
  intro field member
  have held := (layout.fieldsFor_begins .v1).subset member
  exact lays.acceptable.length_le _ (List.mem_of_getElem? (lays.mem_iff.mp held))

theorem described_congr {first second : List FieldSpec}
    (same : first.map (fun field => (field.name,field.type,field.length)) =
      second.map fun field => (field.name,field.type,field.length)) :
    described name first = described name second := by
  have spelled (fields : List FieldSpec) : described name fields = word name ++
      (fields.map fun field => (field.name,field.type,field.length)).flatMap fun part =>
        word part.2.1.wireName ++ word part.1 ++ if 0 < part.2.2 then [part.2.2] else [] := by
    rw [List.flatMap_map,described]
  rw [spelled,spelled,same]

theorem baseSpecs_congr {others : List FieldSpec}
    (same : (specs.filter fun field => !field.isExtension).map
        (fun field => (field.name,field.type,field.length)) =
      (others.filter fun field => !field.isExtension).map
        fun field => (field.name,field.type,field.length)) :
    (baseSpecs specs).map (fun field => (field.name,field.type,field.length)) =
      (baseSpecs others).map fun field => (field.name,field.type,field.length) := by
  have grouped (fields : List FieldSpec) :
      (baseSpecs fields).map (fun field => (field.name,field.type,field.length)) =
        elementSizes.flatMap fun size => ((fields.filter fun field => !field.isExtension).map
          fun field => (field.name,field.type,field.length)).filter
            fun part => part.2.1.size == size := by
    rw [baseSpecs,List.map_flatMap]
    simp only [List.filter_map,List.filter_filter,Function.comp_def,Bool.and_comm]
  rw [grouped,grouped,same]

theorem fingerprint_congr {others : List FieldSpec} {other : Layout} (lays : layout.Lays specs)
    (laysOther : other.Lays others) (named : layout.name = other.name)
    (same : (specs.filter fun field => !field.isExtension).map
        (fun field => (field.name,field.type,field.length)) =
      (others.filter fun field => !field.isExtension).map
        fun field => (field.name,field.type,field.length)) :
    layout.fingerprint = other.fingerprint := by
  apply List.map_injective_iff.mpr (fun _ _ => UInt8.toNat_inj.mp)
  rw [lays.fingerprint_octets,laysOther.fingerprint_octets,named]
  exact described_congr (baseSpecs_congr same)

/-- The checksum of a layout joins the two octets of the sum, taken in bit by bit, of the one
string that describes the message and its base fields in wire order. The string may be taken
in by parts of any lengths. The id, the enumerations and the extensions do not matter. -/
theorem crcExtra_described (built : build name id specs = .ok layout) :
    InWireOrder specs layout.fields ∧ ∃ text : List UInt8,
      text.map UInt8.toNat = described name
        ((layout.fields.filter fun field => !field.isExtension).map
          fun field => field.toFieldSpec) ∧
      layout.crcExtra.toBitVec =
        (Checksum.serial text).extractLsb' 8 8 ^^^ (Checksum.serial text).extractLsb' 0 8 ∧
      (∀ parts : List (List UInt8), parts.flatten = text →
        (parts.foldl Checksum.update Checksum.initial).toBitVec = Checksum.serial text) ∧
      ∀ otherId others other, build name otherId others = .ok other →
        (specs.filter fun field => !field.isExtension).map
            (fun field => (field.name,field.type,field.length)) =
          (others.filter fun field => !field.isExtension).map
            (fun field => (field.name,field.type,field.length)) →
        other.crcExtra = layout.crcExtra := by
  obtain ⟨named,_,lays⟩ := build_ok_iff.mp built
  refine ⟨lays.inWireOrder_iff.mpr rfl,layout.fingerprint,?_,?_,?_,?_⟩
  · rw [lays.fingerprint_octets,named,← lays.baseFields_eq,lays.baseFields_specs]
  · rw [crcExtra_eq,Checksum.folded_halves,Checksum.ofBytes_serial]
  · intro parts whole
    rw [Checksum.foldl_update,whole]
    exact Checksum.ofBytes_serial _
  · intro otherId others other builtOther same
    obtain ⟨otherNamed,_,laysOther⟩ := build_ok_iff.mp builtOther
    rw [crcExtra_eq,crcExtra_eq,
      fingerprint_congr lays laysOther (named.trans otherNamed.symm) same]

/-- A text of sixteen octets, an enumeration, and another declaration of the same message with
another id, no enumeration and an extension between the base fields. -/
theorem crcExtra_described_param :
    let specs : List FieldSpec := [⟨"param_id",.char,false,16,false⟩,
      ⟨"param_value",.numeric .float,false,0,false⟩,⟨"param_type",.numeric .uint8,true,0,false⟩,
      ⟨"param_count",.numeric .uint16,false,0,false⟩]
    let others : List FieldSpec := [⟨"param_id",.char,false,16,false⟩,
      ⟨"param_value",.numeric .float,false,0,false⟩,⟨"origin",.numeric .double,false,3,true⟩,
      ⟨"param_type",.numeric .uint8,false,0,false⟩,⟨"param_count",.numeric .uint16,false,0,false⟩]
    let layout : Layout := ⟨"PARAM",22,wireOrder (placed specs)⟩
    let other : Layout := ⟨"PARAM",23,wireOrder (placed others)⟩
    let text : List UInt8 := ("PARAM float param_value uint16_t param_count char param_id " ++
      "\x10uint8_t param_type ").toUTF8.data.toList
    build "PARAM" 22 specs = .ok layout ∧ build "PARAM" 23 others = .ok other ∧
      layout.crcExtra.toBitVec =
        (Checksum.serial text).extractLsb' 8 8 ^^^ (Checksum.serial text).extractLsb' 0 8 ∧
      ([text.take 6,text.drop 6].foldl Checksum.update Checksum.initial).toBitVec =
        Checksum.serial text ∧ other.crcExtra = layout.crcExtra := by
  intro specs others layout other text
  have built : build "PARAM" 22 specs = .ok layout := rfl
  have builtOther : build "PARAM" 23 others = .ok other := rfl
  obtain ⟨_,taken,octets,crc,parts,same⟩ := crcExtra_described built
  have whole : taken = text := by
    apply List.map_injective_iff.mpr (fun _ _ => UInt8.toNat_inj.mp)
    rw [octets]
    decide +kernel
  subst whole
  exact ⟨built,builtOther,crc,parts [_,_] rfl,same 23 others other builtOther rfl⟩

end Layout

end MavPayload
