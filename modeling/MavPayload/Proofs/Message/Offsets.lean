import MavPayload.CommandLine.Run
import MavPayload.Proofs.Message.RoundTrip

/-! Where the octets of a field stand in a payload. Before it is shortened, a payload is what
the fields own one after another, each from the offset in its row of the layout's listing, so
a field that changes leaves all other octets alone. -/
namespace MavPayload

theorem littleEndian_get? (count value place : Nat) (inside : place < count) :
    (littleEndian count value)[place]? =
      some (UInt8.ofNat (value / Nat.pow 256 place % 256)) := by
  induction count generalizing value place with
  | zero => omega
  | succ count ih =>
    cases place with
    | zero => simp [littleEndian,Nat.pow]
    | succ place =>
      have power : Nat.pow 256 (place + 1) = 256 * Nat.pow 256 place := Nat.mul_comm _ _
      rw [littleEndian,List.getElem?_cons_succ,ih _ _ (by omega),Nat.div_div_eq_div_mul,power]

namespace NumericType

/-- Whether some octets spell a number: its digits to base 256, the lowest first, of an integer
in two's complement and of a float as the number of its pattern. -/
def Spelled (type : NumericType) (bits : BitVec type.width) (octets : List UInt8) : Prop :=
  let number : Int := if type.isFloat then bits.toNat else type.toInt bits
  octets.length = type.size ∧ ∀ place octet, octets[place]? = some octet →
    (octet.toNat : Int) = number / (Nat.pow 256 place : Nat) % 256

/-- An integer and its pattern differ by a multiple of the number of patterns, which the
octets of the type are too few to show. -/
theorem digit_toInt (type : NumericType) (bits : BitVec type.width) {place : Nat}
    (inside : place < type.size) :
    type.toInt bits / (Nat.pow 256 place : Nat) % 256 =
      (bits.toNat : Int) / (Nat.pow 256 place : Nat) % 256 := by
  obtain ⟨turns,wraps⟩ :
      ∃ turns : Int, type.toInt bits = bits.toNat + (Nat.pow 2 type.width : Nat) * turns := by
    cases signed : type.isSigned with
    | false => exact ⟨0,by simp [toInt,signed]⟩
    | true =>
      simp only [toInt,signed,if_true,BitVec.toInt_eq_toNat_cond]
      split
      · exact ⟨0,by simp⟩
      · exact ⟨-1,by rw [Int.mul_neg_one]; rfl⟩
  have patterns : Nat.pow 2 type.width =
      Nat.pow 256 place * (256 * Nat.pow 256 (type.size - (place + 1))) := by
    have places : place + (1 + (type.size - (place + 1))) = type.size := by omega
    calc Nat.pow 2 type.width = Nat.pow 256 type.size := (patterns_eq type).symm
      _ = Nat.pow 256 (place + (1 + (type.size - (place + 1)))) := by rw [places]
      _ = _ := by
        rw [Nat.pow_eq,Nat.pow_add,Nat.pow_add,Nat.pow_one]
        rfl
  have positive : ((Nat.pow 256 place : Nat) : Int) ≠ 0 :=
    Int.natCast_ne_zero.mpr (Nat.ne_of_gt (Nat.pow_pos (by decide)))
  rw [wraps,patterns,Int.natCast_mul,Int.mul_assoc,Int.add_mul_ediv_left _ _ positive,
    Int.natCast_mul,Int.mul_assoc]
  exact Int.add_mul_emod_self_left _ _ _

theorem encode_spelled (type : NumericType) (bits : BitVec type.width) :
    type.Spelled bits (type.encode bits) := by
  refine ⟨encode_length type bits,fun place octet found => ?_⟩
  obtain ⟨inside,_⟩ := List.getElem?_eq_some_iff.mp found
  rw [encode_length] at inside
  rw [encode,littleEndian_get? _ _ _ inside] at found
  cases found
  have digit : ((UInt8.ofNat (bits.toNat / Nat.pow 256 place % 256)).toNat : Int) =
      (bits.toNat : Int) / (Nat.pow 256 place : Nat) % 256 := by
    rw [UInt8.toNat_ofNat']
    omega
  split
  · exact digit
  · rw [digit,digit_toInt type bits inside]

end NumericType

def filledUp (size : Nat) (octets : List UInt8) : List UInt8 :=
  octets ++ List.replicate (size - octets.length) 0

namespace FieldSpec

/-- Whether some octets are a field's own: a number, as many numbers of an array as there is
room for, or as much of a text. The rest of the field is zeros, and all of it where nothing is
held. -/
inductive Owns (field : FieldSpec) : Option Value → List UInt8 → Prop
  | unset : Owns field none (filledUp field.size [])
  | number {type : NumericType} {bits : BitVec type.width} {octets : List UInt8}
    (numeric : field.type = .numeric type) (single : field.length = 0)
    (spelled : type.Spelled bits octets) : Owns field (some (.number type bits)) octets
  | numbers {type : NumericType} {items : List (BitVec type.width)} {parts : List (List UInt8)}
    (numeric : field.type = .numeric type) (several : 0 < field.length)
    (spelled : List.Forall₂ type.Spelled items parts) :
    Owns field (some (.array (items.map (Value.number type))))
      (filledUp field.size (parts.take field.length).flatten)
  | text {text : String} (char : field.type = .char) :
    Owns field (some (.text text))
      (filledUp field.size ((Text.Utf8.encode text).take field.size))

theorem elements_numbers {type : NumericType} {items : List Value}
    (elements : ∀ item ∈ items, item.isElementOf (.numeric type) = true) :
    ∃ numbers : List (BitVec type.width), items = numbers.map (Value.number type) := by
  induction items with
  | nil => exact ⟨[],rfl⟩
  | cons item rest ih =>
    obtain ⟨numbers,rfl⟩ := ih fun other member => elements other (List.mem_cons_of_mem _ member)
    have element := elements item (by simp)
    cases item with
    | number own bits =>
      obtain rfl : type = own := by simpa [Value.isElementOf] using element
      exact ⟨bits :: numbers,rfl⟩
    | _ => simp [Value.isElementOf] at element

theorem octets_owned {field : FieldSpec} {held : Option Value}
    (fits : ∀ value, held = some value → value.matchesField field = true) :
    field.Owns held (field.octets held) := by
  cases held with
  | none =>
    rw [octets_none]
    exact .unset
  | some value =>
    have known := fits value rfl
    cases kind : field.type with
    | char =>
      have single : field.isArray = false := by simp [isArray,isText,kind]
      have room : field.size = max field.length 1 := by
        rw [size_of_single single,elementSize,kind]
      simp only [Value.matchesField,single,Bool.false_eq_true,if_false] at known
      cases value with
      | text text =>
        rw [octets_text kind,← room]
        exact .text kind
      | _ => simp [Value.isElementOf,kind] at known
    | numeric type =>
      rcases Nat.eq_zero_or_pos field.length with short | several
      · have single : field.isArray = false := by simp [isArray,short]
        simp only [Value.matchesField,single,Bool.false_eq_true,if_false] at known
        cases value with
        | number own bits =>
          obtain rfl : type = own := by simpa [Value.isElementOf,kind] using known
          rw [octets_number kind short]
          exact .number kind short (type.encode_spelled bits)
        | _ => simp [Value.isElementOf,kind] at known
      · have array : field.isArray = true := isArray_iff.mpr ⟨several,by simp [kind]⟩
        simp only [Value.matchesField,array,if_true,kind] at known
        cases value with
        | array items =>
          obtain ⟨numbers,rfl⟩ := elements_numbers (List.all_eq_true.mp known)
          have spelled : List.Forall₂ type.Spelled numbers (numbers.map type.encode) :=
            List.forall₂_map_right_iff.mpr
              (List.forall₂_same.mpr fun bits _ => type.encode_spelled bits)
          rw [octets_array array,List.map_map]
          simp only [Function.comp_def,encodeElement_number kind]
          exact .numbers kind several spelled
        | _ => simp at known

end FieldSpec

namespace CommandLine

/-- The lines of a layout's listing above its rows. -/
def heading (layout : Layout) : String :=
  s!"{layout.name} (id {layout.id}) size {layout.payloadSize .v1}/{layout.payloadSize .v2} " ++
  s!"crc_extra {layout.crcExtra}\n\n"

theorem answer_inspect {dialect : Dialect} {key : String} {layout : Layout}
    (found : lookup dialect key = .ok layout) (host : Host Id) (configuration : Configuration) :
    answer host configuration dialect (.inspect key) = Except.ok (heading layout ++
      String.join ((withOffsets 0 layout.fields).map fun row => fieldRow row.1 row.2)) := by
  simp only [answer,found]
  rfl

theorem withOffsets_fields (start : Nat) (fields : List Field) :
    (withOffsets start fields).map Prod.snd = fields := by
  induction fields generalizing start with
  | nil => rfl
  | cons field rest ih => rw [withOffsets,List.map_cons,ih]

theorem withOffsets_append (start : Nat) (first second : List Field) :
    withOffsets start (first ++ second) =
      withOffsets start first ++ withOffsets (start + Layout.totalSize first) second := by
  induction first generalizing start with
  | nil => rfl
  | cons field rest ih =>
    simp only [List.cons_append,withOffsets,ih,Layout.totalSize,Nat.add_assoc]

theorem mem_withOffsets {start offset : Nat} {fields : List Field} {field : Field} :
    (offset,field) ∈ withOffsets start fields ↔ ∃ before later,
      fields = before ++ field :: later ∧ offset = start + Layout.totalSize before := by
  constructor
  · intro row
    induction fields generalizing start with
    | nil => cases row
    | cons first rest ih =>
      rcases List.mem_cons.mp row with here | row
      · cases here
        exact ⟨[],rest,rfl,rfl⟩
      · obtain ⟨before,later,rfl,rfl⟩ := ih row
        exact ⟨first :: before,later,rfl,Nat.add_assoc _ _ _⟩
  · rintro ⟨before,later,rfl,rfl⟩
    rw [withOffsets_append]
    exact List.mem_append_right _ (List.mem_cons_self)

end CommandLine

namespace Layout

variable {layout : Layout} {specs : List FieldSpec} {version : Version} {offset : Nat}
  {field : Field}

/-- The fields before one that a version carries are carried too, so it has the same offset
in every version. -/
theorem Lays.carried_at (lays : layout.Lays specs)
    (row : (offset,field) ∈ CommandLine.withOffsets 0 layout.fields)
    (carried : field ∈ layout.fieldsFor version) :
    ∃ before later, layout.fieldsFor version = before ++ field :: later ∧
      offset = totalSize before := by
  obtain ⟨others,whole⟩ := layout.fieldsFor_begins version
  have distinct := lays.names_distinct
  rw [← whole] at row distinct
  rw [CommandLine.withOffsets_append] at row
  -- the names are distinct, so the row of a field that is carried is not among the other rows
  rcases List.mem_append.mp row with inside | behind
  · obtain ⟨before,later,parts,rfl⟩ := CommandLine.mem_withOffsets.mp inside
    exact ⟨before,later,parts,Nat.zero_add _⟩
  · obtain ⟨before,later,rfl,_⟩ := CommandLine.mem_withOffsets.mp behind
    rw [List.map_append,List.nodup_append] at distinct
    exact absurd rfl (distinct.2.2 _ (List.mem_map_of_mem carried) _
      (List.mem_map_of_mem (by simp)))

end Layout

namespace Message

variable {layout : Layout} {specs : List FieldSpec} {message first second : Message}
  {version : Version} {offset : Nat} {field : Field}

/-- The payload of a message as the encoder fills it, before it is shortened. -/
def unsent? (message : Message) (version : Version) : Option (List UInt8) :=
  message.layout.fill? version fun field writer => writeField field (message.get? field.name) writer

theorem unsent?_eq (message : Message) (version : Version) :
    message.unsent? version = some (message.octets version) :=
  Layout.fill_octets (fun field _ => writeField_puts field _)
    fun _ _ => FieldSpec.octets_length _ _

theorem octets_at (lays : layout.Lays specs) (same : message.layout = layout)
    (row : (offset,field) ∈ CommandLine.withOffsets 0 layout.fields)
    (carried : field ∈ layout.fieldsFor version) :
    ((message.octets version).drop offset).take field.size =
      field.octets (message.get? field.name) := by
  obtain ⟨before,later,parts,rfl⟩ := lays.carried_at row carried
  have front : (before.flatMap fun field => field.octets (message.get? field.name)).length =
      Layout.totalSize before := Layout.flatMap_length fun _ _ => FieldSpec.octets_length _ _
  rw [octets,same,parts,List.flatMap_append,List.flatMap_cons,List.drop_left' front,
    List.take_left' (FieldSpec.octets_length _ _)]

theorem getElem?_outside {front part other back : List UInt8} (size : part.length = other.length)
    {place : Nat} (outside : place < front.length ∨ front.length + part.length ≤ place) :
    (front ++ (part ++ back))[place]? = (front ++ (other ++ back))[place]? := by
  rcases outside with before | behind
  · rw [List.getElem?_append_left before,List.getElem?_append_left before]
  · simp only [List.getElem?_append_right (by omega : front.length ≤ place),
      List.getElem?_append_right (by omega : part.length ≤ place - front.length),
      List.getElem?_append_right (by omega : other.length ≤ place - front.length),size]

theorem octets_outside (lays : layout.Lays specs) (firstOver : first.layout = layout)
    (secondOver : second.layout = layout)
    (row : (offset,field) ∈ CommandLine.withOffsets 0 layout.fields)
    (agree : ∀ other, other ≠ field.name → first.get? other = second.get? other)
    {place : Nat} (outside : place < offset ∨ offset + field.size ≤ place) :
    (first.octets version)[place]? = (second.octets version)[place]? := by
  have declared : field ∈ layout.fields := by
    obtain ⟨_,_,parts,_⟩ := CommandLine.mem_withOffsets.mp row
    simp [parts]
  have others {fields : List Field} (some : ∀ other ∈ fields, other ∈ layout.fields)
      (apart : field ∉ fields) :
      (fields.flatMap fun field => field.octets (first.get? field.name)) =
        fields.flatMap fun field => field.octets (second.get? field.name) := by
    apply List.flatMap_congr
    intro other member
    rw [agree other.name fun same => apart ?_]
    rwa [← List.inj_on_of_nodup_map lays.names_distinct (some other member) declared same]
  have known := (lays.fieldsFor_sublist version).subset
  rw [octets,octets,firstOver,secondOver]
  -- a field that the version leaves out changes no octet at all
  by_cases carried : field ∈ layout.fieldsFor version
  · obtain ⟨before,later,parts,rfl⟩ := lays.carried_at row carried
    have distinct := (lays.fieldsFor_distinct version).of_map
    rw [parts] at distinct known
    obtain ⟨beside,_⟩ := List.nodup_cons.mp (List.nodup_middle.mp distinct)
    rw [List.mem_append,not_or] at beside
    rw [parts,List.flatMap_append,List.flatMap_append,List.flatMap_cons,List.flatMap_cons,
      others (fun other member => known (by simp [member])) beside.1,
      others (fun other member => known (by simp [member])) beside.2]
    apply getElem?_outside
    · rw [FieldSpec.octets_length,FieldSpec.octets_length]
    · rw [Layout.flatMap_length fun _ _ => FieldSpec.octets_length _ _,FieldSpec.octets_length]
      exact outside
  · rw [others known carried]

/-- Whether a payload is what the encoder fills for a message and then shortens, and is made of
the octets that the fields own, each field from the offset of its row. -/
structure LaidOut (message : Message) (version : Version) (rows : List (Nat × Field))
    (payload : List UInt8) : Prop where
  filled : message.unsent? version = some payload
  encoded : message.encode version = .ok (sent version payload)
  joined : ∃ part : Field → List UInt8,
    payload = (message.layout.fieldsFor version).flatMap part ∧
      ∀ field ∈ message.layout.fieldsFor version, (part field).length = field.size ∧
        field.Owns (message.get? field.name) (part field) ∧
        ∀ offset, (offset,field) ∈ rows → (payload.drop offset).take field.size = part field

theorem laidOut (lays : layout.Lays specs) (reachable : Reachable layout message)
    (version : Version) : message.LaidOut version (CommandLine.withOffsets 0 layout.fields)
      (message.octets version) where
  filled := unsent?_eq message version
  encoded := encode_eq message version
  joined := by
    refine ⟨fun field => field.octets (message.get? field.name),rfl,fun field carried => ?_⟩
    rw [reachable.layout_eq] at carried
    have declared := (lays.fieldsFor_sublist version).subset carried
    exact ⟨FieldSpec.octets_length _ _,
      FieldSpec.octets_owned fun _ held => reachable.get?_matches lays declared held,
      fun _ row => octets_at lays reachable.layout_eq row carried⟩

/-- The listing of a layout shows a row for each field, and its offset is where the octets of
the field stand in every payload. Messages that differ in one field have payloads that differ
inside its place only. -/
theorem laidOut_at_offsets {name : String} {id : Nat}
    (built : Layout.build name id specs = .ok layout) :
    (∀ (host : CommandLine.Host Id) configuration dialect key,
      CommandLine.lookup dialect key = .ok layout →
        CommandLine.answer host configuration dialect (.inspect key) =
          Except.ok (CommandLine.heading layout ++ String.join
            ((CommandLine.withOffsets 0 layout.fields).map fun row =>
              CommandLine.fieldRow row.1 row.2))) ∧
    (CommandLine.withOffsets 0 layout.fields).map Prod.snd = layout.fields ∧
    (∀ message version, Reachable layout message →
      ∃ payload, message.LaidOut version (CommandLine.withOffsets 0 layout.fields) payload) ∧
    ∀ first second version offset field, Reachable layout first → Reachable layout second →
      (offset,field) ∈ CommandLine.withOffsets 0 layout.fields →
      (∀ other, other ≠ field.name → first.get? other = second.get? other) →
      ∃ payload other, first.unsent? version = some payload ∧
        second.unsent? version = some other ∧ payload.length = other.length ∧
        ∀ place, place < offset ∨ offset + field.size ≤ place → payload[place]? = other[place]? := by
  obtain ⟨_,_,lays⟩ := Layout.build_ok_iff.mp built
  refine ⟨fun host configuration dialect key found =>
      CommandLine.answer_inspect found host configuration,CommandLine.withOffsets_fields 0 _,
    fun message version reachable => ⟨_,laidOut lays reachable version⟩,?_⟩
  intro first second version offset field ofFirst ofSecond row agree
  refine ⟨_,_,unsent?_eq first version,unsent?_eq second version,?_,fun place outside => ?_⟩
  · rw [octets_length,octets_length,ofFirst.layout_eq,ofSecond.layout_eq]
  · exact octets_outside lays ofFirst.layout_eq ofSecond.layout_eq row agree outside

/-- A text that is cut inside a character, and another text in its place. -/
theorem laidOut_at_offsets_cut :
    let specs : List FieldSpec := [⟨"label",.char,false,3,false⟩,
      ⟨"count",.numeric .uint16,false,0,false⟩,⟨"gains",.numeric .uint8,false,2,true⟩]
    let layout : Layout := ⟨"CUT",7,Layout.wireOrder (Layout.placed specs)⟩
    let dialect : Dialect := ⟨"cut",1,⟨[(7,layout)],[("CUT",7)]⟩⟩
    let host : CommandLine.Host Id := ⟨fun _ => .error "",.error "",fun _ _ => .error ""⟩
    let first : Message := ⟨layout,[("label",.text "a€"),("gains",.array [.number .uint8 5])]⟩
    let second : Message := ⟨layout,[("label",.text "b"),("gains",.array [.number .uint8 5])]⟩
    let label : Field := ⟨⟨"label",.char,false,3,false⟩,0⟩
    Layout.build "CUT" 7 specs = .ok layout ∧
      CommandLine.answer host {} dialect (.inspect "cut") = Except.ok (
        "CUT (id 7) size 5/7 crc_extra 6\n\n" ++
        "     0  count                                    uint16       #1\n" ++
        "     2  label                                    char[3]      #0\n" ++
        "     5  gains                                    uint8[2]     #2 extension\n") ∧
      Reachable layout first ∧ Reachable layout second ∧
      first.LaidOut .v2 (CommandLine.withOffsets 0 layout.fields) [0,0,97,226,130,5,0] ∧
      (2,label) ∈ CommandLine.withOffsets 0 layout.fields ∧
      ∃ payload other, first.unsent? .v1 = some payload ∧ second.unsent? .v1 = some other ∧
        payload.length = other.length ∧
        ∀ place, place < 2 ∨ 2 + label.size ≤ place → payload[place]? = other[place]? := by
  intro specs layout dialect host first second label
  have built : Layout.build "CUT" 7 specs = .ok layout := rfl
  have reaches (text : String) : Reachable layout
      ⟨layout,[("label",.text text),("gains",.array [.number .uint8 5])]⟩ := by
    have labelled : Message.set { layout } "label" (.text text) =
        .ok ⟨layout,[("label",.text text)]⟩ := rfl
    have both : Message.set ⟨layout,[("label",.text text)]⟩ "gains" (.array [.number .uint8 5]) =
        .ok ⟨layout,[("label",.text text),("gains",.array [.number .uint8 5])]⟩ := rfl
    exact .set (.set .new labelled) both
  obtain ⟨listed,_,lays,apart⟩ := laidOut_at_offsets built
  have row : (2,label) ∈ CommandLine.withOffsets 0 layout.fields := by decide
  refine ⟨built,?_,reaches _,reaches _,?_,row,
    apart first second .v1 2 label (reaches _) (reaches _) row ?_⟩
  · rw [listed host {} dialect "cut" rfl]
    exact congrArg Except.ok (by decide +kernel)
  · obtain ⟨payload,laid⟩ := lays first .v2 (reaches _)
    have filled : first.unsent? .v2 = some [0,0,97,226,130,5,0] := by decide +kernel
    rw [laid.filled] at filled
    cases filled
    exact laid
  · intro other different
    have own : "label" ≠ other := Ne.symm different
    simp only [Message.get?,Bindings.get?,first,second,own,if_false]

end Message

end MavPayload
