import MavPayload.Proofs.Message.Reachable
import Mathlib.Algebra.GroupWithZero.Nat

/-! The slots of a payload. A codec goes through the payload slot by slot, one for each
element of an array and one for any other field, and does nothing else with its place. The
slots of a layout fill a payload of full length, so none of them reaches beyond it. -/
namespace MavPayload

namespace Reader

/-- Takes the octets of several slots, one slot after another. -/
def takeAll : List Nat → Reader → Option (List (List UInt8) × Reader)
  | [],reader => some ([],reader)
  | size :: sizes,reader => do
    let (bytes,reader) ← reader.take size
    let (parts,reader) ← takeAll sizes reader
    return (bytes :: parts,reader)

/-- A step that takes the octets of some slots, whatever payload it is in, and makes a
value of them. -/
def TakesAll {α : Type} (read : Reader → Option (α × Reader)) (slots : List Nat) : Prop :=
  ∃ value : List (List UInt8) → α, ∀ reader : Reader,
    read reader = (reader.takeAll slots).map fun taken => (value taken.1,taken.2)

theorem takeAll_append (first second : List Nat) (reader : Reader) :
    reader.takeAll (first ++ second) = (reader.takeAll first).bind fun front =>
      (front.2.takeAll second).map fun back => (front.1 ++ back.1,back.2) := by
  induction first generalizing reader with
  | nil => simp [takeAll]
  | cons size rest ih =>
    simp only [List.cons_append,takeAll,ih,bind]
    cases reader.take size with
    | none => rfl
    | some taken =>
      simp only [Option.bind_some]
      cases taken.2.takeAll rest with
      | none => rfl
      | some front =>
        simp only [Option.bind_some,pure]
        cases front.2.takeAll second <;> rfl

theorem takeAll_length {slots : List Nat} {reader next : Reader} {parts : List (List UInt8)}
    (taken : reader.takeAll slots = some (parts,next)) : parts.length = slots.length := by
  induction slots generalizing reader parts with
  | nil =>
    cases taken
    rfl
  | cons size rest ih =>
    obtain ⟨first,_,taken⟩ := Option.bind_eq_some_iff.mp taken
    obtain ⟨others,later,same⟩ := Option.bind_eq_some_iff.mp taken
    cases same
    exact congrArg (· + 1) (ih later)

theorem takeAll_inside {slots : List Nat} {payload : List UInt8} {offset : Nat}
    (fits : offset + slots.sum ≤ payload.length) :
    ∃ parts, takeAll slots ⟨payload,offset⟩ = some (parts,⟨payload,offset + slots.sum⟩) := by
  induction slots generalizing offset with
  | nil => exact ⟨[],rfl⟩
  | cons size rest ih =>
    rw [List.sum_cons,← Nat.add_assoc] at fits
    have room : offset + size ≤ payload.length := by omega
    obtain ⟨parts,later⟩ := ih fits
    refine ⟨(payload.drop offset).take size :: parts,?_⟩
    simp only [takeAll,take,room,if_true,bind,Option.bind_some,later,List.sum_cons,Nat.add_assoc]
    rfl

theorem times_takeAll {α : Type} {read : Reader → Option (α × Reader)} {size : Nat}
    {value : List UInt8 → α}
    (one : ∀ reader, read reader = (reader.take size).map fun taken => (value taken.1,taken.2))
    (count : Nat) (reader : Reader) :
    (reader.times read count).map (fun items => (items.1.toList,items.2)) =
      (reader.takeAll (List.replicate count size)).map fun taken =>
        (taken.1.map value,taken.2) := by
  induction count with
  | zero => rfl
  | succ count ih =>
    rw [List.replicate_succ',takeAll_append]
    simp only [times,bind]
    cases front : reader.takeAll (List.replicate count size) with
    | none =>
      rw [front,Option.map_none,Option.map_eq_none_iff] at ih
      rw [ih]
      rfl
    | some taken =>
      rw [front,Option.map_some] at ih
      obtain ⟨items,read,same⟩ := Option.map_eq_some_iff.mp ih
      obtain ⟨values,place⟩ := Prod.mk.inj same
      simp only [read,Option.bind_some,one,takeAll,bind,place]
      cases taken.2.take size with
      | none => rfl
      | some last => simp [pure,Vector.toList_push,values]

theorem takesAll_foldlM {ι σ : Type} {step : ι → Reader → σ → Option (σ × Reader)}
    {slots : ι → List Nat}
    (each : ∀ item state, TakesAll (fun reader => step item reader state) (slots item))
    (items : List ι) (state : σ) :
    TakesAll (fun reader => items.foldlM
      (fun (state : σ × Reader) item => step item state.2 state.1) (state,reader))
      (items.flatMap slots) := by
  -- On the steps still to be made, whatever the state: what they read depends on it, and
  -- which slots they take does not.
  induction items generalizing state with
  | nil => exact ⟨fun _ => state,fun _ => rfl⟩
  | cons item rest ih =>
    obtain ⟨first,taken⟩ := each item state
    choose others later using ih
    refine ⟨fun parts => others (first (parts.take (slots item).length))
      (parts.drop (slots item).length),fun reader => ?_⟩
    dsimp only at taken later ⊢
    rw [List.foldlM_cons,taken,List.flatMap_cons,takeAll_append]
    cases front : reader.takeAll (slots item) with
    | none => rfl
    | some head =>
      have count := takeAll_length front
      simp only [Option.map_some,bind,Option.bind_some,later,Option.map_map]
      cases head.2.takeAll (rest.flatMap slots) with
      | none => rfl
      | some tail =>
        simp only [Option.map_some,Function.comp_apply,← count,List.take_left,List.drop_left]

end Reader

namespace Writer

def putAll (parts : List (List UInt8)) (writer : Writer) : Option Writer :=
  parts.foldlM put writer

theorem putAll_flatMap {ι : Type} {write : ι → Writer → Option Writer}
    {parts : ι → List (List UInt8)}
    (each : ∀ item writer, write item writer = writer.putAll (parts item)) (items : List ι)
    (writer : Writer) :
    items.foldlM (fun writer item => write item writer) writer =
      writer.putAll (items.flatMap parts) := by
  induction items generalizing writer with
  | nil => rfl
  | cons item rest ih =>
    rw [List.foldlM_cons,each,List.flatMap_cons,putAll,putAll,List.foldlM_append]
    exact congrArg _ (funext ih)

theorem putAll_zeros (parts : List (List UInt8)) :
    (zeros parts.flatten.length).putAll parts = some ⟨parts.flatten,parts.flatten.length⟩ := by
  have puts : ∀ part ∈ parts, Puts (fun writer => writer.put part) part := fun _ _ _ _ => rfl
  have start : (zeros parts.flatten.length).Inside := Nat.zero_le _
  have all := Puts.foldlM puts _ start
  rw [List.flatMap_id'] at all
  rw [← put_zeros]
  exact all

end Writer

namespace FieldSpec

/-- The sizes of the slots of a field. -/
def slots (field : FieldSpec) : List Nat :=
  if field.isArray then List.replicate field.length field.type.size else [field.size]

/-- The octets of each slot of a field that holds a value, or none. -/
def parts (field : FieldSpec) (held : Option Value) : List (List UInt8) :=
  if field.isArray then
    (List.range field.length).map fun place =>
      field.encodeElement
        (((held.bind Value.asArray?).getD [])[place]?.getD (Value.zero field.type))
  else [(held.map field.encodeElement).getD (List.replicate field.size 0)]

theorem slots_sum (field : FieldSpec) : field.slots.sum = field.size := by
  cases array : field.isArray with
  | true =>
    simp only [slots,array,if_true,List.sum_replicate_nat,size_of_array array,
      elementSize_of_array array,Nat.mul_comm]
  | false => simp [slots,array]

theorem parts_length (field : FieldSpec) (held : Option Value) :
    (field.parts held).map List.length = field.slots := by
  cases array : field.isArray with
  | true =>
    simp only [parts,slots,array,if_true,List.map_map,Function.comp_def,encodeElement_length,
      List.map_const',List.length_range,elementSize_of_array array]
  | false =>
    cases held <;> simp [parts,slots,array,size_of_single array]

end FieldSpec

namespace Layout

def slots (layout : Layout) (version : Version) : List Nat :=
  (layout.fieldsFor version).flatMap fun field => field.slots

theorem slots_sum (layout : Layout) (version : Version) :
    (layout.slots version).sum = layout.payloadSize version := by
  rw [slots,payloadSize]
  induction layout.fieldsFor version with
  | nil => rfl
  | cons field rest ih =>
    rw [List.flatMap_cons,List.sum_append,ih,FieldSpec.slots_sum]
    rfl

theorem slot_inside {layout : Layout} {version : Version} {before later : List Nat} {slot : Nat}
    (place : layout.slots version = before ++ slot :: later) :
    before.sum + slot ≤ layout.payloadSize version := by
  rw [← slots_sum,place,List.sum_append,List.sum_cons]
  omega

end Layout

namespace Message

/-- The walk of a decoder over the fields of a version. -/
def readAll (layout : Layout) (version : Version) (reader : Reader) :
    Option (Bindings Value × Reader) :=
  (layout.fieldsFor version).foldlM
    (fun (state : Bindings Value × Reader) field => readInto field state.2 state.1) ([],reader)

def writeAll (message : Message) (version : Version) (writer : Writer) : Option Writer :=
  (message.layout.fieldsFor version).foldlM
    (fun writer field => writeField field (message.get? field.name) writer) writer

theorem readField_takesAll (field : Field) : Reader.TakesAll (readField field) field.slots := by
  cases array : field.isArray with
  | true =>
    refine ⟨fun parts => .array (parts.map field.decodeElement),fun reader => ?_⟩
    have elements := Reader.times_takeAll (readElement_take field) field.length reader
    rw [FieldSpec.elementSize_of_array array] at elements
    simp only [readField,FieldSpec.slots,array,if_true,bind]
    have wrapped := congrArg (Option.map fun items => (Value.array items.1,items.2)) elements
    simp only [Option.map_map,Function.comp_def] at wrapped
    rw [← wrapped]
    cases reader.times (readElement field) field.length <;> rfl
  | false =>
    refine ⟨fun parts => field.decodeElement parts.flatten,fun reader => ?_⟩
    simp only [readField,FieldSpec.slots,array,Bool.false_eq_true,if_false,Reader.takeAll,
      readElement_take,FieldSpec.size_of_single array,bind]
    cases reader.take field.elementSize with
    | none => rfl
    | some taken => simp [pure]

theorem readInto_takesAll (field : Field) (values : Bindings Value) :
    Reader.TakesAll (fun reader => readInto field reader values) field.slots := by
  obtain ⟨value,taken⟩ := readField_takesAll field
  refine ⟨fun parts => values.insert field.name (value parts),fun reader => ?_⟩
  simp only [readInto,taken]
  cases reader.takeAll field.slots <;> rfl

theorem writeField_putAll (field : Field) (held : Option Value) (writer : Writer) :
    writeField field held writer = writer.putAll (field.parts held) := by
  cases array : field.isArray with
  | true =>
    simp only [writeField,writeElements,FieldSpec.parts,Writer.putAll,array,if_true,
      List.foldlM_map]
  | false =>
    simp only [writeField,FieldSpec.parts,Writer.putAll,array,Bool.false_eq_true,if_false,
      List.foldlM_cons,List.foldlM_nil]
    cases held <;> exact (bind_pure _).symm

/-- A walk that reads a payload slot by slot, from its beginning to its end. -/
structure ReadsSlots {α : Type} (slots : List Nat) (payload : List UInt8)
    (walk : Reader → Option (α × Reader)) (result : α) : Prop where
  takes : Reader.TakesAll walk slots
  inside : ∀ before slot later, slots = before ++ slot :: later →
    before.sum + slot ≤ payload.length
  ends : walk ⟨payload,0⟩ = some (result,⟨payload,payload.length⟩)

/-- A walk that writes a payload over as many zeros, filling one slot after another. -/
structure WritesSlots (slots : List Nat) (payload : List UInt8)
    (walk : Writer → Option Writer) : Prop where
  puts : ∃ parts : List (List UInt8), parts.map List.length = slots ∧
    ∀ writer, walk writer = writer.putAll parts
  inside : ∀ before slot later, slots = before ++ slot :: later →
    before.sum + slot ≤ payload.length
  ends : walk (Writer.zeros payload.length) = some ⟨payload,payload.length⟩

theorem readAll_slots {layout : Layout} {version : Version} {full : List UInt8}
    (length : full.length = layout.payloadSize version) :
    ∃ values, ReadsSlots (layout.slots version) full (readAll layout version) values := by
  have takes : Reader.TakesAll (readAll layout version) (layout.slots version) :=
    Reader.takesAll_foldlM readInto_takesAll _ _
  obtain ⟨value,taken⟩ := id takes
  have fits : 0 + (layout.slots version).sum ≤ full.length := by
    rw [Nat.zero_add,Layout.slots_sum,length]
  obtain ⟨parts,all⟩ := Reader.takeAll_inside fits
  refine ⟨value parts,takes,fun before slot later place => ?_,?_⟩
  · rw [length]
    exact Layout.slot_inside place
  · rw [taken,all,Nat.zero_add,Layout.slots_sum,length]
    rfl

theorem writeAll_slots (message : Message) (version : Version) :
    ∃ payload, payload.length = message.layout.payloadSize version ∧
      WritesSlots (message.layout.slots version) payload (message.writeAll version) := by
  let parts := (message.layout.fieldsFor version).flatMap fun field =>
    field.parts (message.get? field.name)
  have puts (writer : Writer) : message.writeAll version writer = writer.putAll parts :=
    Writer.putAll_flatMap (fun field => writeField_putAll field (message.get? field.name)) _ writer
  have lengths : parts.map List.length = message.layout.slots version := by
    simp only [parts,Layout.slots,List.map_flatMap,FieldSpec.parts_length]
  have size : parts.flatten.length = message.layout.payloadSize version := by
    rw [List.length_flatten,lengths,Layout.slots_sum]
  refine ⟨parts.flatten,size,⟨parts,lengths,puts⟩,fun before slot later place => ?_,?_⟩
  · rw [size]
    exact Layout.slot_inside place
  · rw [puts,Writer.putAll_zeros]

theorem decode_slots {layout : Layout} {payload full : List UInt8} {version : Version}
    (received : layout.receive version payload = .ok full) :
    ∃ values, ReadsSlots (layout.slots version) full (readAll layout version) values ∧
      decode layout payload version = .ok { layout, values } := by
  obtain ⟨values,reads⟩ := readAll_slots (Layout.receive_length received)
  have scanned : layout.scan? version readInto [] full = some values :=
    congrArg (Option.map Prod.fst) reads.ends
  refine ⟨values,reads,?_⟩
  simp only [decode,Layout.decodeWith,received,scanned,bind,Except.bind]
  rfl

theorem encode_slots (message : Message) (version : Version) :
    ∃ payload, payload.length = message.layout.payloadSize version ∧
      WritesSlots (message.layout.slots version) payload (message.writeAll version) ∧
      message.encode version = .ok (sent version payload) := by
  obtain ⟨payload,length,writes⟩ := writeAll_slots message version
  have filled : message.layout.fill? version (fun field writer =>
      writeField field (message.get? field.name) writer) = some payload := by
    have ends := writes.ends
    rw [length] at ends
    exact congrArg (Option.map fun writer => writer.buffer) ends
  refine ⟨payload,length,writes,?_⟩
  simp only [encode,Layout.encodeWith,filled]

/-- A payload is refused only for its length, and only in the first generation. Any other
is read slot by slot to its end, as is written what a message is encoded to. -/
theorem codec_slots {name : String} {id : Nat} {specs : List FieldSpec} {layout : Layout}
    (built : Layout.build name id specs = .ok layout) :
    (∀ payload version error, decode layout payload version = .error error ↔
      version = .v1 ∧ payload.length ≠ layout.payloadSize .v1 ∧
        error = .sizeMismatch name (layout.payloadSize .v1) payload.length) ∧
    (∀ payload version, (version = .v1 → payload.length = layout.payloadSize .v1) →
      ∃ full values, layout.receive version payload = .ok full ∧
        full.length = layout.payloadSize version ∧
        ReadsSlots (layout.slots version) full (readAll layout version) values ∧
        decode layout payload version = .ok { layout, values }) ∧
    ∀ message version, Reachable layout message →
      ∃ payload, payload.length = layout.payloadSize version ∧
        WritesSlots (layout.slots version) payload (message.writeAll version) ∧
        message.encode version = .ok (sent version payload) := by
  obtain ⟨named,_,_⟩ := Layout.build_ok_iff.mp built
  refine ⟨fun payload version error => ?_,fun payload version fits => ?_,
    fun message version reachable => ?_⟩
  · rw [← named]
    exact decode_error_iff
  · cases received : layout.receive version payload with
    | error error =>
      obtain ⟨first,different,_⟩ := Layout.receive_error received
      exact absurd (fits first) different
    | ok full =>
      obtain ⟨values,reads,decoded⟩ := decode_slots received
      exact ⟨full,values,rfl,Layout.receive_length received,reads,decoded⟩
  · rw [← reachable.layout_eq]
    exact encode_slots message version

/-- A text buffer of no declared length has a slot of one octet, and an array a slot for
each element. -/
theorem codec_slots_cut :
    let specs : List FieldSpec := [⟨"mark",.char,false,0,false⟩,⟨"label",.char,false,3,false⟩,
      ⟨"count",.numeric .uint16,false,0,false⟩,⟨"gains",.numeric .float,false,2,true⟩]
    let layout : Layout := ⟨"CUT",7,Layout.wireOrder (Layout.placed specs)⟩
    let message : Message := ⟨layout,[("label",.text "a€uro")]⟩
    Layout.build "CUT" 7 specs = .ok layout ∧ layout.slots .v2 = [2,1,3,4,4] ∧
      decode layout [1,2] .v1 = .error (.sizeMismatch "CUT" 6 2) ∧
      (∃ full values, layout.receive .v2 [1,2] = .ok full ∧ full.length = 14 ∧
        ReadsSlots [2,1,3,4,4] full (readAll layout .v2) values ∧
        decode layout [1,2] .v2 = .ok { layout, values }) ∧
      ∃ payload, payload.length = 14 ∧
        WritesSlots [2,1,3,4,4] payload (message.writeAll .v2) ∧
        message.encode .v2 = .ok (sent .v2 payload) := by
  intro specs layout message
  have built : Layout.build "CUT" 7 specs = .ok layout := rfl
  have labelled : Message.set { layout } "label" (.text "a€uro") = .ok message := rfl
  obtain ⟨refused,read,written⟩ := codec_slots built
  refine ⟨built,rfl,(refused _ _ _).mpr ⟨rfl,by decide,rfl⟩,?_,?_⟩
  · exact read [1,2] .v2 (fun first => nomatch first)
  · exact written message .v2 (.set .new labelled)

end Message

end MavPayload
