import MavPayload.Message
import MavPayload.Proofs.Cursor
import MavPayload.Proofs.Element
import Mathlib.Data.List.Basic

/-! One field of a payload: the octets that it is written as, the value that octets are
read as, and what becomes of a value between the two. -/
namespace MavPayload

namespace FieldSpec

def octets (field : FieldSpec) (held : Option Value) : List UInt8 :=
  if field.isArray then
    (List.range field.length).flatMap fun place =>
      field.encodeElement
        (((held.bind Value.asArray?).getD [])[place]?.getD (Value.zero field.type))
  else (held.map field.encodeElement).getD (List.replicate field.size 0)

/-- The value of a field with some octets. -/
def ofOctets (field : FieldSpec) (bytes : List UInt8) : Value :=
  if field.isArray then
    .array ((List.range field.length).map fun place =>
      field.decodeElement ((bytes.drop (field.elementSize * place)).take field.elementSize))
  else field.decodeElement bytes

/-- What a field holds once its value has been over the wire: an array cut or filled up
with zeros to its length, the text that the buffer carries, and zero for no value. -/
def wireForm (field : FieldSpec) (held : Option Value) : Value :=
  match field.type with
  | .char => .text (CharBuffer.carried (max field.length 1) ((held.bind Value.asText?).getD ""))
  | .numeric type =>
    if 0 < field.length then
      let items := (held.bind Value.asArray?).getD []
      .array (items.take field.length ++
        List.replicate (field.length - items.length) (.number type 0))
    else held.getD (.number type 0)

theorem isArray_iff {field : FieldSpec} :
    field.isArray = true ↔ 0 < field.length ∧ field.type ≠ .char := by
  simp [isArray,isText]

theorem size_of_array {field : FieldSpec} (array : field.isArray = true) :
    field.size = field.elementSize * field.length := by
  obtain ⟨long,number⟩ := isArray_iff.mp array
  cases type : field.type with
  | numeric _ => simp [size,elementSize,type,FieldType.size,Nat.max_eq_left long]
  | char => exact absurd type number

theorem elementSize_of_array {field : FieldSpec} (array : field.isArray = true) :
    field.elementSize = field.type.size := by
  obtain ⟨_,number⟩ := isArray_iff.mp array
  cases type : field.type with
  | numeric _ => simp [elementSize,type,FieldType.size]
  | char => exact absurd type number

theorem size_of_single {field : FieldSpec} (single : field.isArray = false) :
    field.size = field.elementSize := by
  cases type : field.type with
  | numeric _ =>
    have short : field.length = 0 := by simpa [isArray,isText,type] using single
    simp [size,elementSize,type,FieldType.size,short]
  | char => simp [size,elementSize,type,FieldType.size]

@[simp] theorem encodeElement_length (field : FieldSpec) (value : Value) :
    (field.encodeElement value).length = field.elementSize := by
  cases type : field.type with
  | numeric type =>
    cases value with
    | number own bits =>
      simp only [encodeElement,elementSize,type]
      split
      · exact NumericType.encode_length _ _
      · exact List.length_replicate
    | _ => simp [encodeElement,elementSize,type]
  | char => cases value <;> simp [encodeElement,elementSize,type]

@[simp] theorem octets_length (field : FieldSpec) (held : Option Value) :
    (field.octets held).length = field.size := by
  unfold octets
  split
  · rename_i array
    simp only [size_of_array array,List.length_flatMap,encodeElement_length,List.map_const',
      List.sum_replicate_nat,List.length_range,Nat.mul_comm]
  · rename_i single
    have single : field.isArray = false := by simpa using single
    cases held <;> simp [size_of_single single]

theorem encodeElement_number {field : FieldSpec} {type : NumericType} (numeric : field.type = type)
    (bits : BitVec type.width) : field.encodeElement (.number type bits) = type.encode bits := by
  simp only [encodeElement,numeric,dif_pos]

theorem encodeElement_text {field : FieldSpec} (char : field.type = .char) (text : String) :
    field.encodeElement (.text text) = CharBuffer.encode (max field.length 1) text := by
  simp only [encodeElement,elementSize,char]

theorem octets_number {field : FieldSpec} {type : NumericType} (numeric : field.type = type)
    (short : field.length = 0) (bits : BitVec type.width) :
    field.octets (some (.number type bits)) = type.encode bits := by
  have single : field.isArray = false := by simp [isArray,short]
  simp only [octets,single,Bool.false_eq_true,if_false,Option.map_some,Option.getD_some,
    encodeElement_number numeric]

theorem octets_text {field : FieldSpec} (char : field.type = .char) (text : String) :
    field.octets (some (.text text)) = CharBuffer.encode (max field.length 1) text := by
  have single : field.isArray = false := by simp [isArray,isText,char]
  simp only [octets,single,Bool.false_eq_true,if_false,Option.map_some,Option.getD_some,
    encodeElement_text char]

theorem decodeElement_number {field : FieldSpec} {type : NumericType} (numeric : field.type = type)
    (bits : BitVec type.width) :
    field.decodeElement (field.encodeElement (.number type bits)) = .number type bits := by
  rw [encodeElement_number numeric]
  simp only [decodeElement,numeric,NumericType.decode_encode]

theorem decodeElement_text {field : FieldSpec} (char : field.type = .char) (text : String) :
    field.decodeElement (field.encodeElement (.text text)) =
      .text (CharBuffer.carried (max field.length 1) text) := by
  simp only [decodeElement,encodeElement,elementSize,char,CharBuffer.decode_encode]

theorem decodeElement_element {field : FieldSpec} {value : Value} (number : field.type ≠ .char)
    (element : value.isElementOf field.type = true) :
    field.decodeElement (field.encodeElement value) = value := by
  cases value with
  | number own bits =>
    have same : field.type = .numeric own := by simpa [Value.isElementOf] using element
    exact decodeElement_number same bits
  | text _ =>
    have same : field.type = .char := by simpa [Value.isElementOf] using element
    exact absurd same number
  | bool _ => simp [Value.isElementOf] at element
  | array _ => simp [Value.isElementOf] at element

theorem decodeElement_zeros (field : FieldSpec) :
    field.decodeElement (List.replicate field.elementSize 0) = Value.zero field.type := by
  cases type : field.type with
  | numeric type =>
    simp only [decodeElement,type,NumericType.decode_zeros,Value.zero]
  | char =>
    have nothing : (List.replicate field.elementSize (0 : UInt8)).takeWhile (· != 0) = [] := by
      cases field.elementSize <;> simp [List.replicate_succ]
    simp [decodeElement,type,Value.zero,CharBuffer.decode,nothing,Text.Utf8.decodeLossy,
      Text.Utf8.readFrom]

theorem range_padded {α : Type} (items : List α) (filler : α) (count : Nat) :
    ((List.range count).map fun place => items[place]?.getD filler) =
      items.take count ++ List.replicate (count - items.length) filler := by
  apply List.ext_getElem
  · simp only [List.length_map,List.length_range,List.length_append,List.length_take,
      List.length_replicate]
    omega
  · intro place left right
    simp only [List.getElem_map,List.getElem_range,List.getElem_append]
    split
    · rename_i inside
      rw [List.length_take] at inside
      rw [List.getElem?_eq_getElem (by omega),Option.getD_some,List.getElem_take]
    · rename_i outside
      simp only [List.length_map,List.length_range] at left
      rw [List.length_take] at outside
      rw [List.getElem?_eq_none (by omega),Option.getD_none,List.getElem_replicate]

theorem isElementOf_zero (type : FieldType) : (Value.zero type).isElementOf type = true := by
  cases type <;> simp [Value.zero,Value.isElementOf]

theorem items_elements {field : FieldSpec} {held : Option Value} (array : field.isArray = true)
    (fits : ∀ value, held = some value → value.matchesField field = true) :
    ∀ item ∈ (held.bind Value.asArray?).getD [], item.isElementOf field.type = true := by
  intro item member
  cases held with
  | none => simp at member
  | some value =>
    have known := fits value rfl
    simp only [Value.matchesField,array,if_true] at known
    cases value with
    | array items =>
      simp only [Option.bind_some,Value.asArray?,Option.getD_some] at member
      exact List.all_eq_true.mp known item member
    | _ => simp at known

theorem ofOctets_octets {field : FieldSpec} {held : Option Value}
    (fits : ∀ value, held = some value → value.matchesField field = true) :
    field.ofOctets (field.octets held) = field.wireForm held := by
  cases array : field.isArray with
  | true =>
    obtain ⟨long,number⟩ := isArray_iff.mp array
    have elements := items_elements array fits
    have kept (place : Nat) : field.decodeElement (field.encodeElement
        (((held.bind Value.asArray?).getD [])[place]?.getD (Value.zero field.type))) =
        ((held.bind Value.asArray?).getD [])[place]?.getD (Value.zero field.type) := by
      -- Beyond the end of the value stand zeros, which are elements too.
      apply decodeElement_element number
      cases found : ((held.bind Value.asArray?).getD [])[place]? with
      | none => exact isElementOf_zero _
      | some item => exact elements item (List.mem_of_getElem? found)
    have parts : (List.range field.length).map (fun place => field.decodeElement
        (((field.octets held).drop (field.elementSize * place)).take field.elementSize)) =
        (List.range field.length).map fun place =>
          ((held.bind Value.asArray?).getD [])[place]?.getD (Value.zero field.type) := by
      apply List.map_congr_left
      intro place member
      have inside : place < (List.range field.length).length := by simpa using member
      rw [octets,if_pos array,flatMap_part (fun _ => encodeElement_length _ _) _ inside,
        List.getElem_range]
      exact kept place
    rw [ofOctets,if_pos array,parts,range_padded]
    cases type : field.type with
    | numeric type => simp only [wireForm,type,long,if_true,Value.zero]
    | char => exact absurd type number
  | false =>
    simp only [ofOctets,octets,array,Bool.false_eq_true,if_false]
    cases held with
    | none =>
      rw [Option.map_none,Option.getD_none,size_of_single array,decodeElement_zeros]
      cases type : field.type with
      | numeric type =>
        have short : ¬ 0 < field.length := by simpa [isArray,isText,type] using array
        simp only [Value.zero,wireForm,type,short,if_false,Option.getD_none]
      | char =>
        simp only [Value.zero,wireForm,type,Option.bind_none,Option.getD_none,
          CharBuffer.carried_empty]
    | some value =>
      have known := fits value rfl
      simp only [Value.matchesField,array,Bool.false_eq_true,if_false] at known
      rw [Option.map_some,Option.getD_some]
      cases type : field.type with
      | numeric type =>
        have short : ¬ 0 < field.length := by simpa [isArray,isText,type] using array
        rw [decodeElement_element (by simp [type]) known]
        simp only [wireForm,type,short,if_false,Option.getD_some]
      | char =>
        cases value with
        | text text =>
          rw [decodeElement_text type]
          simp only [wireForm,type,Option.bind_some,Value.asText?,Option.getD_some]
        | _ => simp [Value.isElementOf,type] at known

theorem encodeElement_zero (field : FieldSpec) :
    field.encodeElement (Value.zero field.type) = List.replicate field.elementSize 0 := by
  cases type : field.type with
  | numeric type =>
    have zeros (count : Nat) : littleEndian count 0 = List.replicate count 0 := by
      induction count with
      | zero => rfl
      | succ count ih => simp [littleEndian,ih,List.replicate_succ]
    simp [encodeElement,elementSize,type,Value.zero,NumericType.encode,zeros]
  | char => simp [encodeElement,type,Value.zero,CharBuffer.encode,Text.Utf8.encode]

theorem octets_none (field : FieldSpec) : field.octets none = List.replicate field.size 0 := by
  cases array : field.isArray with
  | true =>
    have elements (count : Nat) : ((List.range count).flatMap fun _ =>
        List.replicate field.elementSize (0 : UInt8)) =
        List.replicate (field.elementSize * count) 0 := by
      induction count with
      | zero => rfl
      | succ count ih =>
        rw [List.range_succ,List.flatMap_append,List.flatMap_singleton,ih,
          List.replicate_append_replicate,Nat.mul_succ]
    simp only [octets,array,if_true,Option.bind_none,Option.getD_none,List.getElem?_nil,
      encodeElement_zero,elements,size_of_array array]
  | false => simp [octets,array]

theorem octets_array {field : FieldSpec} (array : field.isArray = true) (items : List Value) :
    field.octets (some (.array items)) = ((items.map field.encodeElement).take field.length).flatten ++
      List.replicate
        (field.size - ((items.map field.encodeElement).take field.length).flatten.length) 0 := by
  have kept : ((items.map field.encodeElement).take field.length).flatten.length =
      field.elementSize * min field.length items.length := by
    simp only [← List.map_take,← List.flatMap_def,List.length_flatMap,encodeElement_length,
      List.map_const',List.sum_replicate_nat,List.length_take,Nat.mul_comm]
  have room : field.size - field.elementSize * min field.length items.length =
      field.elementSize * (field.length - items.length) := by
    rw [size_of_array array,← Nat.mul_sub]
    congr 1
    omega
  have zeros (count : Nat) : (List.replicate count (Value.zero field.type)).flatMap
      field.encodeElement = List.replicate (field.elementSize * count) 0 := by
    rw [List.flatMap_replicate,encodeElement_zero,List.flatten_replicate_replicate,Nat.mul_comm]
  rw [kept,room,← zeros,← List.map_take,← List.flatMap_def,← List.flatMap_append,← range_padded]
  simp only [octets,array,if_true,Option.bind_some,Value.asArray?,Option.getD_some,
    List.flatMap_map]

theorem flatMap_parts (bytes : List UInt8) (size count : Nat) :
    ((List.range count).flatMap fun place => (bytes.drop (size * place)).take size) =
      bytes.take (size * count) := by
  induction count with
  | zero => rfl
  | succ count ih =>
    rw [List.range_succ,List.flatMap_append,List.flatMap_singleton,ih,Nat.mul_succ,List.take_add]

theorem encodeElement_decodeElement {field : FieldSpec} {type : NumericType}
    (numeric : field.type = type) {bytes : List UInt8} (sized : bytes.length = type.size) :
    field.encodeElement (field.decodeElement bytes) = bytes := by
  have read : field.decodeElement bytes = .number type (type.decode bytes) := by
    simp only [decodeElement,numeric]
  rw [read,encodeElement_number numeric,NumericType.encode_decode sized]

theorem octets_ofOctets_numeric {field : FieldSpec} {type : NumericType}
    (numeric : field.type = type) {bytes : List UInt8} (sized : bytes.length = field.size) :
    field.octets (some (field.ofOctets bytes)) = bytes := by
  have element : field.elementSize = type.size := by simp only [elementSize,numeric]
  cases array : field.isArray with
  | true =>
    rw [size_of_array array] at sized
    have parts : (List.range field.length).flatMap (fun place => field.encodeElement
        (((List.range field.length).map fun place => field.decodeElement
          ((bytes.drop (field.elementSize * place)).take field.elementSize))[place]?.getD
            (Value.zero field.type))) =
        (List.range field.length).flatMap fun place =>
          (bytes.drop (field.elementSize * place)).take field.elementSize := by
      apply List.flatMap_congr
      intro place member
      have inside := List.mem_range.mp member
      have room := Nat.mul_le_mul_left field.elementSize (Nat.succ_le_of_lt inside)
      rw [Nat.mul_succ,← sized] at room
      rw [List.getElem?_map,List.getElem?_range inside,Option.map_some,Option.getD_some,
        encodeElement_decodeElement numeric]
      rw [List.length_take,List.length_drop,← element]
      omega
    simp only [octets,ofOctets,array,if_true,Option.bind_some,Value.asArray?,Option.getD_some]
    rw [parts,flatMap_parts,List.take_of_length_le (Nat.le_of_eq sized)]
  | false =>
    rw [size_of_single array,element] at sized
    simp only [octets,ofOctets,array,Bool.false_eq_true,if_false,Option.map_some,Option.getD_some,
      encodeElement_decodeElement numeric sized]

theorem size_pos (field : FieldSpec) : 0 < field.size :=
  Nat.mul_pos field.type.size_pos (Nat.lt_of_lt_of_le Nat.one_pos (Nat.le_max_right _ _))

theorem ofOctets_zeros (field : FieldSpec) :
    field.ofOctets (List.replicate field.size 0) = Value.zeroFor field := by
  cases array : field.isArray with
  | true =>
    have parts : (List.range field.length).map (fun place => field.decodeElement
        (((List.replicate field.size (0 : UInt8)).drop (field.elementSize * place)).take
          field.elementSize)) =
        (List.range field.length).map fun _ => Value.zero field.type := by
      apply List.map_congr_left
      intro place member
      have before := Nat.mul_le_mul_left field.elementSize
        (Nat.succ_le_of_lt (List.mem_range.mp member))
      rw [Nat.mul_succ] at before
      rw [List.drop_replicate,List.take_replicate,size_of_array array,
        Nat.min_eq_left (by omega),decodeElement_zeros]
    rw [ofOctets,if_pos array,parts,List.map_const',List.length_range]
    simp only [Value.zeroFor,array,if_true]
  | false =>
    simp only [ofOctets,Value.zeroFor,array,Bool.false_eq_true,if_false]
    rw [size_of_single array,decodeElement_zeros]

end FieldSpec

namespace Message

theorem writeField_puts (field : Field) (held : Option Value) :
    Writer.Puts (writeField field held) (field.octets held) := by
  cases array : field.isArray with
  | true =>
    intro writer inside
    unfold writeField FieldSpec.octets
    rw [if_pos array,if_pos array]
    exact Writer.Puts.foldlM (fun _ _ _ _ => rfl) writer inside
  | false =>
    intro writer _
    simp only [writeField,FieldSpec.octets,array,Bool.false_eq_true,if_false]
    cases held <;> rfl

theorem readElement_take (field : Field) (reader : Reader) :
    readElement field reader =
      (reader.take field.elementSize).map fun taken => (field.decodeElement taken.1,taken.2) := by
  rw [readElement]
  cases reader.take field.elementSize <;> rfl

theorem readElement_yields (field : Field) :
    Reader.Yields (readElement field) field.elementSize field.decodeElement :=
  fun reader _ => readElement_take field reader

theorem toList_ofFn_range {α : Type} (item : Nat → α) (count : Nat) :
    (Vector.ofFn fun place : Fin count => item place).toList = (List.range count).map item := by
  apply List.ext_getElem
  · simp
  · intro place left right
    simp

theorem readField_yields (field : Field) :
    Reader.Yields (readField field) field.size field.ofOctets := by
  intro reader inside
  cases array : field.isArray with
  | true =>
    have elements := (readElement_yields field).times field.length reader inside
    simp only [readField,array,if_true,elements,FieldSpec.size_of_array array,FieldSpec.ofOctets]
    cases reader.take (field.elementSize * field.length) with
    | none => rfl
    | some taken =>
      simp only [Option.map_some,bind,Option.bind_some,toList_ofFn_range fun place =>
        field.decodeElement ((taken.1.drop (field.elementSize * place)).take field.elementSize)]
      rfl
  | false =>
    have element := readElement_yields field reader inside
    simp only [readField,FieldSpec.ofOctets,array,Bool.false_eq_true,if_false,element,
      FieldSpec.size_of_single array]

theorem readInto_yields (field : Field) (values : Bindings Value) :
    Reader.Yields (fun reader => readInto field reader values) field.size
      fun bytes => values.insert field.name (field.ofOctets bytes) := by
  intro reader inside
  simp only [readInto,readField_yields field reader inside]
  cases reader.take field.size <;> rfl

end Message

end MavPayload
