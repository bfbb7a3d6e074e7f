import MavPayload.Proofs.Binary.Format
import MavPayload.Proofs.Json.RoundTrip
import MavPayload.Proofs.Message.Operations
import MavPayload.Proofs.Text.Base64

/-! Values as JSON and back. A field reads the very value that it wrote, unless a float in
it is not finite: those have no JSON. -/
namespace MavPayload

namespace NumericType

/-- Whether a pattern is an integer or a finite float. -/
def isFinite (type : NumericType) (bits : BitVec type.width) : Bool :=
  match type,bits with
  | .double,bits => Binary.isFinite bits
  | .float,bits => Binary.Format.single.isFinite bits.toNat
  | _,_ => true

theorem holds_iff {type : NumericType} {value : Int} : type.holds value = true ↔
    if type.isSigned then -2 ^ (type.width - 1) ≤ value ∧ value < 2 ^ (type.width - 1)
    else 0 ≤ value ∧ value < 2 ^ type.width := by
  have half : ((Nat.pow 2 (type.width - 1) : Nat) : Int) = 2 ^ (type.width - 1) :=
    Int.natCast_pow 2 _
  have whole : ((Nat.pow 2 type.width : Nat) : Int) = 2 ^ type.width := Int.natCast_pow 2 _
  simp only [holds,least,greatest,Bool.and_eq_true,decide_eq_true_iff,half,whole]
  split <;> omega

theorem toInt_holds (type : NumericType) (bits : BitVec type.width) :
    type.holds (type.toInt bits) = true := by
  rw [holds_iff,toInt]
  split
  · exact ⟨BitVec.le_toInt bits,BitVec.toInt_lt⟩
  · exact ⟨Int.natCast_nonneg _,by exact_mod_cast bits.isLt⟩

theorem toInt_ofInt {type : NumericType} {value : Int} (holds : type.holds value = true) :
    type.toInt (BitVec.ofInt type.width value) = value := by
  have wide : 0 < type.width := Nat.mul_pos (by decide) (FieldType.size_pos type)
  rw [holds_iff] at holds
  unfold toInt
  split at holds
  · rename_i signed
    rw [if_pos signed]
    exact BitVec.toInt_ofInt_eq_self wide holds.1 holds.2
  · rename_i unsigned
    obtain ⟨positive,small⟩ := holds
    rw [if_neg unsigned,BitVec.toNat_ofInt,Int.natCast_pow,Nat.cast_ofNat,
      Int.emod_eq_of_lt positive small,Int.toNat_of_nonneg positive]

theorem ofInt?_toInt (type : NumericType) (bits : BitVec type.width) :
    type.ofInt? (type.toInt bits) = some bits := by
  have same : BitVec.ofInt type.width (type.toInt bits) = bits := by
    unfold toInt
    split
    · exact BitVec.ofInt_toInt
    · rw [BitVec.ofInt_natCast,BitVec.ofNat_toNat,BitVec.setWidth_eq]
  rw [ofInt?,if_pos (toInt_holds type bits),same]

theorem ofInt?_eq_some_iff {type : NumericType} {bits : BitVec type.width} {value : Int} :
    type.ofInt? value = some bits ↔ type.toInt bits = value := by
  constructor
  · intro taken
    unfold ofInt? at taken
    split at taken
    · rename_i holds
      cases taken
      exact toInt_ofInt holds
    · cases taken
  · rintro rfl
    exact ofInt?_toInt type bits

theorem ofNumber?_toNumber? {type : NumericType} {bits : BitVec type.width}
    (finite : type.isFinite bits = true) :
    ∃ number, type.toNumber? bits = some number ∧ type.ofNumber? number = some bits := by
  cases type with
  | double => exact ⟨.float bits finite,dif_pos finite,rfl⟩
  | float =>
    obtain ⟨wide,back⟩ := Binary.narrow_widen finite
    refine ⟨.float (Binary.widen bits) wide,dif_pos wide,?_⟩
    simp only [ofNumber?,Json.Number.toDouble,back]
    exact if_pos finite
  | _ => exact ⟨_,rfl,ofInt?_toInt _ bits⟩

end NumericType

/-- Whether no float in a value is infinite or not a number. -/
inductive Value.IsFinite : Value → Prop
  | bool (value : Bool) : IsFinite (.bool value)
  | number {type : NumericType} {bits : BitVec type.width} :
    type.isFinite bits = true → IsFinite (.number type bits)
  | text (text : String) : IsFinite (.text text)
  | array {items : List Value} : (∀ item ∈ items, IsFinite item) → IsFinite (.array items)

namespace FieldSpec

theorem number_of_element {field : FieldSpec} {type : NumericType}
    (numeric : field.type = .numeric type) {value : Value}
    (element : value.isElementOf field.type = true) : ∃ bits, value = .number type bits := by
  cases value with
  | number own bits =>
    have same : type = own := by simpa [Value.isElementOf,numeric] using element
    subst same
    exact ⟨bits,rfl⟩
  | _ => simp [Value.isElementOf,numeric] at element

theorem elementOfJson_toJson {field : FieldSpec} {type : NumericType}
    (numeric : field.type = .numeric type) {value : Value}
    (element : value.isElementOf field.type = true) (finite : value.IsFinite) :
    ∃ json, value.toJson field.name = .ok json ∧ json.nesting = 0 ∧
      field.elementOfJson json = .ok value := by
  obtain ⟨bits,rfl⟩ := number_of_element numeric element
  cases finite with
  | number finite =>
    obtain ⟨number,written,read⟩ := NumericType.ofNumber?_toNumber? finite
    refine ⟨.number number,by rw [Value.toJson,written],by simp [Json.nesting],?_⟩
    exact (elementOfJson_ok_iff numeric).mpr ⟨number,bits,rfl,read,rfl⟩

theorem elementsOfJson_toJson {field : FieldSpec} {type : NumericType}
    (numeric : field.type = .numeric type) {items : List Value}
    (elements : ∀ item ∈ items, item.isElementOf field.type = true)
    (finite : ∀ item ∈ items, item.IsFinite) :
    ∃ jsons, Value.allToJson field.name items = .ok jsons ∧ Json.itemsNesting jsons = 0 ∧
      jsons.mapM field.elementOfJson = .ok items := by
  induction items with
  | nil => exact ⟨[],by rw [Value.allToJson],by rw [Json.itemsNesting],rfl⟩
  | cons item items ih =>
    obtain ⟨json,written,flat,read⟩ := elementOfJson_toJson numeric
      (elements item (by simp)) (finite item (by simp))
    obtain ⟨jsons,allWritten,allFlat,allRead⟩ := ih
      (fun other member => elements other (List.mem_cons_of_mem _ member))
      (fun other member => finite other (List.mem_cons_of_mem _ member))
    refine ⟨json :: jsons,?_,?_,?_⟩
    · rw [Value.allToJson,written,allWritten]
      rfl
    · rw [Json.itemsNesting,flat,allFlat]
      rfl
    · rw [List.mapM_cons,read,allRead]
      rfl

theorem mapM_asByte? {items : List Value}
    (elements : ∀ item ∈ items, item.isElementOf (.numeric .uint8) = true) :
    ∃ bytes, items.mapM Value.asByte? = some bytes ∧ Value.ofBytes bytes = .array items := by
  induction items with
  | nil => exact ⟨[],rfl,rfl⟩
  | cons item items ih =>
    obtain ⟨bytes,read,same⟩ := ih fun other member => elements other (List.mem_cons_of_mem _ member)
    have element := elements item (by simp)
    cases item with
    | number type bits =>
      have byte : NumericType.uint8 = type := by simpa [Value.isElementOf] using element
      subst byte
      refine ⟨UInt8.ofBitVec bits :: bytes,?_,?_⟩
      · rw [List.mapM_cons,read]
        rfl
      · simp only [Value.ofBytes,Value.array.injEq] at same ⊢
        rw [List.map_cons,same]
    | _ => simp [Value.isElementOf] at element

section

variable {field : FieldSpec} {type : NumericType} {value : Value}

theorem toJson_plain (plain : field.isByteArray = false) :
    field.toJson value = value.toJson field.name := by
  simp only [toJson,plain,Bool.false_eq_true,if_false]

theorem elements_of_array (array : field.isArray = true)
    (fits : value.matchesField field = true) :
    ∃ items, value = .array items ∧ ∀ item ∈ items, item.isElementOf field.type = true := by
  simp only [Value.matchesField,array,if_true] at fits
  cases value with
  | array items => exact ⟨items,rfl,List.all_eq_true.mp fits⟩
  | _ => cases fits

theorem element_of_single (one : field.isArray = false)
    (fits : value.matchesField field = true) : value.isElementOf field.type = true := by
  simpa only [Value.matchesField,one,Bool.false_eq_true,if_false] using fits

theorem text_of_char (kind : field.type = .char) (fits : value.matchesField field = true) :
    ∃ text, value = .text text ∧ field.toJson value = .ok (.string text) := by
  have one : field.isArray = false := by simp [isArray,isText,kind]
  have element := element_of_single one fits
  cases value with
  | text content =>
    exact ⟨content,rfl,by rw [toJson_plain (by simp [isByteArray,one]),Value.toJson]⟩
  | _ => simp [Value.isElementOf,kind] at element

theorem ofJson_toJson_octets {items : List Value} (kind : field.type = .numeric .uint8)
    (array : field.isArray = true)
    (elements : ∀ item ∈ items, item.isElementOf field.type = true) :
    ∃ text, field.toJson (.array items) = .ok (.string text) ∧
      field.ofJson (.string text) = .ok (.array items) := by
  rw [kind] at elements
  obtain ⟨bytes,read,same⟩ := mapM_asByte? elements
  have octets : field.isByteArray = true := isByteArray_iff.mpr ⟨kind,array⟩
  refine ⟨String.ofList (Text.Base64.encode bytes),?_,?_⟩
  · simp [toJson,octets,Value.asBytes?,Value.asArray?,read]
  · apply (ofJson_octets kind array).mpr
    exact Or.inl ⟨_,bytes,rfl,by rw [String.toList_ofList,Text.Base64.decode?_encode],same⟩

theorem ofJson_toJson_list (kind : field.type = .numeric type) (other : type ≠ .uint8)
    (array : field.isArray = true) {items : List Value}
    (elements : ∀ item ∈ items, item.isElementOf field.type = true)
    (finite : ∀ item ∈ items, item.IsFinite) :
    ∃ jsons, field.toJson (.array items) = .ok (.array jsons) ∧ Json.itemsNesting jsons = 0 ∧
      field.ofJson (.array jsons) = .ok (.array items) := by
  obtain ⟨jsons,written,flat,read⟩ := elementsOfJson_toJson kind elements finite
  refine ⟨jsons,?_,flat,(ofJson_list kind other array).mpr ⟨jsons,items,rfl,read,rfl⟩⟩
  rw [toJson_plain (by simp [isByteArray,kind,other]),Value.toJson,written]
  rfl

theorem ofJson_toJson (fits : value.matchesField field = true) (finite : value.IsFinite) :
    ∃ json, field.toJson value = .ok json ∧ json.nesting ≤ 1 ∧ field.ofJson json = .ok value := by
  cases field.form with
  | text kind =>
    obtain ⟨text,rfl,written⟩ := text_of_char kind fits
    exact ⟨.string text,written,by simp [Json.nesting],(ofJson_text kind).mpr ⟨text,rfl,rfl⟩⟩
  | single kind one =>
    obtain ⟨json,written,flat,read⟩ := elementOfJson_toJson kind (element_of_single one fits) finite
    refine ⟨json,?_,by omega,(ofJson_single kind one).trans read⟩
    rw [toJson_plain (by simp [isByteArray,one]),written]
  | octets kind array =>
    obtain ⟨items,rfl,elements⟩ := elements_of_array array fits
    obtain ⟨text,written,read⟩ := ofJson_toJson_octets kind array elements
    exact ⟨.string text,written,by simp [Json.nesting],read⟩
  | list kind other array =>
    obtain ⟨items,rfl,elements⟩ := elements_of_array array fits
    cases finite with
    | array finite =>
      obtain ⟨jsons,written,flat,read⟩ := ofJson_toJson_list kind other array elements finite
      exact ⟨.array jsons,written,by rw [Json.nesting,flat],read⟩

end

end FieldSpec

end MavPayload
