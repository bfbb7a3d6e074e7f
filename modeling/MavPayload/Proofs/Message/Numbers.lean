import MavPayload.Proofs.Binary.Nearest
import MavPayload.Proofs.Message.Finite
import MavPayload.Proofs.Message.Schema

/-! Numbers of documents as fields store them. What is stored of a number is said in exact
integers and rationals: an integer type stores the number itself, a double what the number is
as a double, and a single what that rounds to. A number that has no such pattern is refused,
and nothing else is. -/
namespace MavPayload

namespace Binary

/-- Whether a pattern is what a rational rounds to, with a sign that a zero has too. -/
structure Format.Rounds (format : Format) (value : Rat) (negative : Bool) (pattern : Nat) :
    Prop where
  fits : pattern < 2 * format.signBit
  sign : format.isNegative pattern = negative
  nearest : format.Nearest |value| (format.magnitude pattern)

theorem Format.rounds_iff {format : Format} (fractional : 0 < format.fractionBits) {value : Rat}
    {negative : Bool} {pattern : Nat} :
    format.Rounds value negative pattern ↔
      format.signed negative (format.round |value|) = pattern := by
  have size := abs_nonneg value
  have bounded := lt_of_le_of_lt (round_le_infinity fractional size) format.infinity_lt_signBit
  constructor
  · rintro ⟨fits,rfl,nearest⟩
    rw [(nearest_iff fractional size).mp nearest,signed_self fits]
  · rintro rfl
    refine ⟨signed_lt _ bounded,isNegative_signed _ bounded,?_⟩
    rw [magnitude_signed _ bounded]
    exact round_nearest fractional size

theorem Format.rounds_bits {format : Format} {width : Nat} (fractional : 0 < format.fractionBits)
    (whole : 2 * format.signBit = 2 ^ width) {value : Rat} {negative : Bool}
    {bits : BitVec width} : format.Rounds value negative bits.toNat ↔
      BitVec.ofNat width (format.signed negative (format.round |value|)) = bits := by
  rw [Format.rounds_iff fractional,← BitVec.toNat_inj,BitVec.toNat_ofNat,Nat.mod_eq_of_lt]
  rw [← whole]
  exact Format.signed_lt _ (lt_of_le_of_lt (Format.round_le_infinity fractional (abs_nonneg value))
    format.infinity_lt_signBit)

theorem Format.abs_rational (format : Format) (pattern : Nat) :
    |format.rational pattern| = format.value (format.magnitude pattern) := by
  have least : 0 ≤ format.value (format.magnitude pattern) := by
    rw [← format.value_zero]
    exact format.value_strictMono.monotone (Nat.zero_le _)
  unfold rational
  dsimp only
  split
  · rw [abs_neg,abs_of_nonneg least]
  · exact abs_of_nonneg least

theorem rounds_narrow {wide : BitVec 64} (finite : isFinite wide = true) {bits : BitVec 32} :
    Format.single.Rounds (Format.double.rational wide.toNat) (Format.double.isNegative wide.toNat)
      bits.toNat ↔ narrow wide = bits := by
  have small : Format.double.magnitude wide.toNat < Format.double.infinity := of_decide_eq_true finite
  rw [Format.rounds_bits (by decide) (by decide),Format.abs_rational,narrow,Format.convert]
  simp only [small,if_true]

theorem Format.single_middle :
    (Format.single.value (Format.single.infinity - 1) + Format.single.value Format.single.infinity) / 2 =
      2 ^ 128 - 2 ^ 103 := by
  have last : Format.single.parts (Format.single.infinity - 1) = (2 ^ 24 - 1,104) := by decide
  have next : Format.single.parts Format.single.infinity = (2 ^ 23,105) := by decide
  rw [Format.value,Format.value,last,next,scaled_two,scaled_two]
  norm_num

theorem narrow_isFinite {wide : BitVec 64} (finite : isFinite wide = true) :
    Format.single.isFinite (narrow wide).toNat = true ↔
      |Format.double.rational wide.toNat| < 2 ^ 128 - 2 ^ 103 := by
  have nonnegative := abs_nonneg (Format.double.rational wide.toNat)
  have rounds := (rounds_narrow finite).mpr rfl
  have same := (Format.nearest_iff (by decide) nonnegative).mp rounds.nearest
  rw [← Format.single_middle,← Format.round_finite_iff (by decide) (by decide) nonnegative,same]
  exact decide_eq_true_iff

end Binary

namespace Json.Number

/-- Whether a double is that of a number: the one that is written, or the nearest one to an
integer. -/
def IsDouble (number : Number) (bits : BitVec 64) : Prop :=
  match number with
  | .integer value _ => Binary.Format.double.Rounds value (value < 0) bits.toNat
  | .float own _ => own = bits

theorem isDouble_iff {number : Number} {bits : BitVec 64} :
    number.IsDouble bits ↔ number.toDouble = bits := by
  cases number with
  | integer value inRange =>
    have size : |(value : Rat)| = (value.natAbs : Rat) := by
      rw [← Int.cast_abs,Int.abs_eq_natAbs,Int.cast_natCast]
    rw [IsDouble,Binary.Format.rounds_bits (by decide) (by decide),size]
    rfl
  | float own finite => exact Iff.rfl

end Json.Number

namespace NumericType

/-- What a type stores of a number: an integer type the number itself, a double what the number
is as a double, and a single what that double rounds to, unless it is infinite. -/
def Stores (type : NumericType) (number : Json.Number) (bits : BitVec type.width) : Prop :=
  match type,bits with
  | .double,bits => number.IsDouble bits
  | .float,bits => Binary.Format.single.isFinite bits.toNat = true ∧
    ∃ double, number.IsDouble double ∧
      Binary.Format.single.Rounds (Binary.Format.double.rational double.toNat)
        (Binary.Format.double.isNegative double.toNat) bits.toNat
  | type,bits => ∃ value inRange, number = .integer value inRange ∧ type.toInt bits = value

/-- The range of a type. That of singles ends in the middle between the greatest one and the
next power of two. -/
def InRange (type : NumericType) (number : Json.Number) : Prop :=
  match type with
  | .double => True
  | .float => ∃ double, number.IsDouble double ∧
    |Binary.Format.double.rational double.toNat| < 2 ^ 128 - 2 ^ 103
  | type => ∃ value inRange, number = .integer value inRange ∧
    if type.isSigned then -2 ^ (type.width - 1) ≤ value ∧ value < 2 ^ (type.width - 1)
    else 0 ≤ value ∧ value < 2 ^ type.width

variable {type : NumericType} {number : Json.Number} {bits : BitVec type.width}

theorem stores_float {bits : BitVec (NumericType.width .float)} : Stores .float number bits ↔
    Binary.Format.single.isFinite bits.toNat = true ∧ Binary.narrow number.toDouble = bits := by
  refine and_congr_right fun _ => ⟨?_,fun same => ?_⟩
  · rintro ⟨_,own,rounds⟩
    cases Json.Number.isDouble_iff.mp own
    exact (Binary.rounds_narrow number.toDouble_isFinite).mp rounds
  · exact ⟨_,Json.Number.isDouble_iff.mpr rfl,
      (Binary.rounds_narrow number.toDouble_isFinite).mpr same⟩

theorem stores_integer (integral : type.isFloat = false) : type.Stores number bits ↔
    ∃ value inRange, number = .integer value inRange ∧ type.toInt bits = value := by
  cases type with
  | double => cases integral
  | float => cases integral
  | _ => exact Iff.rfl

theorem inRange_integer (integral : type.isFloat = false) : type.InRange number ↔
    ∃ value inRange, number = .integer value inRange ∧ type.holds value = true := by
  simp only [holds_iff]
  cases type with
  | double => cases integral
  | float => cases integral
  | _ => exact Iff.rfl

theorem ofNumber?_eq_some_iff : type.ofNumber? number = some bits ↔ type.Stores number bits := by
  cases integral : type.isFloat with
  | false =>
    rw [stores_integer integral]
    cases number with
    | integer value inRange =>
      rw [ofNumber?_integer integral,ofInt?_eq_some_iff]
      constructor
      · exact fun same => ⟨value,inRange,rfl,same⟩
      · rintro ⟨_,_,⟨⟩,same⟩
        exact same
    | float own finite => simp [ofNumber?_float integral]
  | true =>
    cases type with
    | double => exact Option.some_inj.trans Json.Number.isDouble_iff.symm
    | float =>
      rw [stores_float,ofNumber?]
      split
      · rename_i finite
        exact Option.some_inj.trans ⟨fun same => ⟨same ▸ finite,same⟩,And.right⟩
      · rename_i infinite
        simp only [reduceCtorEq,false_iff]
        exact fun stored => infinite (stored.2 ▸ stored.1)
    | _ => cases integral

theorem stores_inRange : (∃ bits, type.Stores number bits) ↔ type.InRange number := by
  cases integral : type.isFloat with
  | false =>
    simp only [stores_integer integral,inRange_integer integral]
    constructor
    · rintro ⟨bits,value,inRange,same,rfl⟩
      exact ⟨_,inRange,same,toInt_holds type bits⟩
    · rintro ⟨value,inRange,same,holds⟩
      exact ⟨_,value,inRange,same,toInt_ofInt holds⟩
  | true =>
    cases type with
    | double => exact iff_of_true ⟨_,Json.Number.isDouble_iff.mpr rfl⟩ trivial
    | float =>
      have finite := Binary.narrow_isFinite number.toDouble_isFinite
      constructor
      · rintro ⟨_,stored⟩
        obtain ⟨small,rfl⟩ := stores_float.mp stored
        exact ⟨_,Json.Number.isDouble_iff.mpr rfl,finite.mp small⟩
      · rintro ⟨_,own,small⟩
        cases Json.Number.isDouble_iff.mp own
        exact ⟨_,stores_float.mpr ⟨finite.mpr small,rfl⟩⟩
    | _ => cases integral

theorem Stores.unique {first second : BitVec type.width} (one : type.Stores number first)
    (two : type.Stores number second) : first = second :=
  Option.some.inj ((ofNumber?_eq_some_iff.mpr one).symm.trans (ofNumber?_eq_some_iff.mpr two))

end NumericType

namespace FieldSpec

variable {field : FieldSpec} {type : NumericType} {value : Value}

theorem elementOfJson_stores (numeric : field.type = .numeric type) {json : Json} :
    field.elementOfJson json = .ok value ↔ ∃ number bits, json = .number number ∧
      type.Stores number bits ∧ Value.number type bits = value := by
  simp only [elementOfJson_ok_iff numeric,NumericType.ofNumber?_eq_some_iff]

theorem ofJson_number (numeric : field.type = .numeric type) (one : field.isArray = false)
    (number : Json.Number) : field.ofJson (.number number) = .ok value ↔
      ∃ bits, type.Stores number bits ∧ Value.number type bits = value := by
  rw [ofJson_single numeric one,elementOfJson_stores numeric]
  constructor
  · rintro ⟨_,bits,⟨⟩,stored⟩
    exact ⟨bits,stored⟩
  · rintro ⟨bits,stored⟩
    exact ⟨number,bits,rfl,stored⟩

theorem ofJson_numbers (numeric : field.type = .numeric type) (array : field.isArray = true)
    (items : List Json) : field.ofJson (.array items) = .ok value ↔ ∃ elements,
      List.Forall₂ (fun item element => ∃ number bits, item = .number number ∧
        type.Stores number bits ∧ Value.number type bits = element) items elements ∧
      Value.array elements = value := by
  have form : field.ofJson (.array items) = (items.mapM field.elementOfJson).map .array := by
    simp only [ofJson,isText_numeric numeric,array,Bool.false_eq_true,if_false,if_true]
  simp only [form,except_map_ok_iff,mapM_ok_iff,elementOfJson_stores numeric]

end FieldSpec

namespace Message

/-- Numbers are stored as they are, or refused. An integer type takes the integers in its range
and stores them as they are; a single takes what is nearer to its greatest number than to the
next power of two, and stores the nearest; a double takes every number. What a text stores
under a key is what the field of that name reads there, so no text stores a float that is not
finite. -/
theorem unmarshal_keeps_numbers {field : FieldSpec} {type : NumericType}
    (numeric : field.type = .numeric type) :
    (∀ number, (∃ bits, type.Stores number bits) ↔ type.InRange number) ∧
    (∀ number first second, type.Stores number first → type.Stores number second →
      first = second) ∧
    (field.isArray = false → ∀ number value, field.ofJson (.number number) = .ok value ↔
      ∃ bits, type.Stores number bits ∧ Value.number type bits = value) ∧
    (field.isArray = true → ∀ items value, field.ofJson (.array items) = .ok value ↔
      ∃ elements, List.Forall₂ (fun item element => ∃ number bits, item = .number number ∧
        type.Stores number bits ∧ Value.number type bits = element) items elements ∧
      Value.array elements = value) ∧
    (∀ message text, (∃ next, unmarshal message text = .ok next) ↔
      ∃ entries, Json.ofText? text = some (.object entries) ∧
        ∀ key json, Json.lookup? key entries = some json →
          ∃ own, message.layout.field? key = some own ∧ ∃ value, own.ofJson json = .ok value) ∧
    ∀ message next text, unmarshal message text = .ok next →
      ∃ entries, Json.ofText? text = some (.object entries) ∧
        (∀ key json, Json.lookup? key entries = some json →
          ∃ own ∈ message.layout.fields, own.name = key ∧
            ∃ value, own.ofJson json = .ok value ∧ next.get? key = some value ∧ value.IsFinite) ∧
        ∀ key, Json.lookup? key entries = none → next.get? key = message.get? key := by
  refine ⟨fun _ => NumericType.stores_inRange,fun _ _ _ => NumericType.Stores.unique,
    fun one number _ => FieldSpec.ofJson_number numeric one number,
    fun array items _ => FieldSpec.ofJson_numbers numeric array items,
    fun _ _ => unmarshal_reads,?_⟩
  intro message next text done
  obtain ⟨json,read,assigned⟩ := unmarshal_ok_iff.mp done
  obtain ⟨entries,_,rfl,_,_⟩ := assign_ok_iff.mp assigned
  have overwritten := assign_overwritten assigned
  refine ⟨entries,read,fun key json named => ?_,overwritten.others⟩
  obtain ⟨own,declared,same,value,valid,held⟩ := overwritten.named key json named
  exact ⟨own,declared,same,value,valid,held,FieldSpec.ofJson_isFinite valid⟩

/-- The middle between the greatest single and the next power of two, and the double before
it, as numbers and in texts. -/
theorem unmarshal_keeps_numbers_middle :
    let gain : FieldSpec := ⟨"gain",.numeric .float,false,0,false⟩
    let layout : Layout := ⟨"GAIN",9,[⟨gain,0⟩]⟩
    let below : Json.Number := .float 0x47EFFFFFEFFFFFFF (by decide)
    let middle : Json.Number := .float 0x47EFFFFFF0000000 (by decide)
    gain.type = .numeric .float ∧ NumericType.Stores .float below 0x7F7FFFFF#32 ∧
      gain.ofJson (.number below) = .ok (.number .float 0x7F7FFFFF#32) ∧
      ¬ NumericType.InRange .float middle ∧
      (∀ value, gain.ofJson (.number middle) ≠ .ok value) ∧
      (∃ next, unmarshal { layout } "\x7b\"gain\":3.4028235677973362e+38\x7d" = .ok next ∧
        next.get? "gain" = some (.number .float 0x7F7FFFFF#32)) ∧
      ∀ next, unmarshal { layout } "\x7b\"gain\":3.4028235677973366e+38\x7d" ≠ .ok next := by
  intro gain layout below middle
  have numeric : gain.type = .numeric .float := rfl
  obtain ⟨ranges,_,single,_,takes,stores⟩ := unmarshal_keeps_numbers numeric
  have stored : NumericType.Stores .float below 0x7F7FFFFF#32 :=
    NumericType.stores_float.mpr ⟨by decide,by decide +kernel⟩
  have infinite : ¬ Binary.Format.single.isFinite (Binary.narrow middle.toDouble).toNat = true := by
    decide +kernel
  have outside : ∀ bits, ¬ NumericType.Stores .float middle bits := by
    intro bits taken
    obtain ⟨finite,rfl⟩ := NumericType.stores_float.mp taken
    exact infinite finite
  have read : gain.ofJson (.number below) = .ok (.number .float 0x7F7FFFFF#32) :=
    (single rfl below _).mpr ⟨_,stored,rfl⟩
  have refused : ∀ value, gain.ofJson (.number middle) ≠ .ok value := by
    intro value read
    obtain ⟨bits,taken,_⟩ := (single rfl middle value).mp read
    exact outside bits taken
  have parsed (number : Json.Number) :
      Json.ofText? (Json.object [("gain",.number number)]).compact =
        some (.object [("gain",.number number)]) :=
    Json.ofText?_print Json.Spacing.compact_isBlank (show 1 ≤ Json.maxDepth by decide)
  have belowText : "\x7b\"gain\":3.4028235677973362e+38\x7d" =
      (Json.object [("gain",.number below)]).compact := by decide +kernel
  have middleText : "\x7b\"gain\":3.4028235677973366e+38\x7d" =
      (Json.object [("gain",.number middle)]).compact := by decide +kernel
  refine ⟨numeric,stored,read,fun inside => ((ranges middle).mpr inside).elim outside,refused,
    ?_,?_⟩
  · rw [belowText]
    have reads : ∀ key json, Json.lookup? key [("gain",.number below)] = some json →
        ∃ own, layout.field? key = some own ∧ ∃ value, own.ofJson json = .ok value := by
      intro key json named
      obtain ⟨rfl,rfl⟩ : "gain" = key ∧ Json.number below = json := by
        simpa [Json.lookup?] using named
      exact ⟨_,rfl,_,read⟩
    obtain ⟨next,done⟩ := (takes { layout } _).mpr ⟨_,parsed below,reads⟩
    obtain ⟨entries,same,named,_⟩ := stores _ _ _ done
    cases (parsed below).symm.trans same
    obtain ⟨own,declared,_,value,valid,held,_⟩ := named "gain" _ rfl
    cases List.mem_singleton.mp declared
    cases read.symm.trans valid
    exact ⟨next,done,held⟩
  · rw [middleText]
    intro next done
    obtain ⟨entries,same,reads⟩ := (takes _ _).mp ⟨next,done⟩
    cases (parsed middle).symm.trans same
    obtain ⟨own,known,value,valid⟩ := reads "gain" _ rfl
    cases known
    exact refused value valid

-- An octet takes no integer above 255, and no float even if it is an integer.
example :
    let mode : FieldSpec := ⟨"mode",.numeric .uint8,false,0,false⟩
    let mismatch : Error := .typeMismatch "mode" (.element (.numeric .uint8))
    mode.ofJson (.number (.integer 255 (by decide))) = .ok (.number .uint8 255) ∧
      mode.ofJson (.number (.integer 256 (by decide))) = .error mismatch ∧
      mode.ofJson (.number (.float 0x3FF0000000000000 (by decide))) = .error mismatch :=
  ⟨rfl,rfl,rfl⟩

end Message

end MavPayload
