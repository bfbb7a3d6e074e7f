import MavPayload.Checksum

/-! The checksum bit by bit. A register that takes in one bit after the other is linear in what
it holds and in what it takes in, and so is a step of the checksum by a whole octet. The two
agree where the register holds a single octet or takes one in, and so everywhere. -/
namespace MavPayload.Checksum

/-- The generator without its leading term, the highest power first. -/
def generator : BitVec 16 := 0x1021#16

/-- Takes in one bit. The register holds the highest power in its lowest place. -/
def shift (register : BitVec 16) (bit : Bool) : BitVec 16 :=
  register >>> 1 ^^^ if (register.getLsbD 0 ^^ bit) = true then generator.reverse else 0

/-- The bits of an octet, the least significant first. -/
def bits (byte : UInt8) : List Bool :=
  (List.range 8).map fun place => byte.toBitVec.getLsbD place

/-- What a register that was all ones holds after some octets. -/
def serial (bytes : List UInt8) : BitVec 16 :=
  (bytes.flatMap bits).foldl shift (BitVec.allOnes 16)

theorem shift_xor (first second : BitVec 16) (left right : Bool) :
    shift (first ^^^ second) (left ^^ right) = shift first left ^^^ shift second right := by
  have fed (held taken : Bool) : (if (held ^^ taken) = true then generator.reverse else 0) =
      (if held = true then generator.reverse else 0) ^^^
        if taken = true then generator.reverse else 0 := by
    cases held <;> cases taken <;> simp
  simp only [shift,fed,BitVec.getLsbD_xor,BitVec.ushiftRight_xor_distrib]
  ac_rfl

theorem foldl_shift_xor (places : List Nat) (left right : Nat → Bool)
    (first second : BitVec 16) :
    (places.map fun place => left place ^^ right place).foldl shift (first ^^^ second) =
      (places.map left).foldl shift first ^^^ (places.map right).foldl shift second := by
  induction places generalizing first second with
  | nil => rfl
  | cons place rest ih =>
    simp only [List.map_cons,List.foldl_cons,shift_xor]
    exact ih _ _

theorem octet_xor (first second : UInt16) (left right : UInt8) :
    octet (first ^^^ second) (left ^^^ right) = octet first left ^^^ octet second right := by
  simp only [octet,UInt16.toUInt8_xor,UInt8.shiftLeft_xor,UInt8.toUInt16_xor,UInt16.shiftLeft_xor,
    UInt16.shiftRight_xor]
  ac_rfl

/-- Whether a step by a whole octet does what its bits do one after the other. -/
def Agrees (sum : UInt16) (byte : UInt8) : Prop :=
  (octet sum byte).toBitVec = (bits byte).foldl shift sum.toBitVec

namespace Agrees

theorem xor {first second : UInt16} {left right : UInt8} (one : Agrees first left)
    (other : Agrees second right) : Agrees (first ^^^ second) (left ^^^ right) := by
  have joined := foldl_shift_xor (List.range 8) (fun place => left.toBitVec.getLsbD place)
    (fun place => right.toBitVec.getLsbD place) first.toBitVec second.toBitVec
  simp only [Agrees,bits] at one other ⊢
  simp only [UInt8.toBitVec_xor,BitVec.getLsbD_xor,UInt16.toBitVec_xor,octet_xor]
  rw [one,other,joined]

-- All 256 octets are tried in each of the three places where there can be one.
theorem single (byte : BitVec 8) : Agrees 0 ⟨byte⟩ ∧ Agrees ⟨byte.setWidth 16⟩ 0 ∧
    Agrees ⟨byte.setWidth 16 <<< 8⟩ 0 := by
  unfold Agrees
  revert byte
  decide +kernel

end Agrees

theorem halves (register : BitVec 16) : (register.setWidth 8).setWidth 16 ^^^
    ((register >>> 8).setWidth 8).setWidth 16 <<< 8 = register := by
  apply BitVec.eq_of_getLsbD_eq
  intro place inside
  by_cases front : place < 8
  · simp [front,inside]
  · have back : place - 8 < 8 := by omega
    have whole : 8 + (place - 8) = place := by omega
    simp [front,back,inside,whole]

theorem octet_agrees (sum : UInt16) (byte : UInt8) : Agrees sum byte := by
  obtain ⟨taken,_,_⟩ := Agrees.single byte.toBitVec
  obtain ⟨_,low,_⟩ := Agrees.single (sum.toBitVec.setWidth 8)
  obtain ⟨_,_,high⟩ := Agrees.single ((sum.toBitVec >>> 8).setWidth 8)
  have held := low.xor high
  rw [← UInt16.ofBitVec_xor,halves] at held
  have both := held.xor taken
  rwa [UInt16.xor_zero,UInt8.zero_xor,UInt8.zero_xor] at both

theorem ofBytes_serial (bytes : List UInt8) : (ofBytes bytes).toBitVec = serial bytes := by
  have started (sum : UInt16) :
      (update sum bytes).toBitVec = (bytes.flatMap bits).foldl shift sum.toBitVec := by
    induction bytes generalizing sum with
    | nil => rfl
    | cons byte rest ih =>
      rw [List.flatMap_cons,List.foldl_append,← octet_agrees]
      exact ih (octet sum byte)
  exact started initial

-- The check value of this checksum, taken of the digits from one to nine.
example : serial [0x31,0x32,0x33,0x34,0x35,0x36,0x37,0x38,0x39] = 0x6F91 := by decide +kernel

theorem foldl_update (chunks : List (List UInt8)) (sum : UInt16) :
    chunks.foldl update sum = update sum chunks.flatten := by
  induction chunks generalizing sum with
  | nil => rfl
  | cons chunk rest ih => rw [List.foldl_cons,List.flatten_cons,update_append,ih]

theorem folded_halves (sum : UInt16) : (folded sum).toBitVec =
    sum.toBitVec.extractLsb' 8 8 ^^^ sum.toBitVec.extractLsb' 0 8 := by
  rw [folded,UInt8.toBitVec_xor,BitVec.xor_comm]
  rfl

end MavPayload.Checksum
