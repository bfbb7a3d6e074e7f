import MavPayload.Proofs.CharBuffer

/-! What a text buffer keeps of a text, said of its characters and their sizes alone: the longest
beginning that fits, and one replacement character where the buffer ends inside a character.
Nothing behind a zero is kept, and nothing outside of the buffer is touched. -/
namespace MavPayload

namespace Text.Utf8

/-- Whether some characters are the longest beginning of others that fits whole into `room`
octets. -/
structure LongestFitting (room : Nat) (chars whole : List Char) : Prop where
  begins : whole <+: chars
  fits : (String.ofList whole).utf8ByteSize ≤ room
  longest : ∀ other, other <+: chars → (String.ofList other).utf8ByteSize ≤ room →
    other.length ≤ whole.length

/-- Whether `room` octets end inside a character: one of several octets, which starts before
their end and ends after it. -/
def EndsInside (room : Nat) (chars : List Char) : Prop :=
  ∃ front char back, chars = front ++ char :: back ∧ 1 < char.utf8Size ∧
    (String.ofList front).utf8ByteSize < room ∧
    room < (String.ofList front).utf8ByteSize + char.utf8Size

/-- What `room` octets keep of some characters. -/
inductive Kept (room : Nat) (chars : List Char) : List Char → Prop where
  | whole {whole : List Char} (longest : LongestFitting room chars whole)
      (clean : ¬ EndsInside room chars) : Kept room chars whole
  | torn {whole : List Char} (longest : LongestFitting room chars whole)
      (inside : EndsInside room chars) : Kept room chars (whole ++ [replacement])

variable {room : Nat} {chars : List Char}

theorem LongestFitting.unique {first second : List Char} (left : LongestFitting room chars first)
    (right : LongestFitting room chars second) : first = second := by
  have shorter := right.longest first left.begins left.fits
  have longer := left.longest second right.begins right.fits
  exact (List.prefix_of_prefix_length_le left.begins right.begins shorter).eq_of_length
    (Nat.le_antisymm shorter longer)

theorem Kept.unique {first second : List Char} (left : Kept room chars first)
    (right : Kept room chars second) : first = second := by
  cases left with
  | whole own clean =>
    cases right with
    | whole other _ => exact own.unique other
    | torn _ inside => exact absurd inside clean
  | torn own inside =>
    cases right with
    | whole _ clean => exact absurd inside clean
    | torn other _ => rw [own.unique other]

theorem utf8ByteSize_nil : (String.ofList []).utf8ByteSize = 0 := by
  rw [String.ofList_nil,String.utf8ByteSize_empty]

theorem utf8ByteSize_cons (char : Char) (rest : List Char) :
    (String.ofList (char :: rest)).utf8ByteSize =
      char.utf8Size + (String.ofList rest).utf8ByteSize := by
  rw [String.ofList_cons,String.utf8ByteSize_append,String.utf8ByteSize_singleton]

theorem encodeChars_length (chars : List Char) :
    (chars.flatMap String.utf8EncodeChar).length = (String.ofList chars).utf8ByteSize := by
  induction chars with
  | nil => rfl
  | cons char rest ih =>
    rw [List.flatMap_cons,List.length_append,ih,String.length_utf8EncodeChar,utf8ByteSize_cons]

theorem fitting_prefix (room : Nat) (chars : List Char) : fitting room chars <+: chars := by
  induction chars generalizing room with
  | nil => exact List.prefix_refl []
  | cons char rest ih =>
    simp only [fitting]
    split
    · exact List.cons_prefix_cons.mpr ⟨rfl,ih _⟩
    · exact List.nil_prefix

theorem prefix_fitting {other : List Char} (begins : other <+: chars)
    (fits : (String.ofList other).utf8ByteSize ≤ room) : other <+: fitting room chars := by
  induction chars generalizing room other with
  | nil => exact begins
  | cons char rest ih =>
    cases other with
    | nil => exact List.nil_prefix
    | cons first others =>
      obtain ⟨rfl,behind⟩ := List.cons_prefix_cons.mp begins
      rw [utf8ByteSize_cons] at fits
      simp only [fitting,String.length_utf8EncodeChar]
      rw [if_pos (by omega),List.cons_prefix_cons]
      exact ⟨rfl,ih behind (by omega)⟩

theorem longestFitting_fitting (room : Nat) (chars : List Char) :
    LongestFitting room chars (fitting room chars) where
  begins := fitting_prefix room chars
  fits := by
    rw [← encodeChars_length]
    exact CharBuffer.fitting_length_le room chars
  longest _ begins fits := (prefix_fitting begins fits).length_le

theorem endsInside_cons {char : Char} {rest : List Char} (fits : char.utf8Size ≤ room) :
    EndsInside room (char :: rest) ↔ EndsInside (room - char.utf8Size) rest := by
  constructor
  · rintro ⟨front,other,back,parts,several,before,behind⟩
    cases front with
    | nil =>
      -- The first character ends in time, so it is not the one.
      obtain ⟨rfl,rfl⟩ := List.cons_eq_cons.mp parts
      rw [utf8ByteSize_nil] at behind
      omega
    | cons first front =>
      obtain ⟨rfl,rfl⟩ := List.cons_eq_cons.mp parts
      rw [utf8ByteSize_cons] at before behind
      exact ⟨front,other,back,rfl,several,by omega,by omega⟩
  · rintro ⟨front,other,back,rfl,several,before,behind⟩
    refine ⟨char :: front,other,back,rfl,several,?_,?_⟩ <;> rw [utf8ByteSize_cons] <;> omega

theorem torn_ne_nil_iff : torn room chars ≠ [] ↔ EndsInside room chars := by
  induction chars generalizing room with
  | nil => simp [torn,EndsInside]
  | cons char rest ih =>
    simp only [torn,String.length_utf8EncodeChar]
    split
    · rename_i fits
      rw [ih,endsInside_cons fits]
    · rename_i long
      have octets := String.length_utf8EncodeChar char
      rw [ne_eq,List.take_eq_nil_iff,← List.length_eq_zero_iff,octets]
      constructor
      · intro begun
        have nothing := utf8ByteSize_nil
        exact ⟨[],char,rest,rfl,by omega,by omega,by omega⟩
      · rintro ⟨_,_,_,_,_,before,_⟩
        omega

end Text.Utf8

namespace CharBuffer

open Text.Utf8

variable {length : Nat} {text : String}

/-- The characters before the first zero. -/
def beforeZero (text : String) : List Char :=
  text.toList.takeWhile (· != '\x00')

theorem zero_not_mem_beforeZero (text : String) : '\x00' ∉ beforeZero text := by
  intro member
  have nonzero := List.mem_takeWhile_imp member
  simp at nonzero

/-- Nothing is carried of what stands behind a zero. -/
theorem carried_beforeZero (length : Nat) (text : String) :
    carried length (String.ofList (beforeZero text)) = carried length text := by
  by_cases zero : '\x00' ∈ text.toList
  · obtain ⟨front,back,parts,noZero⟩ := List.eq_append_cons_of_mem zero
    have one : String.utf8EncodeChar '\x00' = [0] := rfl
    have nonzero : 0 ∉ (front.flatMap String.utf8EncodeChar).take length :=
      fun member => noZero (zero_mem_encodeChars.mp (List.mem_of_mem_take member))
    rw [beforeZero,parts,takeWhile_nonzero_cons noZero]
    simp only [carried,Text.Utf8.encode,String.toList_ofList,parts,List.flatMap_append,
      List.flatMap_cons,one,List.singleton_append,List.take_append]
    -- The zero itself may lie behind the end of the buffer.
    cases length - (front.flatMap String.utf8EncodeChar).length with
    | zero => rw [List.take_zero,List.append_nil]
    | succ left => rw [List.take_succ_cons,takeWhile_nonzero_cons nonzero,takeWhile_nonzero nonzero]
  · rw [beforeZero,takeWhile_nonzero zero,String.ofList_toList]

theorem carried_kept_of_nonzero {chars : List Char} (nonzero : '\x00' ∉ chars) :
    Kept length chars (carried length (String.ofList chars)).toList := by
  have same : (String.ofList chars).toList = chars := String.toList_ofList
  have longest := longestFitting_fitting length chars
  have noZero : '\x00' ∉ fitting length (String.ofList chars).toList := by
    rw [same]
    exact fun member => nonzero (longest.begins.subset member)
  by_cases inside : EndsInside length chars
  · have cut : torn length (String.ofList chars).toList ≠ [] := by
      rw [same]
      exact torn_ne_nil_iff.mpr inside
    rw [carried_of_torn noZero cut,same,String.toList_ofList]
    exact .torn longest inside
  · have uncut : torn length (String.ofList chars).toList = [] := by
      rw [same]
      by_contra cut
      exact inside (torn_ne_nil_iff.mp cut)
    rw [carried_of_whole noZero uncut,same,String.toList_ofList]
    exact .whole longest inside

theorem carried_kept (length : Nat) (text : String) :
    Kept length (beforeZero text) (carried length text).toList := by
  rw [← carried_beforeZero]
  exact carried_kept_of_nonzero (zero_not_mem_beforeZero text)

theorem decode_overwrite (length : Nat) (text : String) (buffer : List UInt8) :
    decode length (overwrite (encode length text) buffer) = carried length text := by
  have all := List.take_of_length_le (Nat.le_of_eq (encode_length length text))
  rw [← decode_encode,decode,decode,overwrite,List.take_left' (encode_length length text),all]

theorem encode_padding {place : Nat} (beyond : min text.utf8ByteSize length ≤ place)
    (within : place < length) : (encode length text)[place]? = some 0 := by
  have octets : (Text.Utf8.encode text).length = text.utf8ByteSize := by
    rw [Text.Utf8.encode,encodeChars_length,String.ofList_toList]
  simp only [encode]
  rw [List.getElem?_append_right] <;> rw [List.length_take,octets]
  · rw [List.getElem?_replicate,if_pos (by omega)]
  · omega

/-- Whether a buffer holds a text in its first `length` octets, and behind them what it held
before. -/
structure Holds (length : Nat) (text : String) (before after : List UInt8) : Prop where
  size : after.length = before.length
  read : ∀ kept, decode length after = String.ofList kept ↔ Kept length (beforeZero text) kept
  beyond : ∀ place, length ≤ place → after[place]? = before[place]?
  padded : ∀ place, min text.utf8ByteSize length ≤ place → place < length →
    after[place]? = some 0

/-- A text that is written into a buffer is kept up to its first zero as far as its characters
fit whole, and one that is torn is read as one replacement character. -/
theorem overwrite_holds (text : String) {length : Nat} {buffer : List UInt8}
    (room : length ≤ buffer.length) :
    Holds length text buffer (overwrite (encode length text) buffer) where
  size := overwrite_length (by rwa [encode_length])
  read kept := by
    have carries := carried_kept length text
    rw [decode_overwrite]
    constructor
    · intro same
      rwa [same,String.toList_ofList] at carries
    · intro keeps
      rw [← carries.unique keeps,String.ofList_toList]
  beyond place beyond := by
    rw [getElem?_overwrite,encode_length,if_neg (by omega)]
  padded place beyond within := by
    rw [getElem?_overwrite,encode_length,if_pos within,encode_padding beyond within]

/-- A buffer that ends inside the second of two characters, with a zero behind that. -/
theorem overwrite_holds_torn :
    let buffer : List UInt8 := List.replicate 7 0xAA
    let written : List UInt8 := [0xC3,0xA9,0xF0,0x9F,0x98,0xAA,0xAA]
    5 ≤ buffer.length ∧ overwrite (encode 5 "é😀\x00x") buffer = written ∧
      Holds 5 "é😀\x00x" buffer written ∧ decode 5 written = "é\uFFFD" ∧
      Kept 5 (beforeZero "é😀\x00x") ['é',replacement] := by
  intro buffer written
  have room : 5 ≤ buffer.length := by decide
  have same : overwrite (encode 5 "é😀\x00x") buffer = written := by decide +kernel
  have holds := overwrite_holds "é😀\x00x" room
  rw [same] at holds
  have reads : decode 5 written = "é\uFFFD" := by decide +kernel
  exact ⟨room,same,holds,reads,(holds.read _).mp reads⟩

end CharBuffer

end MavPayload
