import MavPayload.Proofs.Element

/-! What a text buffer keeps of a text, octet by octet: the characters that fit whole, and
the beginning of the next one where the buffer ends inside it. A buffer that has been read
can be written again only if it was legible, since a torn character and whatever stands
behind a zero are lost in reading. -/
namespace MavPayload

namespace Text.Utf8

/-- The characters at the beginning of a text that fit whole into `room` octets. -/
def fitting : Nat → List Char → List Char
  | _,[] => []
  | room,char :: rest =>
    let size := (String.utf8EncodeChar char).length
    if size ≤ room then char :: fitting (room - size) rest else []

/-- What `room` octets keep of the first character that does not fit into them. -/
def torn : Nat → List Char → List UInt8
  | _,[] => []
  | room,char :: rest =>
    let size := (String.utf8EncodeChar char).length
    if size ≤ room then torn (room - size) rest else (String.utf8EncodeChar char).take room

theorem take_encodeChars (room : Nat) (chars : List Char) :
    (chars.flatMap String.utf8EncodeChar).take room =
      (fitting room chars).flatMap String.utf8EncodeChar ++ torn room chars := by
  induction chars generalizing room with
  | nil => rw [fitting,torn,List.flatMap_nil,List.take_nil,List.append_nil]
  | cons char rest ih =>
    simp only [fitting,torn,List.flatMap_cons]
    split
    · rename_i fits
      rw [List.take_append,List.take_of_length_le fits,ih,List.flatMap_cons,List.append_assoc]
    · rename_i long
      rw [List.take_append_of_le_length (by omega),List.flatMap_nil,List.nil_append]

theorem torn_eq (room : Nat) (chars : List Char) :
    torn room chars = [] ∨ ∃ char count, 0 < count ∧
      count < (String.utf8EncodeChar char).length ∧
      torn room chars = (String.utf8EncodeChar char).take count ∧
      ((fitting room chars).flatMap String.utf8EncodeChar).length + count = room := by
  induction chars generalizing room with
  | nil => exact Or.inl rfl
  | cons char rest ih =>
    simp only [fitting,torn]
    split
    · rename_i fits
      rcases ih (room - (String.utf8EncodeChar char).length) with
        none | ⟨other,count,begun,short,same,full⟩
      · exact Or.inl none
      · refine Or.inr ⟨other,count,begun,short,same,?_⟩
        rw [List.flatMap_cons,List.length_append]
        omega
    · rename_i long
      rcases Nat.eq_zero_or_pos room with rfl | begun
      · exact Or.inl rfl
      · exact Or.inr ⟨char,room,begun,by omega,rfl,Nat.zero_add room⟩

theorem zero_not_mem_torn {char : Char} {count : Nat} (begun : 0 < count)
    (short : count < (String.utf8EncodeChar char).length) :
    0 ∉ (String.utf8EncodeChar char).take count := by
  intro member
  obtain rfl := zero_mem_encodeChar.mp (List.mem_of_mem_take member)
  have one : (String.utf8EncodeChar '\x00').length = 1 := rfl
  omega

end Text.Utf8

namespace CharBuffer

open Text.Utf8

/-- Whether a buffer holds whole characters and then only zeros. A buffer may also end in
the beginning of a replacement character, which is what a torn character is read as. -/
def Legible (buffer : List UInt8) : Prop :=
  ∃ (whole : List Char) (cut : List UInt8) (zeros : Nat), '\x00' ∉ whole ∧
    cut <+: String.utf8EncodeChar replacement ∧ (cut = [] ∨ zeros = 0) ∧
    buffer = whole.flatMap String.utf8EncodeChar ++ cut ++ List.replicate zeros 0

theorem takeWhile_nonzero_zeros {front : List UInt8} (nonzero : 0 ∉ front) (zeros : Nat) :
    (front ++ List.replicate zeros 0).takeWhile (· != 0) = front := by
  cases zeros with
  | zero => rw [List.replicate_zero,List.append_nil,takeWhile_nonzero nonzero]
  | succ zeros => exact takeWhile_nonzero_cons nonzero _

theorem encode_fitting {length : Nat} {chars : List Char}
    (fits : (chars.flatMap String.utf8EncodeChar).length ≤ length) :
    encode length (String.ofList chars) = chars.flatMap String.utf8EncodeChar ++
      List.replicate (length - (chars.flatMap String.utf8EncodeChar).length) 0 := by
  simp only [encode,Text.Utf8.encode,String.toList_ofList,List.take_of_length_le fits]

theorem decodeLossy_torn (whole : List Char) {char : Char} {count : Nat} (begun : 0 < count)
    (short : count < (String.utf8EncodeChar char).length) :
    decodeLossy (whole.flatMap String.utf8EncodeChar ++ (String.utf8EncodeChar char).take count) =
      String.ofList (whole ++ [replacement]) := by
  rw [decodeLossy,readFrom_encodeChars,readFrom_torn char begun short]

theorem decodeLossy_whole (whole : List Char) :
    decodeLossy (whole.flatMap String.utf8EncodeChar) = String.ofList whole := by
  have text := decodeLossy_encode (String.ofList whole)
  rwa [Text.Utf8.encode,String.toList_ofList] at text

theorem take_replacement {length : Nat} (whole : List Char) {count : Nat}
    (full : (whole.flatMap String.utf8EncodeChar).length + count = length) :
    ((whole ++ [replacement]).flatMap String.utf8EncodeChar).take length =
      whole.flatMap String.utf8EncodeChar ++ (String.utf8EncodeChar replacement).take count := by
  have room : length - (whole.flatMap String.utf8EncodeChar).length = count := by omega
  rw [List.flatMap_append,List.flatMap_singleton,List.take_append,room,
    List.take_of_length_le (by omega)]

theorem encode_replacement {length : Nat} (whole : List Char) {count : Nat}
    (full : (whole.flatMap String.utf8EncodeChar).length + count = length) :
    encode length (String.ofList (whole ++ [replacement])) =
      whole.flatMap String.utf8EncodeChar ++ (String.utf8EncodeChar replacement).take count ++
        List.replicate (length - ((whole.flatMap String.utf8EncodeChar).length +
          ((String.utf8EncodeChar replacement).take count).length)) 0 := by
  simp only [encode,Text.Utf8.encode,String.toList_ofList,take_replacement whole full,
    List.length_append]

theorem zero_not_mem_cut {whole : List Char} {cut : List UInt8} (noZero : '\x00' ∉ whole)
    (begins : cut <+: String.utf8EncodeChar replacement) :
    0 ∉ whole.flatMap String.utf8EncodeChar ++ cut := by
  rw [List.mem_append,not_or]
  refine ⟨fun member => noZero (zero_mem_encodeChars.mp member),fun member => ?_⟩
  exact absurd (zero_mem_encodeChar.mp (begins.subset member)) (by decide)

theorem decodeLossy_cut (whole : List Char) {cut : List UInt8}
    (begins : cut <+: String.utf8EncodeChar replacement) (some : cut ≠ []) :
    decodeLossy (whole.flatMap String.utf8EncodeChar ++ cut) =
      String.ofList (whole ++ [replacement]) := by
  rcases Nat.lt_or_ge cut.length (String.utf8EncodeChar replacement).length with short | all
  · rw [List.prefix_iff_eq_take.mp begins]
    exact decodeLossy_torn whole (List.length_pos_iff.mpr some) short
  · have ended := decodeLossy_whole (whole ++ [replacement])
    rwa [List.flatMap_append,List.flatMap_singleton,← begins.eq_of_length_le all] at ended

theorem encode_decode_of_legible {buffer : List UInt8} (legible : Legible buffer) :
    encode buffer.length (decode buffer.length buffer) = buffer := by
  obtain ⟨whole,cut,zeros,noZero,begins,ends,same⟩ := legible
  have nonzero := zero_not_mem_cut noZero begins
  have size : buffer.length =
      (whole.flatMap String.utf8EncodeChar).length + cut.length + zeros := by
    rw [same,List.length_append,List.length_append,List.length_replicate]
  have read : decode buffer.length buffer =
      decodeLossy (whole.flatMap String.utf8EncodeChar ++ cut) := by
    rw [decode,List.take_length,same,takeWhile_nonzero_zeros nonzero]
  rw [read]
  by_cases none : cut = []
  · subst none
    rw [List.length_nil,Nat.add_zero] at size
    rw [List.append_nil,decodeLossy_whole,encode_fitting (by omega),size,Nat.add_sub_cancel_left,
      same,List.append_nil]
  · obtain rfl := ends.resolve_left none
    rw [Nat.add_zero] at size
    rw [decodeLossy_cut whole begins none,encode_replacement whole size.symm,
      ← List.prefix_iff_eq_take.mp begins,size,Nat.sub_self,same]

variable {length : Nat} {text : String}

theorem encode_fitting_torn (length : Nat) (text : String) :
    encode length text =
      (fitting length text.toList).flatMap String.utf8EncodeChar ++ torn length text.toList ++
        List.replicate (length - ((fitting length text.toList).flatMap String.utf8EncodeChar ++
          torn length text.toList).length) 0 := by
  simp only [encode,Text.Utf8.encode,take_encodeChars]

theorem fitting_length_le (length : Nat) (chars : List Char) :
    ((fitting length chars).flatMap String.utf8EncodeChar).length ≤ length := by
  have parts := congrArg List.length (take_encodeChars length chars)
  rw [List.length_take,List.length_append] at parts
  omega

theorem carried_of_zero {front back : List Char}
    (parts : fitting length text.toList = front ++ '\x00' :: back) (noZero : '\x00' ∉ front) :
    carried length text = String.ofList front := by
  have one : String.utf8EncodeChar '\x00' = [0] := rfl
  have nonzero : 0 ∉ front.flatMap String.utf8EncodeChar :=
    fun member => noZero (zero_mem_encodeChars.mp member)
  rw [carried,Text.Utf8.encode,take_encodeChars,parts,List.flatMap_append,List.flatMap_cons,one,
    List.append_assoc,List.singleton_append,List.cons_append,takeWhile_nonzero_cons nonzero,
    decodeLossy_whole]

theorem carried_of_torn (noZero : '\x00' ∉ fitting length text.toList)
    (cut : torn length text.toList ≠ []) :
    carried length text = String.ofList (fitting length text.toList ++ [replacement]) := by
  rcases torn_eq length text.toList with none | ⟨char,count,begun,short,part,_⟩
  · exact absurd none cut
  · have nonzero : 0 ∉ (fitting length text.toList).flatMap String.utf8EncodeChar ++
        (String.utf8EncodeChar char).take count := by
      rw [List.mem_append,not_or]
      exact ⟨fun member => noZero (zero_mem_encodeChars.mp member),zero_not_mem_torn begun short⟩
    rw [carried,Text.Utf8.encode,take_encodeChars,part,takeWhile_nonzero nonzero,
      decodeLossy_torn _ begun short]

theorem carried_of_whole (noZero : '\x00' ∉ fitting length text.toList)
    (uncut : torn length text.toList = []) :
    carried length text = String.ofList (fitting length text.toList) := by
  have nonzero : 0 ∉ (fitting length text.toList).flatMap String.utf8EncodeChar :=
    fun member => noZero (zero_mem_encodeChars.mp member)
  rw [carried,Text.Utf8.encode,take_encodeChars,uncut,List.append_nil,takeWhile_nonzero nonzero,
    decodeLossy_whole]

theorem carried_whole {chars : List Char} (noZero : '\x00' ∉ chars)
    (fits : (chars.flatMap String.utf8EncodeChar).length ≤ length) :
    carried length (String.ofList chars) = String.ofList chars := by
  apply carried_eq_self
  · rwa [Text.Utf8.encode,String.toList_ofList]
  · rwa [String.toList_ofList]

/-- A replacement character in the place of a torn one may itself be torn, and is then read as
a replacement character again. -/
theorem carried_replacement {chars : List Char} (noZero : '\x00' ∉ chars) {count : Nat}
    (begun : 0 < count) (full : (chars.flatMap String.utf8EncodeChar).length + count = length) :
    carried length (String.ofList (chars ++ [replacement])) =
      String.ofList (chars ++ [replacement]) := by
  have begins := List.take_prefix count (String.utf8EncodeChar replacement)
  rw [carried,Text.Utf8.encode,String.toList_ofList,take_replacement chars full,
    takeWhile_nonzero (zero_not_mem_cut noZero begins)]
  apply decodeLossy_cut chars begins
  intro empty
  have none := congrArg List.length empty
  have three : (String.utf8EncodeChar replacement).length = 3 := rfl
  rw [List.length_take,three,List.length_nil] at none
  omega

theorem carried_carried (length : Nat) (text : String) :
    carried length (carried length text) = carried length text := by
  have fits := fitting_length_le length text.toList
  by_cases zero : '\x00' ∈ fitting length text.toList
  · obtain ⟨front,back,parts,noZero⟩ := List.eq_append_cons_of_mem zero
    rw [parts,List.flatMap_append,List.length_append] at fits
    rw [carried_of_zero parts noZero,carried_whole noZero (by omega)]
  · rcases torn_eq length text.toList with uncut | ⟨char,count,begun,short,part,full⟩
    · rw [carried_of_whole zero uncut,carried_whole zero fits]
    · have cut : torn length text.toList ≠ [] := by
        rw [part,ne_eq,List.take_eq_nil_iff,not_or]
        exact ⟨by omega,List.ne_nil_of_length_pos (by omega)⟩
      rw [carried_of_torn zero cut,carried_replacement zero begun full]

/-- A torn character that is written again as it was begins like a replacement character. -/
theorem torn_prefix (noZero : '\x00' ∉ fitting length text.toList)
    (cut : torn length text.toList ≠ [])
    (same : encode length (carried length text) = encode length text) :
    torn length text.toList <+: String.utf8EncodeChar replacement ∧
      encode length text = (fitting length text.toList).flatMap String.utf8EncodeChar ++
        torn length text.toList := by
  rcases torn_eq length text.toList with none | ⟨char,count,begun,short,part,full⟩
  · exact absurd none cut
  · have clean := zero_not_mem_torn begun short
    rw [← part] at clean
    have size : (torn length text.toList).length = count := by
      rw [part,List.length_take]
      omega
    have written : encode length text =
        (fitting length text.toList).flatMap String.utf8EncodeChar ++ torn length text.toList := by
      rw [encode_fitting_torn,List.length_append,size,full,Nat.sub_self,List.replicate_zero,
        List.append_nil]
    rw [carried_of_torn noZero cut,encode_replacement _ full,written,List.append_assoc] at same
    have tail := List.append_cancel_left same
    refine ⟨?_,written⟩
    -- What follows the replacement character would be zeros, and a torn character has none.
    cases rest : length - (((fitting length text.toList).flatMap String.utf8EncodeChar).length +
      ((String.utf8EncodeChar replacement).take count).length) with
    | zero =>
      rw [rest,List.replicate_zero,List.append_nil] at tail
      rw [← tail]
      exact List.take_prefix _ _
    | succ zeros =>
      rw [rest] at tail
      rw [← tail] at clean
      simp [List.replicate_succ] at clean

/-- A buffer is written again as it was after it has been read exactly if it was legible. -/
theorem encode_carried_iff :
    encode length (carried length text) = encode length text ↔ Legible (encode length text) := by
  constructor
  · intro same
    -- What is read ends at a zero, in a torn character, or where the text does.
    by_cases zero : '\x00' ∈ fitting length text.toList
    · obtain ⟨front,back,parts,noZero⟩ := List.eq_append_cons_of_mem zero
      have fits := fitting_length_le length text.toList
      rw [parts,List.flatMap_append,List.length_append] at fits
      rw [carried_of_zero parts noZero,encode_fitting (by omega)] at same
      exact ⟨front,[],_,noZero,List.nil_prefix,Or.inl rfl,by rw [← same,List.append_nil]⟩
    · by_cases cut : torn length text.toList = []
      · exact ⟨_,[],_,zero,List.nil_prefix,Or.inl rfl,by rw [encode_fitting_torn,cut]⟩
      · obtain ⟨begins,written⟩ := torn_prefix zero cut same
        exact ⟨_,_,0,zero,begins,Or.inr rfl,by rw [written,List.replicate_zero,List.append_nil]⟩
  · intro legible
    have again := encode_decode_of_legible legible
    rwa [encode_length,decode_encode] at again

/-- Of all buffers, the legible ones are those that reading and writing brings back. -/
theorem encode_decode_iff {buffer : List UInt8} :
    encode buffer.length (decode buffer.length buffer) = buffer ↔ Legible buffer := by
  refine ⟨fun same => ?_,encode_decode_of_legible⟩
  -- Such a buffer is what is written for the text that it carries.
  have read := decode_encode buffer.length (decode buffer.length buffer)
  rw [same] at read
  have legible := encode_carried_iff.mp (congrArg (encode buffer.length) read.symm)
  rwa [same] at legible

end CharBuffer

end MavPayload
