import MavPayload.Codec

/-! A codec of a field is known by the octets it puts and by the value it makes of the
octets it takes. Both facts compose: a walk over several fields puts the concatenation of
their octets and takes them apart at the same places. -/
namespace MavPayload

namespace Writer

/-- Whether the place lies in the payload or at its end. -/
def Inside (writer : Writer) : Prop :=
  writer.offset ≤ writer.buffer.length

/-- A step that puts some octets, whatever payload it is in. -/
def Puts (write : Writer → Option Writer) (bytes : List UInt8) : Prop :=
  ∀ writer : Writer, writer.Inside → write writer = writer.put bytes

theorem put_nil {writer : Writer} (inside : writer.Inside) : writer.put [] = some writer := by
  have bound : writer.offset ≤ writer.buffer.length := inside
  simp [put,overwrite,bound]

theorem put_inside {writer next : Writer} {bytes : List UInt8}
    (put : writer.put bytes = some next) : next.Inside := by
  unfold Writer.put at put
  split at put
  · rename_i fits
    cases put
    simp only [Inside,overwrite,List.length_append,List.length_take,List.length_drop]
    omega
  · cases put

theorem put_offset {writer next : Writer} {bytes : List UInt8}
    (put : writer.put bytes = some next) : next.offset = writer.offset + bytes.length := by
  unfold Writer.put at put
  split at put
  · cases put
    rfl
  · cases put

theorem put_append (writer : Writer) (first second : List UInt8) :
    writer.put (first ++ second) = (writer.put first).bind fun next => next.put second := by
  unfold put
  by_cases fits : writer.offset + first.length ≤ writer.buffer.length
  · have taken : (writer.buffer.take writer.offset).length = writer.offset := by
      rw [List.length_take]
      omega
    have front : (writer.buffer.take writer.offset ++ first).length =
        writer.offset + first.length := by simp [taken]
    have size : (writer.buffer.take writer.offset ++
        overwrite first (writer.buffer.drop writer.offset)).length = writer.buffer.length := by
      simp only [overwrite,List.length_append,List.length_drop,taken]
      omega
    simp only [fits,if_true,Option.bind_some,size,List.length_append,← Nat.add_assoc]
    split
    · congr 2
      simp only [overwrite,← List.append_assoc,List.take_left' front,List.drop_left' front]
      simp [List.drop_drop,Nat.add_assoc]
    · rfl
  · have tooLong : ¬ writer.offset + (first ++ second).length ≤ writer.buffer.length := by
      rw [List.length_append]
      omega
    simp only [fits,tooLong,if_false,Option.bind_none]

theorem put_zeros_append {bytes : List UInt8} {size : Nat} (fits : bytes.length ≤ size) :
    (zeros size).put bytes =
      some ⟨bytes ++ List.replicate (size - bytes.length) 0,bytes.length⟩ := by
  simp [put,zeros,overwrite,fits]

theorem put_zeros (bytes : List UInt8) :
    (zeros bytes.length).put bytes = some ⟨bytes,bytes.length⟩ := by
  have put := put_zeros_append (Nat.le_refl bytes.length)
  rwa [Nat.sub_self,List.replicate_zero,List.append_nil] at put

theorem Puts.foldlM {α : Type} {write : α → Writer → Option Writer} {bytes : α → List UInt8}
    {items : List α} (puts : ∀ item ∈ items, Puts (write item) (bytes item)) :
    Puts (fun writer => items.foldlM (fun writer item => write item writer) writer)
      (items.flatMap bytes) := by
  induction items with
  | nil =>
    intro writer inside
    exact (put_nil inside).symm
  | cons item rest ih =>
    intro writer inside
    simp only [List.foldlM_cons]
    rw [puts item (by simp) writer inside,List.flatMap_cons,put_append]
    cases step : writer.put (bytes item) with
    | none => rfl
    | some next =>
      exact ih (fun other member => puts other (by simp [member])) next (put_inside step)

end Writer

namespace Reader

/-- Whether the place lies in the payload or at its end. -/
def Inside (reader : Reader) : Prop :=
  reader.offset ≤ reader.buffer.length

/-- A step that takes `size` octets, whatever payload it is in, and makes a value of
them. -/
def Yields {α : Type} (read : Reader → Option (α × Reader)) (size : Nat)
    (value : List UInt8 → α) : Prop :=
  ∀ reader : Reader, reader.Inside →
    read reader = (reader.take size).map fun taken => (value taken.1,taken.2)

theorem take_zero {reader : Reader} (inside : reader.Inside) :
    reader.take 0 = some ([],reader) := by
  have bound : reader.offset ≤ reader.buffer.length := inside
  simp [take,bound]

theorem take_inside {reader next : Reader} {size : Nat} {bytes : List UInt8}
    (taken : reader.take size = some (bytes,next)) : next.Inside := by
  unfold take at taken
  split at taken
  · cases taken
    assumption
  · cases taken

theorem take_offset {reader next : Reader} {size : Nat} {bytes : List UInt8}
    (taken : reader.take size = some (bytes,next)) : next.offset = reader.offset + size := by
  unfold take at taken
  split at taken
  · cases taken
    rfl
  · cases taken

theorem take_add (reader : Reader) (first second : Nat) :
    reader.take (first + second) = (reader.take first).bind fun front =>
      (front.2.take second).map fun back => (front.1 ++ back.1,back.2) := by
  unfold take
  by_cases fits : reader.offset + first ≤ reader.buffer.length
  · simp only [fits,if_true,Option.bind_some,← Nat.add_assoc]
    split
    · simp only [Option.map_some,← List.drop_drop]
      rw [List.take_add]
    · rfl
  · have tooLong : ¬ reader.offset + (first + second) ≤ reader.buffer.length := by omega
    simp only [fits,tooLong,if_false,Option.bind_none]

theorem take_length {reader next : Reader} {size : Nat} {bytes : List UInt8}
    (taken : reader.take size = some (bytes,next)) : bytes.length = size := by
  unfold take at taken
  split at taken
  · cases taken
    rw [List.length_take,List.length_drop]
    omega
  · cases taken

theorem Yields.times {α : Type} {read : Reader → Option (α × Reader)} {size : Nat}
    {value : List UInt8 → α} (yields : Yields read size value) (count : Nat) :
    Yields (fun reader => reader.times read count) (size * count) fun bytes =>
      Vector.ofFn fun place : Fin count => value ((bytes.drop (size * place)).take size) := by
  induction count with
  | zero =>
    intro reader inside
    simp only [Reader.times,Nat.mul_zero,take_zero inside,Option.map_some]
    rfl
  | succ count ih =>
    intro reader inside
    simp only [Reader.times,ih reader inside,Nat.mul_succ,take_add]
    cases front : reader.take (size * count) with
    | none => rfl
    | some taken =>
      obtain ⟨bytes,next⟩ := taken
      have width := take_length front
      simp only [Option.map_some,Option.bind_some,Option.bind_eq_bind,
        yields next (take_inside front)]
      cases back : next.take size with
      | none => rfl
      | some last =>
        have lastWidth := take_length back
        -- The last part is behind all others and does not move them.
        have early (place : Nat) (before : place < count) :
            ((bytes ++ last.1).drop (size * place)).take size =
              (bytes.drop (size * place)).take size := by
          have fits : size * place + size ≤ bytes.length := by
            rw [width,← Nat.mul_succ]
            exact Nat.mul_le_mul_left _ before
          rw [List.drop_append_of_le_length (by omega),
            List.take_append_of_le_length (by rw [List.length_drop]; omega)]
        have late : ((bytes ++ last.1).drop (size * count)).take size = last.1 := by
          rw [List.drop_left' width,List.take_of_length_le (by omega)]
        simp only [Option.map_some,Option.bind_some,Option.some.injEq,Prod.mk.injEq,and_true,
          pure]
        apply Vector.ext
        intro place bound
        by_cases before : place < count
        · simp [before,early place before]
        · have same : place = count := by omega
          subst same
          simp [late]

section

variable {ι σ : Type} {width : ι → Nat}

/-- The octets that consecutive items take. -/
def extent (width : ι → Nat) : List ι → Nat
  | [] => 0
  | item :: rest => width item + extent width rest

/-- Consecutive items, each with its own part of some octets. -/
def divide (width : ι → Nat) : List ι → List UInt8 → List (ι × List UInt8)
  | [],_ => []
  | item :: rest,bytes =>
    (item,bytes.take (width item)) :: divide width rest (bytes.drop (width item))

theorem divide_items (items : List ι) (bytes : List UInt8) :
    (divide width items bytes).map Prod.fst = items := by
  induction items generalizing bytes with
  | nil => rfl
  | cons item rest ih => simp [divide,ih]

theorem divide_congr {other : ι → Nat} {items : List ι}
    (same : ∀ item ∈ items, width item = other item) (bytes : List UInt8) :
    divide width items bytes = divide other items bytes := by
  induction items generalizing bytes with
  | nil => rfl
  | cons item rest ih =>
    simp only [divide,same item (by simp)]
    rw [ih fun other member => same other (by simp [member])]

theorem divide_take (items : List ι) (bytes : List UInt8) {size : Nat}
    (enough : extent width items ≤ size) :
    divide width items (bytes.take size) = divide width items bytes := by
  induction items generalizing bytes size with
  | nil => rfl
  | cons item rest ih =>
    simp only [extent] at enough
    simp only [divide,List.take_take,List.drop_take,Nat.min_eq_left (by omega : width item ≤ size)]
    rw [ih _ (by omega)]

theorem divide_flatMap {part : ι → List UInt8} {items : List ι}
    (sized : ∀ item ∈ items, (part item).length = width item) (behind : List UInt8) :
    divide width items (items.flatMap part ++ behind) = items.map fun item => (item,part item) := by
  induction items with
  | nil => rfl
  | cons item rest ih =>
    have first := sized item (by simp)
    simp only [divide,List.flatMap_cons,List.append_assoc,List.map_cons,List.take_left' first,
      List.drop_left' first]
    rw [ih fun other member => sized other (by simp [member])]

theorem flatMap_extent {part : ι → List UInt8} {items : List ι}
    (sized : ∀ item ∈ items, (part item).length = width item) :
    (items.flatMap part).length = extent width items := by
  induction items with
  | nil => rfl
  | cons item rest ih =>
    rw [List.flatMap_cons,List.length_append,sized item (by simp),
      ih fun other member => sized other (by simp [member])]
    rfl

/-- The induction is on the steps still to be made; the octets of those before them are in
front. -/
theorem Yields.foldlM {read : ι → Reader → σ → Option (σ × Reader)}
    {update : ι → List UInt8 → σ → σ} {items : List ι}
    (yields : ∀ item ∈ items, ∀ state, Yields (fun reader => read item reader state) (width item)
      fun bytes => update item bytes state) (state : σ) :
    Yields (fun reader => items.foldlM
      (fun (state : σ × Reader) item => read item state.2 state.1) (state,reader))
      (extent width items) fun bytes =>
        (divide width items bytes).foldl (fun state part => update part.1 part.2 state) state := by
  induction items generalizing state with
  | nil =>
    intro reader inside
    rw [extent,take_zero inside]
    rfl
  | cons item rest ih =>
    intro reader inside
    have one := yields item (by simp) state reader inside
    dsimp only at one ⊢
    rw [List.foldlM_cons,one,extent,take_add]
    cases front : reader.take (width item) with
    | none => rfl
    | some taken =>
      have size := take_length front
      have later := ih (fun other member => yields other (by simp [member]))
        (update item taken.1 state) taken.2 (take_inside front)
      dsimp only at later
      simp only [Option.map_some,Option.bind_some,bind]
      rw [later,Option.map_map]
      cases taken.2.take (extent width rest) with
      | none => rfl
      | some back =>
        simp only [Option.map_some,Function.comp_apply,divide,List.foldl_cons,
          List.take_left' size,List.drop_left' size]

end

end Reader

end MavPayload
