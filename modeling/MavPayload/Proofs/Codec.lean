import MavPayload.Proofs.Cursor

/-! The walk over a layout, without its cursor. Writing makes the concatenation of the
octets of the fields, and reading makes something of each field's own part of the payload;
neither leaves a payload of full length. -/
namespace MavPayload.Layout

@[simp] theorem totalSize_append (first second : List Field) :
    totalSize (first ++ second) = totalSize first + totalSize second := by
  induction first with
  | nil => simp [totalSize]
  | cons field rest ih => simp only [List.cons_append,totalSize,ih,Nat.add_assoc]

/-- Consecutive fields, each with its own part of a payload. -/
def segments : List Field → List UInt8 → List (Field × List UInt8)
  | [],_ => []
  | field :: rest,payload =>
    (field,payload.take field.size) :: segments rest (payload.drop field.size)

theorem totalSize_eq (fields : List Field) :
    totalSize fields = Reader.extent (fun field : Field => field.size) fields := by
  induction fields with
  | nil => rfl
  | cons field rest ih => rw [totalSize,Reader.extent,ih]

theorem segments_eq (fields : List Field) (payload : List UInt8) :
    segments fields payload = Reader.divide (fun field : Field => field.size) fields payload := by
  induction fields generalizing payload with
  | nil => rfl
  | cons field rest ih => rw [segments,Reader.divide,ih]

@[simp] theorem segments_fields (fields : List Field) (payload : List UInt8) :
    (segments fields payload).map Prod.fst = fields := by
  rw [segments_eq,Reader.divide_items]

theorem segments_append (first second : List Field) (payload : List UInt8) :
    segments (first ++ second) payload =
      segments first payload ++ segments second (payload.drop (totalSize first)) := by
  induction first generalizing payload with
  | nil => simp [segments,totalSize]
  | cons field rest ih => simp [segments,totalSize,ih,List.drop_drop]

theorem segments_take (fields : List Field) (payload : List UInt8) (size : Nat)
    (enough : totalSize fields ≤ size) :
    segments fields (payload.take size) = segments fields payload := by
  rw [totalSize_eq] at enough
  rw [segments_eq,segments_eq,Reader.divide_take _ _ enough]

theorem segments_flatMap {bytes : Field → List UInt8} {fields : List Field}
    (sized : ∀ field ∈ fields, (bytes field).length = field.size) :
    segments fields (fields.flatMap bytes) = fields.map fun field => (field,bytes field) := by
  have parts := Reader.divide_flatMap sized []
  rwa [List.append_nil,← segments_eq] at parts

theorem segments_zeros (fields : List Field) (size : Nat) (enough : totalSize fields ≤ size) :
    segments fields (List.replicate size 0) =
      fields.map fun field => (field,List.replicate field.size 0) := by
  induction fields generalizing size with
  | nil => rfl
  | cons field rest ih =>
    simp only [totalSize] at enough
    simp only [segments,List.take_replicate,List.drop_replicate,List.map_cons,
      Nat.min_eq_left (by omega : field.size ≤ size)]
    rw [ih _ (by omega)]

theorem flatMap_length {bytes : Field → List UInt8} {fields : List Field}
    (sized : ∀ field ∈ fields, (bytes field).length = field.size) :
    (fields.flatMap bytes).length = totalSize fields := by
  rw [Reader.flatMap_extent sized,totalSize_eq]

variable {layout : Layout} {version : Version}

theorem fill_zeros {write : Field → Writer → Option Writer} {bytes : Field → List UInt8}
    (puts : ∀ field ∈ layout.fieldsFor version, Writer.Puts (write field) (bytes field))
    (fits : ((layout.fieldsFor version).flatMap bytes).length ≤ layout.payloadSize version) :
    layout.fill? version write = some ((layout.fieldsFor version).flatMap bytes ++
      List.replicate (layout.payloadSize version -
        ((layout.fieldsFor version).flatMap bytes).length) 0) := by
  have start : (Writer.zeros (layout.payloadSize version)).Inside := Nat.zero_le _
  have filled := Writer.Puts.foldlM puts _ start
  rw [Writer.put_zeros_append fits] at filled
  simp only [fill?,filled,Option.map_some]

theorem fill_octets {write : Field → Writer → Option Writer} {bytes : Field → List UInt8}
    (puts : ∀ field ∈ layout.fieldsFor version, Writer.Puts (write field) (bytes field))
    (sized : ∀ field ∈ layout.fieldsFor version, (bytes field).length = field.size) :
    layout.fill? version write = some ((layout.fieldsFor version).flatMap bytes) := by
  have size : ((layout.fieldsFor version).flatMap bytes).length = layout.payloadSize version :=
    flatMap_length sized
  have filled := fill_zeros puts (Nat.le_of_eq size)
  rwa [size,Nat.sub_self,List.replicate_zero,List.append_nil] at filled

theorem encodeWith_octets {write : Field → Writer → Option Writer} {bytes : Field → List UInt8}
    (puts : ∀ field ∈ layout.fieldsFor version, Writer.Puts (write field) (bytes field))
    (sized : ∀ field ∈ layout.fieldsFor version, (bytes field).length = field.size) :
    layout.encodeWith version write =
      .ok (sent version ((layout.fieldsFor version).flatMap bytes)) := by
  simp only [encodeWith,fill_octets puts sized]

section

variable {α : Type} {read : Field → Reader → α → Option (α × Reader)}
  {update : Field → List UInt8 → α → α}

/-- Fields that take octets of their own make of a payload what its parts say, if it has
room for all of them. -/
theorem scan_divide {width : Field → Nat}
    (yields : ∀ field ∈ layout.fieldsFor version, ∀ state,
      Reader.Yields (fun reader => read field reader state) (width field)
        fun bytes => update field bytes state)
    (start : α) {payload : List UInt8}
    (fits : Reader.extent width (layout.fieldsFor version) ≤ payload.length) :
    layout.scan? version read start payload =
      some ((Reader.divide width (layout.fieldsFor version) payload).foldl
        (fun state part => update part.1 part.2 state) start) := by
  have inside : (⟨payload,0⟩ : Reader).Inside := Nat.zero_le _
  have walked := Reader.Yields.foldlM yields start _ inside
  have room : 0 + Reader.extent width (layout.fieldsFor version) ≤ payload.length := by omega
  simp only [Reader.take,room,if_true,Option.map_some,List.drop_zero,
    Reader.divide_take _ _ (Nat.le_refl _)] at walked
  simp only [scan?,walked,Option.map_some]

theorem scan_segments
    (yields : ∀ field ∈ layout.fieldsFor version, ∀ state,
      Reader.Yields (fun reader => read field reader state) field.size
        fun bytes => update field bytes state)
    (start : α) {payload : List UInt8} (full : payload.length = layout.payloadSize version) :
    layout.scan? version read start payload =
      some ((segments (layout.fieldsFor version) payload).foldl
        (fun state part => update part.1 part.2 state) start) := by
  rw [payloadSize,totalSize_eq] at full
  rw [segments_eq,scan_divide yields start (Nat.le_of_eq full.symm)]

end

end MavPayload.Layout
