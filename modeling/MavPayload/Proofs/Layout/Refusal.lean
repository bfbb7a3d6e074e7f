import MavPayload.Proofs.Layout.Order

/-! Why a declaration is refused. It is judged by the name of its message, by its id, by each
field in turn and by the size of all fields together. The first of these that fails is the
error, and a declaration of which none fails has a layout. -/
namespace MavPayload.Layout

/-- What a field is refused for where some fields, none of them at fault, stand before it. -/
inductive FieldFault (message : String) (before : List FieldSpec) (field : FieldSpec) :
    Error → Prop
  | unnamed : field.name = "" →
    FieldFault message before field (.invalidDefinition (.emptyFieldName message before.length))
  | repeated : field.name ≠ "" → field.name ∈ before.map (fun other => other.name) →
    FieldFault message before field (.invalidDefinition (.duplicateField message field.name))
  | unbacked : field.name ≠ "" → field.name ∉ before.map (fun other => other.name) →
    field.isEnum = true → field.type.canBackEnum = false →
    FieldFault message before field (.unsupportedEnum message field.name field.type)
  | tooLong : field.name ≠ "" → field.name ∉ before.map (fun other => other.name) →
    (field.isEnum = true → field.type.canBackEnum = true) → 255 < field.length →
    FieldFault message before field
      (.invalidDefinition (.arrayTooLong message field.name field.length))

/-- The first check that a declaration does not pass, as an error. -/
inductive FirstFault (name : String) (id : Nat) (specs : List FieldSpec) : Error → Prop
  | unnamed : name = "" → FirstFault name id specs (.invalidDefinition (.emptyMessageName id))
  | idTooLarge : name ≠ "" → 0xFFFFFF < id →
    FirstFault name id specs (.invalidDefinition (.idTooLarge name id))
  | field {before after : List FieldSpec} {field : FieldSpec} {error : Error} :
    name ≠ "" → id ≤ 0xFFFFFF → specs = before ++ field :: after → FieldsAcceptable before →
    FieldFault name before field error → FirstFault name id specs error
  | tooLarge : name ≠ "" → id ≤ 0xFFFFFF → FieldsAcceptable specs →
    255 < (specs.map fun field => field.type.size * max field.length 1).sum →
    FirstFault name id specs (.invalidDefinition (.payloadTooLong name
      (specs.map fun field => field.type.size * max field.length 1).sum))

variable {message : String} {before after specs : List FieldSpec} {field : FieldSpec}
  {error : Error}

theorem fieldsAcceptable_append :
    FieldsAcceptable (before ++ [field]) ↔ FieldsAcceptable before ∧ field.name ≠ "" ∧
      field.name ∉ before.map (fun other => other.name) ∧
      (field.isEnum = true → field.type.canBackEnum = true) ∧ field.length ≤ 255 := by
  constructor
  · rintro ⟨named,distinct,backed,bounded⟩
    rw [List.map_append,List.nodup_append] at distinct
    refine ⟨⟨?_,distinct.1,?_,?_⟩,named field (by simp),?_,backed field (by simp),
      bounded field (by simp)⟩
    · exact fun other member => named other (by simp [member])
    · exact fun other member => backed other (by simp [member])
    · exact fun other member => bounded other (by simp [member])
    · exact fun member => distinct.2.2 _ member _ (by simp) rfl
  · rintro ⟨⟨named,distinct,backed,bounded⟩,own,fresh,backs,short⟩
    refine ⟨?_,?_,?_,?_⟩
    · simpa [or_imp,forall_and,own] using named
    · rw [List.map_append,List.nodup_append]
      refine ⟨distinct,by simp,?_⟩
      rintro name member _ (last : _ ∈ [field.name]) rfl
      rw [List.mem_singleton.mp last] at member
      exact fresh member
    · simpa [or_imp,forall_and] using ⟨backed,backs⟩
    · simpa [or_imp,forall_and] using ⟨bounded,short⟩

theorem FieldsAcceptable.front (acceptable : FieldsAcceptable (before ++ after)) :
    FieldsAcceptable before where
  named other member := acceptable.named other (List.mem_append_left _ member)
  distinct := acceptable.distinct.sublist ((List.sublist_append_left before after).map _)
  backed other member := acceptable.backed other (List.mem_append_left _ member)
  length_le other member := acceptable.length_le other (List.mem_append_left _ member)

theorem FieldFault.not_acceptable (fault : FieldFault message before field error) :
    ¬ FieldsAcceptable (before ++ [field]) := by
  rw [fieldsAcceptable_append]
  rintro ⟨_,named,fresh,backs,short⟩
  cases fault with
  | unnamed unnamed => exact named unnamed
  | repeated _ repeated => exact fresh repeated
  | unbacked _ _ isEnum unbacked => simp [backs isEnum] at unbacked
  | tooLong _ _ _ long => omega

theorem FieldFault.checked {seen : List String}
    (known : ∀ name, name ∈ seen ↔ name ∈ before.map fun other => other.name)
    (fault : FieldFault message before field error) (rest : List FieldSpec) :
    checkFields message before.length seen (field :: rest) = .error error := by
  cases fault with
  | unnamed unnamed => rw [checkFields,if_pos unnamed]
  | repeated named repeated =>
    rw [checkFields,if_neg named,if_pos ((known _).mpr repeated)]
  | unbacked named fresh isEnum unbacked =>
    rw [checkFields,if_neg named,if_neg (mt (known _).mp fresh),if_pos (by simp [isEnum,unbacked])]
  | tooLong named fresh backs long =>
    rw [checkFields,if_neg named,if_neg (mt (known _).mp fresh),if_neg (by simpa using backs),
      if_pos long]

/-- What one field does to the checks of those from it on. -/
theorem checkFields_cons (message : String) (field : FieldSpec) {seen : List String}
    (known : ∀ name, name ∈ seen ↔ name ∈ before.map fun other => other.name)
    (acceptable : FieldsAcceptable before) (rest : List FieldSpec) :
    (∃ error, FieldFault message before field error ∧
      checkFields message before.length seen (field :: rest) = .error error) ∨
    FieldsAcceptable (before ++ [field]) ∧
      checkFields message before.length seen (field :: rest) =
        checkFields message (before ++ [field]).length (field.name :: seen) rest := by
  simp only [checkFields]
  split_ifs with unnamed repeated unbacked tooLong
  · exact Or.inl ⟨_,.unnamed unnamed,rfl⟩
  · exact Or.inl ⟨_,.repeated unnamed ((known _).mp repeated),rfl⟩
  · simp only [Bool.and_eq_true,Bool.not_eq_true'] at unbacked
    exact Or.inl ⟨_,.unbacked unnamed (mt (known _).mpr repeated) unbacked.1 unbacked.2,rfl⟩
  all_goals
    have fresh := mt (known field.name).mpr repeated
    have backs : field.isEnum = true → field.type.canBackEnum = true := by
      simpa using unbacked
  · exact Or.inl ⟨_,.tooLong unnamed fresh backs tooLong,rfl⟩
  · refine Or.inr ⟨fieldsAcceptable_append.mpr ⟨acceptable,unnamed,fresh,backs,by omega⟩,?_⟩
    rw [List.length_append,List.length_singleton]

theorem checkFields_error_iff {seen : List String}
    (known : ∀ name, name ∈ seen ↔ name ∈ before.map fun other => other.name)
    (acceptable : FieldsAcceptable before) :
    checkFields message before.length seen specs = .error error ↔
      ∃ middle field after, specs = middle ++ field :: after ∧
        FieldsAcceptable (before ++ middle) ∧
        FieldFault message (before ++ middle) field error := by
  -- By induction on the fields still to be checked, those before them being in order.
  induction specs generalizing before seen with
  | nil => simp [checkFields]
  | cons first rest ih =>
    rcases checkFields_cons message first known acceptable rest with
      ⟨found,fault,stops⟩ | ⟨accepted,goesOn⟩
    · rw [stops,Except.error.injEq]
      constructor
      · rintro rfl
        exact ⟨[],first,rest,rfl,by simpa using acceptable,by simpa using fault⟩
      · rintro ⟨middle,field,after,split,good,other⟩
        cases middle with
        | nil =>
          cases split
          rw [List.append_nil] at other
          exact Except.error.inj (stops.symm.trans (other.checked known rest))
        | cons head middle =>
          cases split
          rw [List.append_cons] at good
          exact absurd good.front fault.not_acceptable
    · have wider (name : String) : name ∈ first.name :: seen ↔
          name ∈ (before ++ [first]).map fun other => other.name := by
        simp [known,or_comm]
      rw [goesOn,ih wider accepted]
      constructor
      · rintro ⟨middle,field,after,rfl,good,fault⟩
        rw [← List.append_cons] at good fault
        exact ⟨first :: middle,field,after,rfl,good,fault⟩
      · rintro ⟨middle,field,after,split,good,fault⟩
        cases middle with
        | nil =>
          cases split
          rw [List.append_nil] at fault
          exact absurd accepted fault.not_acceptable
        | cons head middle =>
          cases split
          rw [List.append_cons] at good fault
          exact ⟨middle,field,after,rfl,good,fault⟩

theorem totalSize_declared (specs : List FieldSpec) :
    totalSize (wireOrder (placed specs)) =
      (specs.map fun field => field.type.size * max field.length 1).sum := by
  have sizes : specs.map (fun field => field.type.size * max field.length 1) =
      (placed specs).map fun field => field.size := by
    conv_lhs => rw [← placed_specs specs,List.map_map]
    rfl
  rw [totalSize_sum,sizes]
  exact ((wireOrder_perm _).map _).sum_nat

variable {name : String} {id : Nat}

theorem build_eq (name : String) (id : Nat) (specs : List FieldSpec) :
    build name id specs =
      if name = "" then .error (.invalidDefinition (.emptyMessageName id))
      else if 0xFFFFFF < id then .error (.invalidDefinition (.idTooLarge name id))
      else checkFields name 0 [] specs >>= fun _ =>
        if 255 < totalSize (wireOrder (placed specs)) then
          .error (.invalidDefinition (.payloadTooLong name (totalSize (wireOrder (placed specs)))))
        else .ok ⟨name,id,wireOrder (placed specs)⟩ := by
  unfold build
  by_cases unnamed : name = ""
  · rw [if_pos unnamed,if_pos unnamed]
    rfl
  by_cases tooLarge : 0xFFFFFF < id
  · rw [if_neg unnamed,if_neg unnamed,if_pos tooLarge]
    exact if_pos tooLarge
  · rw [if_neg unnamed,if_neg unnamed,if_neg tooLarge]
    exact if_neg tooLarge

theorem build_error_iff : build name id specs = .error error ↔ FirstFault name id specs error := by
  have acceptable : FieldsAcceptable [] := ⟨by simp,by simp,by simp,by simp⟩
  have fields : checkFields name 0 [] specs = .error error ↔ ∃ before field after,
      specs = before ++ field :: after ∧ FieldsAcceptable before ∧
        FieldFault name before field error :=
    checkFields_error_iff (by simp) acceptable
  rw [build_eq]
  constructor
  · intro refused
    by_cases unnamed : name = ""
    · rw [if_pos unnamed] at refused
      cases refused
      exact .unnamed unnamed
    by_cases tooLarge : 0xFFFFFF < id
    · rw [if_neg unnamed,if_pos tooLarge] at refused
      cases refused
      exact .idTooLarge unnamed tooLarge
    rw [if_neg unnamed,if_neg tooLarge] at refused
    have small := Nat.not_lt.mp tooLarge
    rcases except_bind_error_iff.mp refused with stopped | ⟨_,checked,refused⟩
    · obtain ⟨before,field,after,split,acceptable,fault⟩ := fields.mp stopped
      exact .field unnamed small split acceptable fault
    · have acceptable := ((checkFields_ok_iff name 0 [] specs).mp checked).1
      split_ifs at refused with tooLong
      cases refused
      rw [totalSize_declared] at tooLong ⊢
      exact .tooLarge unnamed small acceptable tooLong
  · intro fault
    cases fault with
    | unnamed unnamed => rw [if_pos unnamed]
    | idTooLarge named tooLarge => rw [if_neg named,if_pos tooLarge]
    | field named small split acceptable fault =>
      rw [if_neg named,if_neg (Nat.not_lt.mpr small)]
      exact except_bind_error_iff.mpr (Or.inl (fields.mpr ⟨_,_,_,split,acceptable,fault⟩))
    | tooLarge named small acceptable tooLong =>
      rw [← totalSize_declared] at tooLong ⊢
      rw [if_neg named,if_neg (Nat.not_lt.mpr small)]
      refine except_bind_error_iff.mpr (Or.inr ⟨(),?_,if_pos tooLong⟩)
      exact (checkFields_ok_iff name 0 [] specs).mpr ⟨acceptable,by simp⟩

theorem canBackEnum_iff {type : FieldType} :
    type.canBackEnum = true ↔ type ∈ ([.numeric .uint8,.numeric .uint16,.numeric .uint32,
      .numeric .int32,.numeric .uint64] : List FieldType) := by
  cases type with
  | numeric type => cases type <;> decide
  | char => decide

/-- A declaration has a layout exactly if it passes every check, and it is refused for the
first check that it does not pass. -/
theorem build_ok_or_firstFault (name : String) (id : Nat) (specs : List FieldSpec) :
    ((∃ layout, build name id specs = .ok layout) ↔ name ≠ "" ∧ id ≤ 0xFFFFFF ∧
      (∀ field ∈ specs, field.name ≠ "") ∧ (specs.map fun field => field.name).Nodup ∧
      (∀ field ∈ specs, field.isEnum = true → field.type ∈ ([.numeric .uint8,.numeric .uint16,
        .numeric .uint32,.numeric .int32,.numeric .uint64] : List FieldType)) ∧
      (∀ field ∈ specs, field.length ≤ 255) ∧
      (specs.map fun field => field.type.size * max field.length 1).sum ≤ 255) ∧
    ∀ error, build name id specs = .error error ↔ FirstFault name id specs error := by
  refine ⟨?_,fun _ => build_error_iff⟩
  simp only [← canBackEnum_iff,← totalSize_declared]
  constructor
  · rintro ⟨layout,built⟩
    obtain ⟨rfl,rfl,fields,named,small,⟨fieldsNamed,distinct,backed,bounded⟩,size⟩ :=
      build_ok_iff.mp built
    rw [fields] at size
    exact ⟨named,small,fieldsNamed,distinct,backed,bounded,size⟩
  · rintro ⟨named,small,fieldsNamed,distinct,backed,bounded,size⟩
    exact ⟨⟨name,id,_⟩,build_ok_iff.mpr
      ⟨rfl,rfl,rfl,named,small,⟨fieldsNamed,distinct,backed,bounded⟩,size⟩⟩

-- Three faults: the second field has a name that comes again and is too long, and the first
-- one is larger than a payload.
example : build "LOG" 7 [⟨"x",.numeric .double,false,200,false⟩,⟨"x",.char,false,300,false⟩] =
    .error (.invalidDefinition (.duplicateField "LOG" "x")) :=
  rfl

end MavPayload.Layout
