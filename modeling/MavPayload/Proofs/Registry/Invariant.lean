import MavPayload.Proofs.Frame
import MavPayload.Proofs.Layout.Refusal
import MavPayload.Proofs.Registry.Run

/-! What holds of a registry at any time. Its maps are inverse to each other, its layouts stay
for good, a collision leaves it as it was, and its misses are its layouts together with the
builds that have failed, as far as a word of 64 bits counts them. -/
namespace MavPayload

namespace Error

/-- Whether a layout is asked for under an id or a name that another one has. -/
def isCollision : Error → Bool
  | .invalidDefinition (.idHeld ..) | .invalidDefinition (.nameHeld ..) => true
  | _ => false

/-- Whether a definition is refused, for its own sake or for a collision. -/
def isDefinitional : Error → Bool
  | .invalidDefinition _ | .unknownType .. | .unsupportedEnum .. => true
  | _ => false

def isRefusal (error : Error) : Bool :=
  error.isDefinitional && !error.isCollision

theorem isDefinitional_of_isCollision {error : Error} (collision : error.isCollision = true) :
    error.isDefinitional = true := by
  unfold isCollision at collision
  split at collision
  · rfl
  · rfl
  · cases collision

end Error

namespace Layout

theorem build_error {name : String} {id : Nat} {specs : List FieldSpec} {error : Error}
    (refused : build name id specs = .error error) : error.isRefusal = true := by
  cases build_error_iff.mp refused with
  | unnamed | idTooLarge | tooLarge => rfl
  | field _ _ _ _ fault => cases fault <;> rfl

variable {layout : Layout} {version : Version} {error : Error}

theorem encodeWith_error {write : Field → Writer → Option Writer}
    (failed : layout.encodeWith version write = .error error) : error.isDefinitional = false := by
  unfold encodeWith at failed
  split at failed
  · cases failed
  · cases failed
    rfl

theorem decodeWith_error {α : Type} {read : Field → Reader → α → Option (α × Reader)} {start : α}
    {payload : List UInt8}
    (failed : layout.decodeWith version read start payload = .error error) :
    error.isDefinitional = false := by
  rcases except_bind_error_iff.mp failed with refused | ⟨full,_,failed⟩
  · obtain ⟨_,_,rfl⟩ := receive_error refused
    rfl
  · split at failed
    · cases failed
    · cases failed
      rfl

end Layout

namespace Registry

def Call.use : Call → Layout → Except Error Unit
  | .register _,_ | .layoutOf _,_ => .ok ()
  | .encode record version,layout => (record.encode layout version).map fun _ => ()
  | .decode type payload version,layout =>
    (Record.decode layout payload version : Except Error (Record type)).map fun _ => ()

def outcome (registry : Registry) : Call → Except Error Unit
  | .register type => (registry.register type).1.map fun _ => ()
  | .layoutOf type => (registry.layoutOf type).1.map fun _ => ()
  | .encode record version => (registry.encode record version).1.map fun _ => ()
  | .decode type payload version => (registry.decode type payload version).1.map fun _ => ()

/-- Whether a call ends because its type has no layout. -/
def failsToBuild (registry : Registry) (call : Call) : Bool :=
  match registry.outcome call with
  | .error error => error.isRefusal
  | .ok _ => false

def failedBuilds (registry : Registry) : List Call → Nat
  | [] => 0
  | call :: rest => (registry.failsToBuild call).toNat + failedBuilds (registry.perform call) rest

/-- Whether the id of a type is held under another name, or its name under another id. -/
def Collides (registry : Registry) (type : RecordType) : Prop :=
  (∃ holder, registry.layouts.byId? type.id = some holder ∧ holder.name ≠ type.name) ∨
    ∃ id, registry.layouts.idOf? type.name = some id ∧ id ≠ type.id

variable {registry : Registry} {type : RecordType} {layout : Layout} {call : Call} {error : Error}

theorem Call.use_error (failed : call.use layout = .error error) :
    error.isDefinitional = false := by
  cases call with
  | register | layoutOf => cases failed
  | encode => exact Layout.encodeWith_error (except_map_error_iff.mp failed)
  | decode => exact Layout.decodeWith_error (except_map_error_iff.mp failed)

theorem outcome_eq (registry : Registry) (call : Call) :
    registry.outcome call = (registry.register call.type).1 >>= call.use := by
  cases call with
  | register type =>
    simp only [outcome,Call.type]
    cases (registry.register type).1 <;> rfl
  | layoutOf type =>
    simp only [outcome,Call.type,(layoutOf_register registry type).1]
    cases (registry.register type).1 <;> rfl
  | @encode type =>
    simp only [outcome,Call.type,encode_layoutOf,(layoutOf_register registry type).1]
    cases (registry.register type).1 <;> rfl
  | decode type =>
    simp only [outcome,Call.type,decode_layoutOf,(layoutOf_register registry type).1]
    cases (registry.register type).1 <;> rfl

theorem outcome_error_iff : registry.outcome call = .error error ↔
    (registry.register call.type).1 = .error error ∨
      ∃ layout, (registry.register call.type).1 = .ok layout ∧ call.use layout = .error error := by
  rw [outcome_eq,except_bind_error_iff]

theorem failsToBuild_register (registry : Registry) (call : Call) :
    registry.failsToBuild call = match (registry.register call.type).1 with
      | .error error => error.isRefusal
      | .ok _ => false := by
  cases registered : (registry.register call.type).1 with
  | error error => rw [failsToBuild,outcome_error_iff.mpr (Or.inl registered)]
  | ok layout =>
    cases ends : registry.outcome call with
    | ok => rw [failsToBuild,ends]
    | error error =>
      -- What a call does with a layout is no reason for a failure to build one.
      rw [failsToBuild,ends]
      rcases outcome_error_iff.mp ends with refused | ⟨used,_,failed⟩
      · rw [registered] at refused
        cases refused
      · simp only [Error.isRefusal,Call.use_error failed,Bool.false_and]

theorem failsToBuild_iff : registry.failsToBuild call = true ↔
    registry.layouts.byId? call.type.id = none ∧ registry.layouts.idOf? call.type.name = none ∧
      ∃ error, call.type.layout = .error error := by
  rw [failsToBuild_register]
  have outcome := register_registers registry call.type
  generalize registry.register call.type = result at outcome ⊢
  cases outcome with
  | held layout found => simp [found]
  | idHeld holder found => simp [found,Error.isRefusal,Error.isCollision]
  | nameHeld holder free found => simp [found,Error.isRefusal,Error.isCollision]
  | built layout idFree nameFree accepted => simp [accepted]
  | refused error idFree nameFree refusal =>
    have own : error.isRefusal = true := Layout.build_error refusal
    simp [idFree,nameFree,refusal,own]

/-- A miss adds a layout or is a build that fails. -/
theorem perform_balance {failed : Nat} (call : Call)
    (balance : registry.missCount = UInt64.ofNat (registry.layouts.length + failed)) :
    (registry.perform call).missCount = UInt64.ofNat
      ((registry.perform call).layouts.length + (failed + (registry.failsToBuild call).toNat)) := by
  rw [perform_layouts,perform_missCount,failsToBuild_register]
  have outcome := register_registers registry call.type
  generalize registry.register call.type = result at outcome ⊢
  cases outcome with
  | held | idHeld | nameHeld => exact balance
  | built layout idFree _ accepted =>
    rw [← (RecordType.layout_names accepted).2] at idFree
    calc registry.missCount + 1
      _ = UInt64.ofNat (registry.layouts.length + failed) + 1 := by rw [balance]
      _ = UInt64.ofNat (registry.layouts.length + failed + 1) := (UInt64.ofNat_add _ 1).symm
      _ = UInt64.ofNat ((registry.layouts.add layout).length + failed) := by
        rw [LayoutIndex.length_add idFree,Nat.add_right_comm]
  | refused error _ _ refusal =>
    simp only [Layout.build_error refusal,Bool.toNat_true]
    rw [balance,← Nat.add_assoc]
    exact (UInt64.ofNat_add _ 1).symm

theorem foldl_perform_balance (calls : List Call) (failed : Nat)
    (balance : registry.missCount = UInt64.ofNat (registry.layouts.length + failed)) :
    (calls.foldl perform registry).missCount = UInt64.ofNat
      ((calls.foldl perform registry).layouts.length + (failed + registry.failedBuilds calls)) := by
  induction calls generalizing registry failed with
  | nil => exact balance
  | cons call rest ih =>
    rw [List.foldl_cons,failedBuilds,← Nat.add_assoc failed]
    exact ih _ (perform_balance call balance)

theorem Collides.refused (consistent : registry.layouts.Consistent)
    (collides : registry.Collides type) : ∃ error, error.isCollision = true ∧
      registry.register type = (.error error,registry) ∧
        registry.layoutOf type = (.error error,registry) := by
  have missing : registry.held? type = none := by
    rw [Option.eq_none_iff_forall_ne_some]
    intro layout held
    -- It has both the id and the name of the type, and no other layout has either.
    obtain ⟨found,same⟩ := held?_eq_some_iff.mp held
    rcases collides with ⟨holder,holds,other⟩ | ⟨holder,holds,other⟩
    · rw [found] at holds
      cases holds
      exact other same
    · rw [← same,(consistent.held _ _ found).2] at holds
      cases holds
      exact other rfl
  rw [layoutOf_of_not_held missing]
  have outcome := register_registers registry type
  generalize registry.register type = result at outcome ⊢
  cases outcome with
  | idHeld => exact ⟨_,rfl,rfl,rfl⟩
  | nameHeld => exact ⟨_,rfl,rfl,rfl⟩
  | held layout found same =>
    rw [held?_eq_some_iff.mpr ⟨found,same⟩] at missing
    cases missing
  | built _ idFree nameFree | refused _ idFree nameFree =>
    rcases collides with ⟨holder,holds,_⟩ | ⟨holder,holds,_⟩
    · rw [idFree] at holds
      cases holds
    · rw [nameFree] at holds
      cases holds

/-- Whether the two maps of a registry are inverse to each other, so that every layout that it
holds is found by its id and by its name, and whether it lists them by ascending id. -/
structure Coherent (registry : Registry) : Prop where
  byId : ∀ id layout, registry.layouts.byId? id = some layout →
    layout.id = id ∧ registry.layouts.idOf? layout.name = some id ∧
      registry.layouts.byName? layout.name = some layout
  byName : ∀ name layout, registry.layouts.byName? name = some layout →
    layout.name = name ∧ registry.layouts.byId? layout.id = some layout
  named : ∀ name id, registry.layouts.idOf? name = some id →
    ∃ layout, registry.layouts.byId? id = some layout ∧ layout.name = name
  listed : ∀ layout, layout ∈ registry.layouts ↔ registry.layouts.byId? layout.id = some layout
  ascending : registry.layouts.toList.Pairwise fun first second => first.id < second.id

theorem coherent (consistent : registry.layouts.Consistent) : registry.Coherent where
  byId id layout found := by
    obtain ⟨rfl,known⟩ := consistent.held id layout found
    exact ⟨rfl,known,consistent.byId?_iff_byName?.mp found⟩
  byName name layout found := by
    obtain ⟨_,rfl⟩ := consistent.byName?_eq_some_iff.mp found
    exact ⟨rfl,consistent.byId?_iff_byName?.mpr found⟩
  named := consistent.named
  listed _ := consistent.mem_iff
  ascending := consistent.ascending

/-- Whether a registry lets a call change no more than it may. -/
structure Guards (registry : Registry) (call : Call) : Prop where
  collision : registry.Collides call.type ↔ ∃ error, error.isCollision = true ∧
    registry.outcome call = .error error ∧ registry.perform call = registry
  refused : ∀ error, registry.outcome call = .error error → error.isDefinitional = true →
    (registry.perform call).layouts = registry.layouts
  failed : ∀ error, registry.outcome call = .error error →
    (registry.perform call).layouts = registry.layouts ∨
      ∃ own, call.type.layout = .ok own ∧
        (registry.perform call).layouts = registry.layouts.add own
  builds : registry.failsToBuild call = true ↔ registry.layouts.byId? call.type.id = none ∧
    registry.layouts.idOf? call.type.name = none ∧ ∃ error, call.type.layout = .error error

theorem outcome_collides (consistent : registry.layouts.Consistent)
    (collides : registry.Collides call.type) : ∃ error, error.isCollision = true ∧
      registry.outcome call = .error error ∧ registry.perform call = registry := by
  obtain ⟨error,isCollision,registered,found⟩ := collides.refused consistent
  refine ⟨error,isCollision,outcome_error_iff.mpr (Or.inl (by rw [registered])),?_⟩
  cases call with
  | register => exact congrArg Prod.snd registered
  | layoutOf => exact congrArg Prod.snd found
  | encode =>
    rw [perform,encode_layoutOf]
    exact congrArg Prod.snd found
  | decode =>
    rw [perform,decode_layoutOf]
    exact congrArg Prod.snd found

theorem collides_of_outcome (consistent : registry.layouts.Consistent)
    (isCollision : error.isCollision = true)
    (failed : registry.outcome call = .error error) : registry.Collides call.type := by
  rcases outcome_error_iff.mp failed with refused | ⟨layout,_,used⟩
  · have outcome := register_registers registry call.type
    generalize registry.register call.type = result at refused outcome
    cases outcome with
    | idHeld holder found other => exact Or.inl ⟨holder,found,other⟩
    | nameHeld holder free found =>
      refine Or.inr ⟨holder,found,fun same => ?_⟩
      -- The name would lead to an id under which nothing is held.
      obtain ⟨layout,holds,_⟩ := consistent.named _ _ found
      rw [same,free] at holds
      cases holds
    | refused other _ _ refusal =>
      cases refused
      have own := Layout.build_error refusal
      simp [Error.isRefusal,isCollision] at own
    | held | built => cases refused
  · have other := Call.use_error used
    simp [Error.isDefinitional_of_isCollision isCollision] at other

theorem guards (consistent : registry.layouts.Consistent) (call : Call) :
    registry.Guards call where
  collision := ⟨outcome_collides consistent,fun ⟨_,isCollision,failed,_⟩ =>
    collides_of_outcome consistent isCollision failed⟩
  refused error failed definitional := by
    rw [perform_layouts]
    rcases outcome_error_iff.mp failed with refused | ⟨layout,_,used⟩
    · have outcome := register_registers registry call.type
      generalize registry.register call.type = result at refused outcome ⊢
      cases outcome with
      | idHeld | nameHeld | refused => rfl
      | held | built => cases refused
    · rw [Call.use_error used] at definitional
      cases definitional
  failed error failed := by
    rw [perform_layouts]
    have outcome := register_registers registry call.type
    generalize registry.register call.type = result at outcome ⊢
    cases outcome with
    | built layout _ _ accepted => exact Or.inr ⟨layout,accepted,rfl⟩
    | held | idHeld | nameHeld | refused => exact Or.inl rfl
  builds := failsToBuild_iff

/-- Whether asking for the layout of a type counts one hit, counts one miss or is refused for
a collision. -/
def Counts (registry : Registry) (type : RecordType) : Prop :=
  (∃ layout, registry.layoutOf type =
    (.ok layout,{ registry with hitCount := registry.hitCount + 1 })) ∨
  ((registry.layoutOf type).1 = type.layout ∧
    (registry.layoutOf type).2.hitCount = registry.hitCount ∧
    (registry.layoutOf type).2.missCount = registry.missCount + 1) ∨
  ∃ error, error.isCollision = true ∧ registry.layoutOf type = (.error error,registry)

theorem counts (registry : Registry) (type : RecordType) : registry.Counts type := by
  unfold Counts
  cases held : registry.held? type with
  | some layout => exact Or.inl ⟨layout,(layoutOf_of_held held).1⟩
  | none =>
    rw [layoutOf_of_not_held held]
    apply Or.inr
    have outcome := register_registers registry type
    generalize registry.register type = result at outcome ⊢
    cases outcome with
    | held layout found same =>
      rw [held?_eq_some_iff.mpr ⟨found,same⟩] at held
      cases held
    | idHeld => exact Or.inr ⟨_,rfl,rfl⟩
    | nameHeld => exact Or.inr ⟨_,rfl,rfl⟩
    | built _ _ _ accepted => exact Or.inl ⟨accepted.symm,rfl,rfl⟩
    | refused _ _ _ refusal => exact Or.inl ⟨refusal.symm,rfl,rfl⟩

/-- After any calls a registry is coherent, and has missed once for each of its layouts and
for each build that failed, counted modulo the size of a word. Its layouts outlast all later
calls, and these are guarded and counted. -/
theorem after_coherent (calls : List Call) :
    (after calls).Coherent ∧
    (after calls).misses =
      ((after calls).layouts.length + failedBuilds {} calls) % Nat.pow 2 64 ∧
    (∀ later, ∀ layout ∈ (after calls).layouts,
      (after (calls ++ later)).layouts.byId? layout.id = some layout ∧
        (after (calls ++ later)).layouts.idOf? layout.name = some layout.id ∧
        (after (calls ++ later)).layouts.byName? layout.name = some layout) ∧
    (∀ call, (after calls).Guards call) ∧
    ∀ type, (after calls).Counts type := by
  have consistent := after_consistent calls
  refine ⟨coherent consistent,?_,?_,guards consistent,counts _⟩
  · have balance : (after calls).missCount = _ := foldl_perform_balance calls 0 rfl
    rw [Nat.zero_add] at balance
    rw [misses,balance]
    exact UInt64.toNat_ofNat'
  · intro later layout member
    have consistentLater := after_consistent (calls ++ later)
    have found := consistentLater.mem_iff.mp (mem_after_append member later)
    exact ⟨found,(consistentLater.held _ _ found).2,consistentLater.byId?_iff_byName?.mp found⟩

end Registry

end MavPayload
