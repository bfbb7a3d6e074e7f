import MavPayload.Proofs.Layout.Build
import MavPayload.Proofs.Layout.Index
import MavPayload.Registry

/-! Registries over time. What a call does to a registry is said once, by its outcomes. Its
two maps then stay consistent, and a run holds no layouts but those of the types that it was
asked for. -/
namespace MavPayload

theorem RecordType.layout_names {type : RecordType} {layout : Layout}
    (accepted : type.layout = .ok layout) : layout.name = type.name ∧ layout.id = type.id := by
  obtain ⟨name,id,_⟩ := Layout.build_ok_iff.mp accepted
  exact ⟨name,id⟩

namespace Registry

inductive Call where
  | register (type : RecordType)
  | layoutOf (type : RecordType)
  | encode {type : RecordType} (record : Record type) (version : Version)
  | decode (type : RecordType) (payload : List UInt8) (version : Version)

def Call.type : Call → RecordType
  | .register type => type
  | .layoutOf type => type
  | @Call.encode type _ _ => type
  | .decode type _ _ => type

def perform (registry : Registry) : Call → Registry
  | .register type => (registry.register type).2
  | .layoutOf type => (registry.layoutOf type).2
  | .encode record version => (registry.encode record version).2
  | .decode type payload version => (registry.decode type payload version).2

def after (calls : List Call) : Registry :=
  calls.foldl perform {}

/-- The outcomes of registering a type. -/
inductive Registers (registry : Registry) (type : RecordType) :
    Except Error Layout × Registry → Prop
  | held (layout : Layout) (found : registry.layouts.byId? type.id = some layout)
      (same : layout.name = type.name) : Registers registry type (.ok layout,registry)
  | idHeld (holder : Layout) (found : registry.layouts.byId? type.id = some holder)
      (other : holder.name ≠ type.name) : Registers registry type
        (.error (.invalidDefinition (.idHeld type.id holder.name type.name)),registry)
  | nameHeld (holder : Nat) (free : registry.layouts.byId? type.id = none)
      (found : registry.layouts.idOf? type.name = some holder) : Registers registry type
        (.error (.invalidDefinition (.nameHeld type.name holder type.id)),registry)
  | built (layout : Layout) (idFree : registry.layouts.byId? type.id = none)
      (nameFree : registry.layouts.idOf? type.name = none)
      (accepted : type.layout = .ok layout) : Registers registry type (.ok layout,
        { registry with
          layouts := registry.layouts.add layout
          missCount := registry.missCount + 1 })
  | refused (error : Error) (idFree : registry.layouts.byId? type.id = none)
      (nameFree : registry.layouts.idOf? type.name = none)
      (refusal : type.layout = .error error) : Registers registry type
        (.error error,{ registry with missCount := registry.missCount + 1 })

variable {registry : Registry} {type : RecordType} {layout : Layout}

theorem register_registers (registry : Registry) (type : RecordType) :
    Registers registry type (registry.register type) := by
  unfold register
  split
  · rename_i layout found
    split
    · rename_i same
      exact .held layout found same
    · rename_i other
      exact .idHeld layout found other
  · rename_i idFree
    split
    · rename_i holder found
      exact .nameHeld holder idFree found
    · rename_i nameFree
      cases accepted : type.layout with
      | error error => exact .refused error idFree nameFree accepted
      | ok layout =>
        have built := Registers.built layout idFree nameFree accepted
        obtain ⟨name,id⟩ := RecordType.layout_names accepted
        rwa [LayoutIndex.add,name,id] at built

theorem held?_eq_some_iff :
    registry.held? type = some layout ↔
      registry.layouts.byId? type.id = some layout ∧ layout.name = type.name := by
  simp [held?,Option.filter_eq_some_iff]

theorem layoutOf_of_held (held : registry.held? type = some layout) :
    registry.layoutOf type = (.ok layout,{ registry with hitCount := registry.hitCount + 1 }) ∧
      registry.register type = (.ok layout,registry) := by
  obtain ⟨found,same⟩ := held?_eq_some_iff.mp held
  constructor
  · simp only [layoutOf,held]
  · simp only [register,found,same,if_true]

theorem layoutOf_of_not_held (missing : registry.held? type = none) :
    registry.layoutOf type = registry.register type := by
  simp only [layoutOf,missing]

/-- A type that is held is registered without a change, so looking it up first only counts. -/
theorem layoutOf_register (registry : Registry) (type : RecordType) :
    (registry.layoutOf type).1 = (registry.register type).1 ∧
      ∃ hitCount, (registry.layoutOf type).2 = { (registry.register type).2 with hitCount } := by
  cases held : registry.held? type with
  | some layout =>
    obtain ⟨found,registered⟩ := layoutOf_of_held held
    rw [found,registered]
    exact ⟨rfl,_,rfl⟩
  | none =>
    rw [layoutOf_of_not_held held]
    exact ⟨rfl,_,rfl⟩

theorem encode_layoutOf (registry : Registry) (record : Record type) (version : Version) :
    registry.encode record version =
      ((registry.layoutOf type).1.bind fun layout => record.encode layout version,
        (registry.layoutOf type).2) := by
  unfold encode
  cases registry.layoutOf type with
  | mk result next => cases result <;> rfl

theorem decode_layoutOf (registry : Registry) (type : RecordType) (payload : List UInt8)
    (version : Version) :
    registry.decode type payload version =
      ((registry.layoutOf type).1.bind fun layout => Record.decode layout payload version,
        (registry.layoutOf type).2) := by
  unfold decode
  cases registry.layoutOf type with
  | mk result next => cases result <;> rfl

/-- Every call finds or adds the layout of its type as registering would. -/
theorem perform_register (registry : Registry) (call : Call) :
    ∃ hitCount, registry.perform call = { (registry.register call.type).2 with hitCount } := by
  cases call with
  | register type => exact ⟨_,rfl⟩
  | layoutOf type => exact (layoutOf_register registry type).2
  | encode record version =>
    rw [perform,encode_layoutOf]
    exact (layoutOf_register registry _).2
  | decode type payload version =>
    rw [perform,decode_layoutOf]
    exact (layoutOf_register registry type).2

theorem perform_layouts (registry : Registry) (call : Call) :
    (registry.perform call).layouts = (registry.register call.type).2.layouts := by
  obtain ⟨hits,same⟩ := perform_register registry call
  rw [same]

theorem perform_missCount (registry : Registry) (call : Call) :
    (registry.perform call).missCount = (registry.register call.type).2.missCount := by
  obtain ⟨hits,same⟩ := perform_register registry call
  rw [same]

theorem perform_consistent (consistent : registry.layouts.Consistent) (call : Call) :
    (registry.perform call).layouts.Consistent := by
  rw [perform_layouts]
  have outcome := register_registers registry call.type
  generalize registry.register call.type = result at outcome ⊢
  cases outcome with
  | built layout idFree nameFree accepted =>
    obtain ⟨name,id⟩ := RecordType.layout_names accepted
    rw [← id] at idFree
    rw [← name] at nameFree
    exact consistent.add idFree nameFree
  | held | idHeld | nameHeld | refused => exact consistent

theorem foldl_perform_consistent (consistent : registry.layouts.Consistent) (calls : List Call) :
    (calls.foldl perform registry).layouts.Consistent := by
  induction calls generalizing registry with
  | nil => exact consistent
  | cons call rest ih => exact ih (perform_consistent consistent call)

theorem after_consistent (calls : List Call) : (after calls).layouts.Consistent :=
  foldl_perform_consistent .empty calls

/-- A call keeps what is held, and holds no more than the layout of its own type besides. -/
theorem mem_perform (registry : Registry) (call : Call) (layout : Layout) :
    (layout ∈ registry.layouts → layout ∈ (registry.perform call).layouts) ∧
      (layout ∈ (registry.perform call).layouts →
        layout ∈ registry.layouts ∨ call.type.layout = .ok layout) := by
  rw [perform_layouts]
  have outcome := register_registers registry call.type
  generalize registry.register call.type = result at outcome ⊢
  cases outcome with
  | built added idFree _ accepted =>
    rw [← (RecordType.layout_names accepted).2] at idFree
    rw [LayoutIndex.mem_add idFree]
    refine ⟨Or.inr,?_⟩
    rintro (rfl | old)
    · exact Or.inr accepted
    · exact Or.inl old
  | held | idHeld | nameHeld | refused => exact ⟨id,Or.inl⟩

theorem mem_foldl_perform (registry : Registry) (calls : List Call) (layout : Layout) :
    (layout ∈ registry.layouts → layout ∈ (calls.foldl perform registry).layouts) ∧
      (layout ∈ (calls.foldl perform registry).layouts →
        layout ∈ registry.layouts ∨ ∃ call ∈ calls, call.type.layout = .ok layout) := by
  induction calls generalizing registry with
  | nil => exact ⟨id,Or.inl⟩
  | cons call rest ih =>
    obtain ⟨kept,asked⟩ := mem_perform registry call layout
    obtain ⟨keptLater,askedLater⟩ := ih (registry.perform call)
    refine ⟨fun member => keptLater (kept member),fun member => ?_⟩
    rcases askedLater member with before | ⟨later,inRest,accepted⟩
    · rcases asked before with old | accepted
      · exact Or.inl old
      · exact Or.inr ⟨call,List.mem_cons_self,accepted⟩
    · exact Or.inr ⟨later,List.mem_cons_of_mem _ inRest,accepted⟩

theorem mem_after {calls : List Call} (member : layout ∈ (after calls).layouts) :
    ∃ call ∈ calls, call.type.layout = .ok layout := by
  rcases (mem_foldl_perform {} calls layout).2 member with none | asked
  · cases none
  · exact asked

theorem after_append (calls later : List Call) :
    after (calls ++ later) = later.foldl perform (after calls) := by
  rw [after,List.foldl_append]
  rfl

theorem mem_after_append {calls : List Call} (member : layout ∈ (after calls).layouts)
    (later : List Call) : layout ∈ (after (calls ++ later)).layouts := by
  rw [after_append]
  exact (mem_foldl_perform _ later layout).1 member

end Registry

end MavPayload
