import MavPayload.CommonDialect
import MavPayload.Proofs.Registry.Run

/-! What a registry serves. The layout that it serves a type was built for some type with
the same id and the same name, and nothing makes that one the type itself: two types that
share both but declare other fields are one type to a registry. -/
namespace MavPayload

theorem RecordType.layout_congr {first second : RecordType} (id : first.id = second.id)
    (name : first.name = second.name) (specs : first.specs = second.specs) :
    first.layout = second.layout := by
  rw [RecordType.layout,RecordType.layout,id,name,specs]

namespace Registry

/-- Whether a registry serves a type its own layout, and encodes and decodes its records as
a new registry does, unless it refuses to know the type. -/
structure ServesOwn (registry : Registry) (type : RecordType) : Prop where
  registered : ∀ layout, (registry.register type).1 = .ok layout → type.layout = .ok layout
  found : ∀ layout, (registry.layoutOf type).1 = .ok layout → type.layout = .ok layout
  encoded : ∀ (record : Record type) (version : Version),
    (∀ fault, (registry.encode record version).1 ≠ .error (.invalidDefinition fault)) →
      (registry.encode record version).1 = (encode {} record version).1
  decoded : ∀ (payload : List UInt8) (version : Version),
    (∀ fault, (registry.decode type payload version).1 ≠ .error (.invalidDefinition fault)) →
      (registry.decode type payload version).1 = (decode {} type payload version).1

variable {registry : Registry} {type : RecordType} {layout : Layout}

theorem register_new (type : RecordType) : (register {} type).1 = type.layout := by
  have outcome := register_registers {} type
  generalize register {} type = result at outcome ⊢
  cases outcome with
  | held _ found => cases found
  | idHeld _ found => cases found
  | nameHeld _ _ found => cases found
  | built _ _ _ accepted => exact accepted.symm
  | refused _ _ _ refusal => exact refusal.symm

theorem of_register (consistent : registry.layouts.Consistent)
    (served : (registry.register type).1 = .ok layout) :
    (layout ∈ registry.layouts ∧ layout.id = type.id ∧ layout.name = type.name) ∨
      type.layout = .ok layout := by
  have outcome := register_registers registry type
  generalize registry.register type = result at served outcome
  cases outcome with
  | held own found same =>
    cases served
    obtain ⟨member,id⟩ := consistent.byId?_eq_some_iff.mp found
    exact Or.inl ⟨member,id,same⟩
  | built own _ _ accepted =>
    cases served
    exact Or.inr accepted
  | idHeld | nameHeld | refused => cases served

theorem of_register_error {error : Error} (refused : (registry.register type).1 = .error error) :
    (∃ fault, error = .invalidDefinition fault) ∨ type.layout = .error error := by
  have outcome := register_registers registry type
  generalize registry.register type = result at refused outcome
  cases outcome with
  | idHeld => exact Or.inl ⟨_,(Except.error.inj refused).symm⟩
  | nameHeld => exact Or.inl ⟨_,(Except.error.inj refused).symm⟩
  | refused _ _ _ refusal => exact Or.inr (refusal.trans refused)
  | held | built => cases refused

/-- What a run serves was built for a type that the run was asked for, or is asked for now,
and that has the same id and name. -/
theorem served_after {calls : List Call} (served : ((after calls).register type).1 = .ok layout) :
    type.layout = .ok layout ∨ ∃ call ∈ calls, call.type.layout = .ok layout ∧
      call.type.id = type.id ∧ call.type.name = type.name := by
  rcases of_register (after_consistent calls) served with ⟨member,id,name⟩ | own
  · obtain ⟨call,asked,accepted⟩ := mem_after member
    obtain ⟨sameName,sameId⟩ := RecordType.layout_names accepted
    exact Or.inr ⟨call,asked,accepted,sameId.symm.trans id,sameName.symm.trans name⟩
  · exact Or.inl own

/-- A codec that first asks for the layout works as on a new registry, if what is served is
the type's own. -/
private theorem bind_register {α : Type} (codec : Layout → Except Error α)
    (own : ∀ layout, (registry.register type).1 = .ok layout → type.layout = .ok layout)
    (known : ∀ fault, (registry.register type).1.bind codec ≠ .error (.invalidDefinition fault)) :
    (registry.register type).1.bind codec = (register {} type).1.bind codec := by
  rw [register_new]
  cases served : (registry.register type).1 with
  | ok layout => rw [own layout served]
  | error error =>
    rcases of_register_error served with ⟨fault,rfl⟩ | refusal
    · rw [served] at known
      exact absurd rfl (known fault)
    · rw [refusal]

theorem servesOwn_of_register
    (own : ∀ layout, (registry.register type).1 = .ok layout → type.layout = .ok layout) :
    registry.ServesOwn type where
  registered := own
  found layout served := own layout ((layoutOf_register registry type).1.symm.trans served)
  encoded record version known := by
    rw [encode_layoutOf,(layoutOf_register registry type).1] at known
    rw [encode_layoutOf,encode_layoutOf,(layoutOf_register registry type).1,
      (layoutOf_register {} type).1]
    exact bind_register _ own known
  decoded payload version known := by
    rw [decode_layoutOf,(layoutOf_register registry type).1] at known
    rw [decode_layoutOf,decode_layoutOf,(layoutOf_register registry type).1,
      (layoutOf_register {} type).1]
    exact bind_register _ own known

theorem held_of_register (served : (registry.register type).1 = .ok layout) :
    (registry.register type).2.layouts.byId? type.id = some layout ∧ layout.name = type.name := by
  have outcome := register_registers registry type
  generalize registry.register type = result at served outcome ⊢
  cases outcome with
  | held own found same =>
    cases served
    exact ⟨found,same⟩
  | built own _ _ accepted =>
    cases served
    obtain ⟨name,id⟩ := RecordType.layout_names accepted
    exact ⟨by rw [LayoutIndex.byId?_add,if_pos id],name⟩
  | idHeld | nameHeld | refused => cases served

/-- Once a type has been accepted, any type with its id and name is served its layout. -/
theorem register_rival {first second : RecordType} (id : first.id = second.id)
    (name : first.name = second.name) (accepted : first.layout = .ok layout) :
    ((after [.register first]).register second).1 = .ok layout := by
  obtain ⟨found,own⟩ := held_of_register ((register_new first).trans accepted)
  rw [id] at found
  rw [name] at own
  have held : (after [.register first]).held? second = some layout :=
    held?_eq_some_iff.mpr ⟨found,own⟩
  rw [(layoutOf_of_held held).2]

/-- Every run over a family of types serves each of them its own layout exactly if no type
of the family that is accepted shares both id and name with one that declares other
fields. -/
theorem servesOwn_after_iff (family : RecordType → Prop) :
    (∀ calls : List Call, (∀ call ∈ calls, family call.type) →
      ∀ type, family type → (after calls).ServesOwn type) ↔
    ∀ first second, family first → family second → first.id = second.id →
      first.name = second.name → (∃ layout, first.layout = .ok layout) →
        second.specs = first.specs := by
  constructor
  · rintro serves first second inFirst inSecond id name ⟨layout,accepted⟩
    have asked : ∀ call ∈ [Call.register first], family call.type := by
      intro call member
      rw [List.mem_singleton.mp member]
      exact inFirst
    have own := (serves [.register first] asked second inSecond).registered layout
      (register_rival id name accepted)
    obtain ⟨_,_,lays⟩ := Layout.build_ok_iff.mp accepted
    obtain ⟨_,_,laysOwn⟩ := Layout.build_ok_iff.mp own
    exact laysOwn.specs_unique lays
  · intro apart calls asked type inFamily
    apply servesOwn_of_register
    intro layout served
    rcases served_after served with own | ⟨call,member,accepted,id,name⟩
    · exact own
    · have specs := apart call.type type (asked call member) inFamily id name ⟨layout,accepted⟩
      rw [RecordType.layout_congr id.symm name.symm specs]
      exact accepted

/-- A type with the id and the name of another is served a layout that is not its own, by
which its payloads are then judged. -/
theorem register_attitude_twin :
    let twin : RecordType := ⟨"ATTITUDE",30,[⟨"value",.number .uint32,false⟩,
      ⟨"extra",.number .uint16,false⟩]⟩
    let registry := after [.register CommonDialect.attitude]
    ∃ own other, twin.layout = .ok own ∧ (registry.register twin).1 = .ok other ∧
      (registry.layoutOf twin).1 = .ok other ∧ other ≠ own ∧
      ∃ record, (decode {} twin [1,2,3,4,5,6] .v1).1 = .ok record ∧
        (registry.decode twin [1,2,3,4,5,6] .v1).1 = .error (.sizeMismatch "ATTITUDE" 28 6) := by
  intro twin registry
  refine ⟨_,_,rfl,rfl,rfl,?_,_,rfl,rfl⟩
  decide

end Registry

end MavPayload
