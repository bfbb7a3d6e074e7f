import MavPayload.Layout.Index
import MavPayload.Proofs.SortedMap

/-! Indexes of layouts. An index is consistent if its two maps lead to each other. A layout that
is put into both under its own id and name keeps that up, as long as both are new. -/
namespace MavPayload.LayoutIndex

/-- Whether the map of layouts and the map of ids are inverse to each other. -/
structure Consistent (index : LayoutIndex) : Prop where
  layouts_ascend : index.layouts.Ascending
  ids_ascend : index.ids.Ascending
  held : ∀ id layout, index.byId? id = some layout →
    layout.id = id ∧ index.idOf? layout.name = some id
  named : ∀ name id, index.idOf? name = some id →
    ∃ layout, index.byId? id = some layout ∧ layout.name = name

def add (index : LayoutIndex) (added : Layout) : LayoutIndex :=
  (index.holdLayout added.id added).holdName added.name added.id

variable {index : LayoutIndex} {added layout : Layout} {id : Nat} {name : String}

theorem byId?_add (index : LayoutIndex) (added : Layout) (id : Nat) :
    (index.add added).byId? id = if added.id = id then some added else index.byId? id :=
  SortedMap.get?_insert ..

theorem idOf?_add (index : LayoutIndex) (added : Layout) (name : String) :
    (index.add added).idOf? name = if added.name = name then some added.id else index.idOf? name :=
  SortedMap.get?_insert ..

theorem add_perm (free : index.byId? added.id = none) :
    (index.add added).toList.Perm (added :: index.toList) :=
  (SortedMap.insert_perm (SortedMap.get?_eq_none_iff.mp free) added).map Prod.snd

theorem length_add (free : index.byId? added.id = none) :
    (index.add added).length = index.length + 1 :=
  (SortedMap.insert_perm (SortedMap.get?_eq_none_iff.mp free) added).length_eq

theorem mem_add (free : index.byId? added.id = none) :
    layout ∈ index.add added ↔ layout = added ∨ layout ∈ index :=
  (add_perm free).mem_iff.trans List.mem_cons

theorem byName?_eq_some : index.byName? name = some layout ↔
    ∃ id, index.idOf? name = some id ∧ index.byId? id = some layout :=
  Option.bind_eq_some_iff

namespace Consistent

theorem empty : Consistent {} :=
  ⟨.nil,.nil,fun _ _ => nofun,fun _ _ => nofun⟩

theorem add (consistent : index.Consistent) (idFree : index.byId? added.id = none)
    (nameFree : index.idOf? added.name = none) : (index.add added).Consistent where
  layouts_ascend := consistent.layouts_ascend.insert _ _
  ids_ascend := consistent.ids_ascend.insert _ _
  held id layout found := by
    rw [byId?_add] at found
    split at found
    · rename_i same
      cases found
      exact ⟨same,by rw [idOf?_add,if_pos rfl,same]⟩
    · obtain ⟨own,known⟩ := consistent.held id layout found
      have other : added.name ≠ layout.name := by
        intro same
        rw [same,known] at nameFree
        cases nameFree
      exact ⟨own,by rw [idOf?_add,if_neg other,known]⟩
  named name id known := by
    rw [idOf?_add] at known
    split at known
    · rename_i same
      cases known
      exact ⟨added,by rw [byId?_add,if_pos rfl],same⟩
    · obtain ⟨layout,found,own⟩ := consistent.named name id known
      have other : added.id ≠ id := by
        intro same
        rw [same,found] at idFree
        cases idFree
      exact ⟨layout,by rw [byId?_add,if_neg other,found],own⟩

theorem mem_iff (consistent : index.Consistent) :
    layout ∈ index ↔ index.byId? layout.id = some layout := by
  have entry (id : Nat) : (id,layout) ∈ index.layouts ↔ index.byId? id = some layout :=
    consistent.layouts_ascend.get?_eq_some_iff.symm
  constructor
  · intro member
    obtain ⟨⟨id,_⟩,inside,rfl⟩ := List.mem_map.mp member
    have found := (entry id).mp inside
    rwa [(consistent.held id _ found).1]
  · intro found
    exact List.mem_map.mpr ⟨_,(entry _).mpr found,rfl⟩

theorem byId?_eq_some_iff (consistent : index.Consistent) :
    index.byId? id = some layout ↔ layout ∈ index ∧ layout.id = id := by
  constructor
  · intro found
    have own := (consistent.held id layout found).1
    exact ⟨consistent.mem_iff.mpr (by rwa [own]),own⟩
  · rintro ⟨member,rfl⟩
    exact consistent.mem_iff.mp member

theorem idOf?_eq_some_iff (consistent : index.Consistent) :
    index.idOf? name = some id ↔ ∃ layout ∈ index, layout.id = id ∧ layout.name = name := by
  constructor
  · intro known
    obtain ⟨layout,found,own⟩ := consistent.named name id known
    obtain ⟨member,same⟩ := consistent.byId?_eq_some_iff.mp found
    exact ⟨layout,member,same,own⟩
  · rintro ⟨layout,member,rfl,rfl⟩
    exact (consistent.held _ _ (consistent.mem_iff.mp member)).2

theorem byName?_eq_some_iff (consistent : index.Consistent) :
    index.byName? name = some layout ↔ layout ∈ index ∧ layout.name = name := by
  rw [byName?_eq_some]
  constructor
  · rintro ⟨id,known,found⟩
    obtain ⟨other,foundOther,own⟩ := consistent.named name id known
    cases found.symm.trans foundOther
    exact ⟨(consistent.byId?_eq_some_iff.mp found).1,own⟩
  · rintro ⟨member,rfl⟩
    have found := consistent.mem_iff.mp member
    exact ⟨_,(consistent.held _ _ found).2,found⟩

theorem byId?_iff_byName? (consistent : index.Consistent) :
    index.byId? layout.id = some layout ↔ index.byName? layout.name = some layout := by
  rw [consistent.byId?_eq_some_iff,consistent.byName?_eq_some_iff]
  exact ⟨fun found => ⟨found.1,rfl⟩,fun found => ⟨found.1,rfl⟩⟩

theorem byId?_eq_none_iff (consistent : index.Consistent) :
    index.byId? id = none ↔ ∀ layout ∈ index, layout.id ≠ id := by
  simp only [Option.eq_none_iff_forall_ne_some,ne_eq,consistent.byId?_eq_some_iff,not_and]

theorem idOf?_eq_none_iff (consistent : index.Consistent) :
    index.idOf? name = none ↔ ∀ layout ∈ index, layout.name ≠ name := by
  simp only [Option.eq_none_iff_forall_ne_some,ne_eq,consistent.idOf?_eq_some_iff,not_exists,
    not_and]
  exact ⟨fun free layout member => free _ layout member rfl,
    fun other _ layout member _ => other layout member⟩

theorem ascending (consistent : index.Consistent) :
    index.toList.Pairwise fun first second => first.id < second.id := by
  have own {entry : Nat × Layout} (member : entry ∈ index.layouts) : entry.2.id = entry.1 :=
    (consistent.held _ _ (consistent.layouts_ascend.get?_eq_some_iff.mpr member)).1
  refine List.pairwise_map.mpr (consistent.layouts_ascend.imp_of_mem fun first second before => ?_)
  rwa [own first,own second]

theorem ids_distinct (consistent : index.Consistent) :
    (index.toList.map fun layout => layout.id).Nodup :=
  List.pairwise_map.mpr (consistent.ascending.imp Nat.ne_of_lt)

theorem names_distinct (consistent : index.Consistent) :
    (index.toList.map fun layout => layout.name).Nodup := by
  refine List.pairwise_map.mpr (consistent.ascending.imp_of_mem fun first second before same => ?_)
  -- A name leads to one id only.
  have one := (consistent.held _ _ (consistent.mem_iff.mp first)).2
  rw [same,(consistent.held _ _ (consistent.mem_iff.mp second)).2] at one
  exact Nat.ne_of_gt before (Option.some.inj one)

/-- The layouts of an index leave no choice of its maps. -/
theorem eq_of_perm {other : LayoutIndex} (consistent : index.Consistent)
    (otherConsistent : other.Consistent) (same : index.toList.Perm other.toList) :
    index = other := by
  have members (layout : Layout) : layout ∈ index ↔ layout ∈ other := same.mem_iff
  have layouts : index.layouts = other.layouts := by
    refine consistent.layouts_ascend.ext otherConsistent.layouts_ascend fun id => ?_
    refine Option.ext fun layout => ?_
    change index.byId? id = some layout ↔ other.byId? id = some layout
    rw [consistent.byId?_eq_some_iff,otherConsistent.byId?_eq_some_iff,members]
  have ids : index.ids = other.ids := by
    refine consistent.ids_ascend.ext otherConsistent.ids_ascend fun name => ?_
    refine Option.ext fun id => ?_
    change index.idOf? name = some id ↔ other.idOf? name = some id
    simp only [consistent.idOf?_eq_some_iff,otherConsistent.idOf?_eq_some_iff,members]
  cases index
  cases other
  exact congrArg₂ LayoutIndex.mk layouts ids

end Consistent

end MavPayload.LayoutIndex
