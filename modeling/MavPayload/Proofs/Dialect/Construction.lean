import MavPayload.Dialect
import MavPayload.Proofs.Layout.Build
import MavPayload.Proofs.Layout.Index

/-! The dialect of some definitions. It holds their layouts and nothing else, it exists if
they are acceptable one by one and no two share an id or a name, and the order in which they
are given makes no difference to it. -/
namespace MavPayload

namespace MessageDefinition

theorem layout_names {definition : MessageDefinition} {layout : Layout}
    (accepted : definition.layout = .ok layout) :
    layout.name = definition.name ∧ layout.id = definition.id := by
  obtain ⟨name,id,_⟩ := Layout.build_ok_iff.mp accepted
  exact ⟨name,id⟩

variable {definitions : List MessageDefinition} {built : List Layout}

theorem layouts_ids (all : definitions.mapM layout = .ok built) :
    built.map (fun layout => layout.id) = definitions.map fun definition => definition.id :=
  mapM_ok_map all fun _ _ accepted => (layout_names accepted).2

theorem layouts_names (all : definitions.mapM layout = .ok built) :
    built.map (fun layout => layout.name) = definitions.map fun definition => definition.name :=
  mapM_ok_map all fun _ _ accepted => (layout_names accepted).1

theorem mem_layouts (all : definitions.mapM layout = .ok built) {held : Layout} :
    held ∈ built ↔ ∃ definition ∈ definitions, definition.layout = .ok held := by
  refine ⟨mapM_ok_mem all,?_⟩
  rintro ⟨definition,member,accepted⟩
  obtain ⟨other,inside,same⟩ := mem_mapM_ok all member
  cases accepted.symm.trans same
  exact inside

theorem layouts_perm {others : List MessageDefinition} (same : others.Perm definitions)
    (all : definitions.mapM layout = .ok built) :
    ∃ reordered, others.mapM layout = .ok reordered ∧ reordered.Perm built := by
  obtain ⟨reordered,each,perm⟩ := List.perm_comp_forall₂ same (mapM_ok_iff.mp all)
  exact ⟨reordered,mapM_ok_iff.mpr each,perm⟩

end MessageDefinition

namespace LayoutIndex

theorem exists_consistent {layouts : List Layout}
    (ids : (layouts.map fun layout => layout.id).Nodup)
    (names : (layouts.map fun layout => layout.name).Nodup) :
    ∃ index : LayoutIndex, index.Consistent ∧ index.toList.Perm layouts := by
  induction layouts with
  | nil => exact ⟨{},.empty,List.Perm.refl _⟩
  | cons first rest ih =>
    obtain ⟨idNew,ids⟩ := List.nodup_cons.mp ids
    obtain ⟨nameNew,names⟩ := List.nodup_cons.mp names
    obtain ⟨index,consistent,same⟩ := ih ids names
    have idFree : index.byId? first.id = none := by
      rw [consistent.byId?_eq_none_iff]
      exact fun layout member shared =>
        idNew (List.mem_map.mpr ⟨layout,same.mem_iff.mp member,shared⟩)
    have nameFree : index.idOf? first.name = none := by
      rw [consistent.idOf?_eq_none_iff]
      exact fun layout member shared =>
        nameNew (List.mem_map.mpr ⟨layout,same.mem_iff.mp member,shared⟩)
    exact ⟨index.add first,consistent.add idFree nameFree,
      (add_perm idFree).trans (same.cons first)⟩

end LayoutIndex

namespace Dialect

variable {name : String} {version : Nat} {definitions : List MessageDefinition}
variable {dialect : Dialect} {index final : LayoutIndex}

theorem add_ok_iff {definition : MessageDefinition} :
    add name index definition = .ok final ↔ ∃ layout, definition.layout = .ok layout ∧
      index.byId? layout.id = none ∧ index.idOf? layout.name = none ∧
        index.add layout = final := by
  rw [add,except_bind_ok_iff]
  refine exists_congr fun layout => and_congr_right fun accepted => ?_
  obtain ⟨ownName,ownId⟩ := MessageDefinition.layout_names accepted
  rw [LayoutIndex.add,ownName,ownId]
  cases idHeld : index.byId? definition.id with
  | some holder =>
    constructor
    · intro failed
      cases failed
    · rintro ⟨free,_⟩
      cases free
  | none =>
    cases nameHeld : index.idOf? definition.name with
    | some holder =>
      constructor
      · intro failed
        cases failed
      · rintro ⟨_,free,_⟩
        cases free
    | none =>
      constructor
      · intro added
        exact ⟨rfl,rfl,Except.ok.inj added⟩
      · rintro ⟨_,_,rfl⟩
        rfl

/-- An index grows by definitions to the consistent index of what it held and their layouts. -/
theorem foldlM_add_ok_iff (consistent : index.Consistent) :
    definitions.foldlM (add name) index = .ok final ↔
      ∃ built, definitions.mapM MessageDefinition.layout = .ok built ∧ final.Consistent ∧
        final.toList.Perm (built ++ index.toList) := by
  induction definitions generalizing index with
  | nil =>
    rw [List.foldlM_nil,List.mapM_nil]
    constructor
    · intro same
      cases same
      exact ⟨[],rfl,consistent,List.Perm.refl _⟩
    · rintro ⟨built,empty,finalConsistent,same⟩
      cases empty
      rw [finalConsistent.eq_of_perm consistent same]
      rfl
  | cons definition rest ih =>
    rw [List.foldlM_cons,except_bind_ok_iff]
    constructor
    · rintro ⟨next,added,later⟩
      obtain ⟨layout,accepted,idFree,nameFree,rfl⟩ := add_ok_iff.mp added
      obtain ⟨built,all,finalConsistent,same⟩ :=
        (ih (consistent.add idFree nameFree)).mp later
      refine ⟨layout :: built,mapM_ok_iff.mpr (.cons accepted (mapM_ok_iff.mp all)),
        finalConsistent,same.trans ?_⟩
      exact ((LayoutIndex.add_perm idFree).append_left built).trans List.perm_middle
    · rintro ⟨all,each,finalConsistent,same⟩
      cases mapM_ok_iff.mp each with
      | @cons _ layout _ built accepted others =>
        -- What is still to come is not held yet, since nothing is held twice in the end.
        have ids := (same.map fun layout => layout.id).nodup_iff.mp finalConsistent.ids_distinct
        have names := (same.map fun layout => layout.name).nodup_iff.mp finalConsistent.names_distinct
        simp only [List.cons_append,List.map_cons,List.nodup_cons,List.mem_map,List.mem_append,
          not_exists,not_and] at ids names
        have idFree : index.byId? layout.id = none :=
          consistent.byId?_eq_none_iff.mpr fun held member => ids.1 held (Or.inr member)
        have nameFree : index.idOf? layout.name = none :=
          consistent.idOf?_eq_none_iff.mpr fun held member => names.1 held (Or.inr member)
        refine ⟨index.add layout,add_ok_iff.mpr ⟨layout,accepted,idFree,nameFree,rfl⟩,?_⟩
        refine (ih (consistent.add idFree nameFree)).mpr
          ⟨built,mapM_ok_iff.mpr others,finalConsistent,same.trans ?_⟩
        exact (((LayoutIndex.add_perm idFree).append_left built).trans List.perm_middle).symm

theorem ofDefinitions_ok_iff :
    ofDefinitions name version definitions = .ok dialect ↔
      dialect.name = name ∧ dialect.version = version ∧ dialect.layouts.Consistent ∧
        ∃ built, definitions.mapM MessageDefinition.layout = .ok built ∧
          dialect.layouts.toList.Perm built := by
  rw [ofDefinitions,except_bind_ok_iff]
  have none : LayoutIndex.toList {} = [] := rfl
  simp only [foldlM_add_ok_iff .empty,none,List.append_nil]
  constructor
  · rintro ⟨index,⟨built,all,consistent,same⟩,done⟩
    cases done
    exact ⟨rfl,rfl,consistent,built,all,same⟩
  · rintro ⟨rfl,rfl,consistent,built,all,same⟩
    exact ⟨dialect.layouts,⟨built,all,consistent,same⟩,rfl⟩

/-- Whether a dialect answers for some definitions and no others: each of their layouts is
listed once, by ascending id, and found by the id and by the name of its definition. -/
structure AnswersFor (dialect : Dialect) (definitions : List MessageDefinition) : Prop where
  ascending : dialect.layouts.toList.Pairwise fun first second => first.id < second.id
  listed : ∃ built, definitions.mapM MessageDefinition.layout = .ok built ∧
    dialect.layouts.toList.Perm built
  byId : ∀ id layout, dialect.byId? id = some layout ↔
    ∃ definition ∈ definitions, definition.id = id ∧ definition.layout = .ok layout
  byName : ∀ name layout, dialect.byName? name = some layout ↔
    ∃ definition ∈ definitions, definition.name = name ∧ definition.layout = .ok layout
  agree : ∀ layout, dialect.byId? layout.id = some layout ↔ dialect.byName? layout.name = some layout

theorem answersFor (accepted : ofDefinitions name version definitions = .ok dialect) :
    dialect.AnswersFor definitions := by
  obtain ⟨_,_,consistent,built,all,same⟩ := ofDefinitions_ok_iff.mp accepted
  have held (layout : Layout) : layout ∈ dialect.layouts ↔
      ∃ definition ∈ definitions, definition.layout = .ok layout := by
    exact same.mem_iff.trans (MessageDefinition.mem_layouts all)
  refine ⟨consistent.ascending,⟨built,all,same⟩,?_,?_,fun _ => consistent.byId?_iff_byName?⟩
  · intro id layout
    rw [byId?,consistent.byId?_eq_some_iff,held]
    constructor
    · rintro ⟨⟨definition,member,own⟩,rfl⟩
      exact ⟨definition,member,(MessageDefinition.layout_names own).2.symm,own⟩
    · rintro ⟨definition,member,rfl,own⟩
      exact ⟨⟨definition,member,own⟩,(MessageDefinition.layout_names own).2⟩
  · intro name layout
    rw [byName?,consistent.byName?_eq_some_iff,held]
    constructor
    · rintro ⟨⟨definition,member,own⟩,rfl⟩
      exact ⟨definition,member,(MessageDefinition.layout_names own).1.symm,own⟩
    · rintro ⟨definition,member,rfl,own⟩
      exact ⟨⟨definition,member,own⟩,(MessageDefinition.layout_names own).1⟩

theorem exists_ofDefinitions_iff :
    (∃ dialect, ofDefinitions name version definitions = .ok dialect) ↔
      (∀ definition ∈ definitions, ∃ layout, definition.layout = .ok layout) ∧
        (definitions.map fun definition => definition.id).Nodup ∧
        (definitions.map fun definition => definition.name).Nodup := by
  constructor
  · rintro ⟨dialect,accepted⟩
    obtain ⟨_,_,consistent,built,all,same⟩ := ofDefinitions_ok_iff.mp accepted
    rw [← MessageDefinition.layouts_ids all,← MessageDefinition.layouts_names all,
      ← (same.map _).nodup_iff,← (same.map _).nodup_iff]
    refine ⟨?_,consistent.ids_distinct,consistent.names_distinct⟩
    intro definition member
    obtain ⟨layout,_,own⟩ := mem_mapM_ok all member
    exact ⟨layout,own⟩
  · rintro ⟨each,ids,names⟩
    obtain ⟨built,all⟩ := mapM_ok_of_forall each
    rw [← MessageDefinition.layouts_ids all] at ids
    rw [← MessageDefinition.layouts_names all] at names
    obtain ⟨index,consistent,same⟩ := LayoutIndex.exists_consistent ids names
    exact ⟨⟨name,version,index⟩,ofDefinitions_ok_iff.mpr ⟨rfl,rfl,consistent,built,all,same⟩⟩

theorem ofDefinitions_of_perm {others : List MessageDefinition} (same : others.Perm definitions)
    (accepted : ofDefinitions name version definitions = .ok dialect) :
    ofDefinitions name version others = .ok dialect := by
  obtain ⟨sameName,sameVersion,consistent,built,all,perm⟩ := ofDefinitions_ok_iff.mp accepted
  obtain ⟨reordered,each,again⟩ := MessageDefinition.layouts_perm same all
  exact ofDefinitions_ok_iff.mpr
    ⟨sameName,sameVersion,consistent,reordered,each,perm.trans again.symm⟩

/-- A dialect is made exactly of definitions that are acceptable one by one and share no id
and no name. It answers for these and no others, and it is the same dialect, in all that it
answers, in whatever order they are given. -/
theorem ofDefinitions_definitions (name : String) (version : Nat)
    (definitions : List MessageDefinition) :
    ((∃ dialect, ofDefinitions name version definitions = .ok dialect) ↔
      (∀ definition ∈ definitions, ∃ layout, definition.layout = .ok layout) ∧
        (definitions.map fun definition => definition.id).Nodup ∧
        (definitions.map fun definition => definition.name).Nodup) ∧
      (∀ dialect, ofDefinitions name version definitions = .ok dialect →
        dialect.AnswersFor definitions) ∧
      ∀ others, others.Perm definitions → ∀ dialect,
        ofDefinitions name version others = .ok dialect ↔
          ofDefinitions name version definitions = .ok dialect :=
  ⟨exists_ofDefinitions_iff,fun _ => answersFor,fun _ same _ =>
    ⟨ofDefinitions_of_perm same.symm,ofDefinitions_of_perm same⟩⟩

end Dialect

end MavPayload
