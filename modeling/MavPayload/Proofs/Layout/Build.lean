import MavPayload.Layout
import MavPayload.Proofs.Sequence
import Mathlib.Data.List.Basic
import Mathlib.Data.List.Perm.Basic

/-! Which declarations are accepted, and what an accepted layout is: a permutation of the
declared fields under distinct names, whose base fields stand before the extensions. -/
namespace MavPayload.Layout

/-- The conditions on the fields of a declaration. -/
structure FieldsAcceptable (specs : List FieldSpec) : Prop where
  named : ∀ field ∈ specs, field.name ≠ ""
  distinct : (specs.map fun field => field.name).Nodup
  backed : ∀ field ∈ specs, field.isEnum = true → field.type.canBackEnum = true
  length_le : ∀ field ∈ specs, field.length ≤ 255

theorem checkFields_ok_iff (message : String) (index : Nat) (seen : List String)
    (specs : List FieldSpec) :
    checkFields message index seen specs = .ok () ↔
      FieldsAcceptable specs ∧ ∀ field ∈ specs, field.name ∉ seen := by
  induction specs generalizing index seen with
  | nil =>
    simp only [checkFields,List.not_mem_nil,false_implies,implies_true,and_true,true_iff]
    exact ⟨by simp,by simp,by simp,by simp⟩
  | cons field rest ih =>
    -- The four faults in the order in which they are looked for, then none of them.
    simp only [checkFields]
    split_ifs with unnamed repeated unbacked tooLong
    · simp only [false_iff]
      exact fun accepted => accepted.1.named field (by simp) unnamed
    · simp only [false_iff]
      exact fun accepted => accepted.2 field (by simp) repeated
    · simp only [false_iff]
      intro accepted
      have backed := accepted.1.backed field (by simp)
      simp_all
    · simp only [false_iff]
      intro accepted
      have bound := accepted.1.length_le field (by simp)
      omega
    · rw [ih]
      constructor
      · intro ⟨good,fresh⟩
        refine ⟨⟨?_,?_,?_,?_⟩,?_⟩
        · simpa [unnamed] using good.named
        · simp only [List.map_cons,List.nodup_cons,good.distinct,and_true,List.mem_map,not_exists,
            not_and]
          exact fun other member same => fresh other member (by simp [same])
        · intro other member isEnum
          rcases List.mem_cons.mp member with rfl | member
          · simp_all
          · exact good.backed other member isEnum
        · intro other member
          rcases List.mem_cons.mp member with rfl | member
          · omega
          · exact good.length_le other member
        · intro other member
          rcases List.mem_cons.mp member with rfl | member
          · exact repeated
          · exact fun before => fresh other member (by simp [before])
      · intro ⟨good,fresh⟩
        have distinct := good.distinct
        simp only [List.map_cons,List.nodup_cons,List.mem_map,not_exists,not_and] at distinct
        refine ⟨⟨?_,distinct.2,?_,?_⟩,?_⟩
        · exact fun other member => good.named other (by simp [member])
        · exact fun other member => good.backed other (by simp [member])
        · exact fun other member => good.length_le other (by simp [member])
        · intro other member
          simp only [List.mem_cons,not_or]
          exact ⟨distinct.1 other member,fresh other (by simp [member])⟩

theorem elementSize_mem (type : FieldType) : type.size ∈ elementSizes := by
  cases type with
  | numeric type => cases type <;> decide
  | char => decide

theorem wireOrder_perm (fields : List Field) : (wireOrder fields).Perm fields := by
  rw [List.perm_iff_count]
  intro field
  have group (keep : Field → Bool) : (fields.filter keep).count field =
      if keep field then fields.count field else 0 := by
    split_ifs with kept
    · exact List.count_filter kept
    · exact List.count_eq_zero.mpr fun member => kept (List.mem_filter.mp member).2
  have size := elementSize_mem field.type
  simp only [wireOrder,elementSizes,List.flatMap_cons,List.flatMap_nil,List.append_nil,
    List.count_append,group]
  simp only [elementSizes,List.mem_cons,List.not_mem_nil,or_false] at size
  cases extension : field.isExtension
  · rcases size with size | size | size | size <;> simp [size]
  · simp

theorem wireOrder_append {first extensions : List Field}
    (extended : ∀ field ∈ extensions, field.isExtension = true) :
    wireOrder (first ++ extensions) = wireOrder first ++ extensions := by
  have groups (size : Nat) : (extensions.filter fun field =>
      !field.isExtension && field.type.size == size) = [] := by
    rw [List.filter_eq_nil_iff]
    intro field member
    simp [extended field member]
  have all : (extensions.filter fun field => field.isExtension) = extensions := by
    rw [List.filter_eq_self]
    exact extended
  simp only [wireOrder,List.filter_append,groups,all,List.append_nil,List.append_assoc]

theorem wireOrder_base (fields : List Field) :
    (wireOrder fields).takeWhile (fun field => !field.isExtension) =
      (wireOrder fields).filter fun field => !field.isExtension := by
  have base : ∀ field ∈ elementSizes.flatMap (fun size =>
      fields.filter fun field => !field.isExtension && field.type.size == size),
      (!field.isExtension) = true := by
    intro field member
    obtain ⟨size,_,member⟩ := List.mem_flatMap.mp member
    have kept := (List.mem_filter.mp member).2
    simp only [Bool.and_eq_true] at kept
    exact kept.1
  have rest : (fields.filter fun field => field.isExtension).takeWhile
      (fun field => !field.isExtension) = [] := by
    cases extensions : fields.filter fun field => field.isExtension with
    | nil => rfl
    | cons field others =>
      have member : field ∈ fields.filter fun field => field.isExtension := by simp [extensions]
      have extension := (List.mem_filter.mp member).2
      simp [extension]
  have none : (fields.filter fun field => field.isExtension).filter
      (fun field => !field.isExtension) = [] := by
    simp
  simp only [wireOrder]
  rw [List.takeWhile_append_of_pos base,rest,List.filter_append,none,
    List.filter_eq_self.mpr base]

@[simp] theorem placed_specs (specs : List FieldSpec) :
    (placed specs).map (fun field => field.toFieldSpec) = specs := by
  apply List.ext_getElem
  · simp [placed]
  · intro place left right
    simp [placed]

@[simp] theorem placed_indices (specs : List FieldSpec) :
    (placed specs).map (fun field => field.index) = List.range specs.length := by
  apply List.ext_getElem
  · simp [placed]
  · intro place left right
    simp [placed]

theorem placed_append (first second : List FieldSpec) :
    placed (first ++ second) = placed first ++
      second.mapIdx fun place spec => { spec with index := first.length + place } := by
  simp only [placed,List.mapIdx_append,Nat.add_comm]

/-- A field of a declaration stands where its index says. -/
theorem mem_placed {specs : List FieldSpec} {field : Field} :
    field ∈ placed specs ↔ specs[field.index]? = some field.toFieldSpec := by
  simp only [placed,List.mem_mapIdx]
  constructor
  · rintro ⟨index,bound,rfl⟩
    exact List.getElem?_eq_getElem bound
  · intro found
    obtain ⟨bound,same⟩ := List.getElem?_eq_some_iff.mp found
    exact ⟨field.index,bound,by rw [same]⟩

/-- What a layout is known by once its declaration has been accepted. -/
structure Lays (specs : List FieldSpec) (layout : Layout) : Prop where
  fields_eq : layout.fields = wireOrder (placed specs)
  named : layout.name ≠ ""
  id_le : layout.id ≤ maxId
  acceptable : FieldsAcceptable specs
  size_le : totalSize layout.fields ≤ maxPayload

theorem build_ok_iff {name : String} {id : Nat} {specs : List FieldSpec} {layout : Layout} :
    build name id specs = .ok layout ↔
      layout.name = name ∧ layout.id = id ∧ Lays specs layout := by
  unfold build
  by_cases unnamed : name = ""
  · subst unnamed
    simp only [if_true]
    constructor
    · intro failed
      cases failed
    · rintro ⟨empty,_,lays⟩
      exact absurd empty lays.named
  by_cases tooLarge : maxId < id
  · simp only [unnamed,tooLarge,if_true,if_false]
    constructor
    · intro failed
      cases failed
    · rintro ⟨_,rfl,lays⟩
      exact absurd tooLarge (Nat.not_lt.mpr lays.id_le)
  simp only [unnamed,tooLarge,if_false]
  cases checked : checkFields name 0 [] specs with
  | error error =>
    constructor
    · intro failed
      cases failed
    · rintro ⟨_,_,lays⟩
      have accepted := (checkFields_ok_iff name 0 [] specs).mpr ⟨lays.acceptable,by simp⟩
      rw [checked] at accepted
      cases accepted
  | ok =>
    have acceptable := ((checkFields_ok_iff name 0 [] specs).mp checked).1
    change (if _ then _ else _) = _ ↔ _
    split_ifs with tooLong
    · constructor
      · intro failed
        cases failed
      · rintro ⟨_,_,lays⟩
        have size := lays.size_le
        rw [lays.fields_eq] at size
        omega
    · constructor
      · intro built
        cases built
        exact ⟨rfl,rfl,rfl,unnamed,Nat.not_lt.mp tooLarge,acceptable,Nat.not_lt.mp tooLong⟩
      · rintro ⟨rfl,rfl,lays⟩
        rw [← lays.fields_eq]
        rfl

theorem of_field? {layout : Layout} {name : String} {field : Field}
    (found : layout.field? name = some field) : field ∈ layout.fields ∧ field.name = name :=
  ⟨List.mem_of_find?_eq_some found,by simpa using List.find?_some found⟩

theorem fieldsFor_begins (layout : Layout) (version : Version) :
    layout.fieldsFor version <+: layout.fields := by
  cases version with
  | v1 => exact List.takeWhile_prefix _
  | v2 => exact List.prefix_rfl

namespace Lays

variable {specs : List FieldSpec} {layout : Layout}

theorem perm (lays : Lays specs layout) : layout.fields.Perm (placed specs) := by
  rw [lays.fields_eq]
  exact wireOrder_perm _

theorem mem_iff (lays : Lays specs layout) {field : Field} :
    field ∈ layout.fields ↔ specs[field.index]? = some field.toFieldSpec := by
  rw [lays.perm.mem_iff,mem_placed]

theorem names_distinct (lays : Lays specs layout) :
    (layout.fields.map fun field => field.name).Nodup := by
  rw [(lays.perm.map _).nodup_iff]
  have names : (placed specs).map (fun field => field.name) =
      specs.map fun field => field.name := by
    conv_rhs => rw [← placed_specs specs,List.map_map]
    rfl
  rw [names]
  exact lays.acceptable.distinct

theorem indices_distinct (lays : Lays specs layout) :
    (layout.fields.map fun field => field.index).Nodup := by
  rw [(lays.perm.map _).nodup_iff,placed_indices]
  exact List.nodup_range

theorem specs_unique {others : List FieldSpec} (lays : Lays specs layout)
    (laysOthers : Lays others layout) : specs = others := by
  apply List.ext_getElem?
  intro place
  apply Option.ext
  intro spec
  have declared : { spec with index := place } ∈ layout.fields ↔ specs[place]? = some spec :=
    lays.mem_iff
  exact declared.symm.trans laysOthers.mem_iff

theorem baseFields_eq (lays : Lays specs layout) :
    layout.baseFields = layout.fields.filter fun field => !field.isExtension := by
  rw [baseFields,lays.fields_eq]
  exact wireOrder_base _

theorem fieldsFor_sublist (_ : Lays specs layout) (version : Version) :
    (layout.fieldsFor version).Sublist layout.fields :=
  (layout.fieldsFor_begins version).sublist

theorem fieldsFor_distinct (lays : Lays specs layout) (version : Version) :
    ((layout.fieldsFor version).map fun field => field.name).Nodup :=
  lays.names_distinct.sublist ((lays.fieldsFor_sublist version).map _)

theorem mem_fieldsFor (lays : Lays specs layout) {field : Field} {version : Version} :
    field ∈ layout.fieldsFor version ↔
      field ∈ layout.fields ∧ (version = .v1 → field.isExtension = false) := by
  cases version with
  | v1 => simp [fieldsFor,lays.baseFields_eq]
  | v2 => simp [fieldsFor]

theorem field?_eq_some_iff (lays : Lays specs layout) {name : String} {field : Field} :
    layout.field? name = some field ↔ field ∈ layout.fields ∧ field.name = name :=
  find?_key_iff lays.names_distinct

end Lays

end MavPayload.Layout
