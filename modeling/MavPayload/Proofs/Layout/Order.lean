import MavPayload.Proofs.Codec
import MavPayload.Proofs.Layout.Build
import Mathlib.Algebra.GroupWithZero.Nat

/-! The order of the fields on the wire, and the sizes that follow from it. The conditions
on the order leave no choice: only the fields of the layout meet them. -/
namespace MavPayload

/-- Whether a field stands before another on the wire. Extensions are last, base fields with
larger elements are first, and the declaration decides between the others. -/
def Field.Precedes (first second : Field) : Prop :=
  if first.isExtension = true then second.isExtension = true ∧ first.index < second.index
  else second.isExtension = true ∨ second.type.size < first.type.size ∨
    second.type.size = first.type.size ∧ first.index < second.index

namespace Field

variable {first second : Field}

theorem precedes_base (base : first.isExtension = false) :
    first.Precedes second ↔ second.isExtension = true ∨ second.type.size < first.type.size ∨
      second.type.size = first.type.size ∧ first.index < second.index := by
  simp only [Precedes,base,Bool.false_eq_true,if_false]

theorem precedes_extension (extended : first.isExtension = true) :
    first.Precedes second ↔ second.isExtension = true ∧ first.index < second.index := by
  simp only [Precedes,extended,if_true]

theorem Precedes.asymm (before : first.Precedes second) : ¬ second.Precedes first := by
  intro after
  cases base : first.isExtension with
  | true =>
    obtain ⟨extended,less⟩ := (precedes_extension base).mp before
    have more := ((precedes_extension extended).mp after).2
    omega
  | false =>
    cases other : second.isExtension with
    | true => simp [precedes_extension other,base] at after
    | false =>
      have less := (precedes_base base).mp before
      have more := (precedes_base other).mp after
      simp only [base,other,Bool.false_eq_true,false_or] at less more
      omega

end Field

namespace Layout

/-- Whether some fields are those of a declaration in wire order, each with its place in the
declaration and otherwise as declared. -/
structure InWireOrder (specs : List FieldSpec) (fields : List Field) : Prop where
  places : (fields.map fun field => field.index).Perm (List.range specs.length)
  declared : ∀ field ∈ fields, specs[field.index]? = some field.toFieldSpec
  extensionsLast : fields.Pairwise fun first second =>
    first.isExtension = true → second.isExtension = true
  baseOrdered : (fields.filter fun field => !field.isExtension).Pairwise fun first second =>
    second.type.size < first.type.size ∨
      second.type.size = first.type.size ∧ first.index < second.index
  extensionsOrdered : (fields.filter fun field => field.isExtension).Pairwise
    fun first second => first.index < second.index

variable {specs : List FieldSpec} {fields : List Field}

theorem placed_ascending (specs : List FieldSpec) :
    (placed specs).Pairwise fun first second => first.index < second.index := by
  have places := List.pairwise_lt_range (n := specs.length)
  rwa [← placed_indices,List.pairwise_map] at places

theorem perm_placed_iff : fields.Perm (placed specs) ↔
    (fields.map fun field => field.index).Perm (List.range specs.length) ∧
      ∀ field ∈ fields, specs[field.index]? = some field.toFieldSpec := by
  constructor
  · intro same
    rw [← placed_indices]
    exact ⟨same.map _,fun field member => mem_placed.mp (same.mem_iff.mp member)⟩
  · rintro ⟨places,declared⟩
    have distinct : fields.Nodup := (places.nodup_iff.mpr List.nodup_range).of_map _
    have placedDistinct : (placed specs).Nodup := (placed_ascending specs).imp fun before same =>
      absurd before (by rw [same]; exact Nat.lt_irrefl _)
    rw [List.perm_ext_iff_of_nodup distinct placedDistinct]
    refine fun field => ⟨fun member => mem_placed.mpr (declared field member),fun member => ?_⟩
    -- Some field stands under the same place, and it has been declared there too.
    have spec := mem_placed.mp member
    have inside : field.index ∈ fields.map fun field => field.index := by
      rw [places.mem_iff,List.mem_range]
      exact (List.getElem?_eq_some_iff.mp spec).1
    obtain ⟨other,present,place⟩ := List.mem_map.mp inside
    have same := declared other present
    rw [place,spec] at same
    cases field
    cases other
    cases same
    cases place
    exact present

theorem precedes_iff : fields.Pairwise Field.Precedes ↔
    (fields.Pairwise fun first second => first.isExtension = true → second.isExtension = true) ∧
      ((fields.filter fun field => !field.isExtension).Pairwise fun first second =>
        second.type.size < first.type.size ∨
          second.type.size = first.type.size ∧ first.index < second.index) ∧
      (fields.filter fun field => field.isExtension).Pairwise
        fun first second => first.index < second.index := by
  rw [List.pairwise_filter,List.pairwise_filter,← List.pairwise_and_iff,← List.pairwise_and_iff]
  apply List.Pairwise.iff
  intro first second
  unfold Field.Precedes
  cases first.isExtension <;> cases second.isExtension <;> simp

theorem inWireOrder_iff :
    InWireOrder specs fields ↔ fields.Perm (placed specs) ∧ fields.Pairwise Field.Precedes := by
  rw [perm_placed_iff,precedes_iff]
  constructor
  · rintro ⟨places,declared,extensionsLast,baseOrdered,extensionsOrdered⟩
    exact ⟨⟨places,declared⟩,extensionsLast,baseOrdered,extensionsOrdered⟩
  · rintro ⟨⟨places,declared⟩,extensionsLast,baseOrdered,extensionsOrdered⟩
    exact ⟨places,declared,extensionsLast,baseOrdered,extensionsOrdered⟩

theorem wireOrder_precedes
    (ascending : fields.Pairwise fun first second => first.index < second.index) :
    (wireOrder fields).Pairwise Field.Precedes := by
  have group {size : Nat} {field : Field} (member : field ∈ fields.filter fun field =>
      !field.isExtension && field.type.size == size) :
      field.isExtension = false ∧ field.type.size = size := by
    simpa using (List.mem_filter.mp member).2
  have extended {field : Field} (member : field ∈ fields.filter fun field => field.isExtension) :
      field.isExtension = true :=
    (List.mem_filter.mp member).2
  have descending : elementSizes.Pairwise fun first second => second < first := by decide
  rw [wireOrder,List.pairwise_append,List.pairwise_flatMap]
  -- Fields of one group, of two groups, two extensions, and a base field and an extension.
  refine ⟨⟨?_,?_⟩,?_,?_⟩
  · intro size _
    refine List.Pairwise.imp_of_mem ?_ (ascending.filter _)
    intro first second inFirst inSecond before
    obtain ⟨base,same⟩ := group inFirst
    exact (Field.precedes_base base).mpr
      (Or.inr (Or.inr ⟨(group inSecond).2.trans same.symm,before⟩))
  · refine descending.imp ?_
    intro large small less first inFirst second inSecond
    obtain ⟨base,rfl⟩ := group inFirst
    obtain ⟨_,rfl⟩ := group inSecond
    exact (Field.precedes_base base).mpr (Or.inr (Or.inl less))
  · refine List.Pairwise.imp_of_mem ?_ (ascending.filter _)
    intro first second inFirst inSecond before
    exact (Field.precedes_extension (extended inFirst)).mpr ⟨extended inSecond,before⟩
  · intro first inFirst second inSecond
    obtain ⟨size,_,member⟩ := List.mem_flatMap.mp inFirst
    exact (Field.precedes_base (group member).1).mpr (Or.inl (extended inSecond))

theorem filter_placed (keep : FieldSpec → Bool) (specs : List FieldSpec) :
    ((placed specs).filter fun field => keep field.toFieldSpec).map
      (fun field => field.toFieldSpec) = specs.filter keep := by
  conv_rhs => rw [← placed_specs specs,List.filter_map]
  rfl

/-- The declared base fields in wire order: those of one element size after the other. -/
def baseSpecs (specs : List FieldSpec) : List FieldSpec :=
  elementSizes.flatMap fun size =>
    specs.filter fun spec => !spec.isExtension && spec.type.size == size

theorem wireOrder_specs (specs : List FieldSpec) :
    (wireOrder (placed specs)).map (fun field => field.toFieldSpec) =
      baseSpecs specs ++ specs.filter fun spec => spec.isExtension := by
  have group (size : Nat) := filter_placed
    (fun spec => !spec.isExtension && spec.type.size == size) specs
  rw [wireOrder,List.map_append,List.map_flatMap,baseSpecs]
  simp only [group]
  congr 1
  exact filter_placed (fun spec => spec.isExtension) specs

theorem Lays.baseFields_specs {layout : Layout} (lays : layout.Lays specs) :
    layout.baseFields.map (fun field => field.toFieldSpec) = baseSpecs specs := by
  have base : ∀ spec ∈ baseSpecs specs, (!spec.isExtension) = true := by
    intro spec member
    obtain ⟨size,_,inside⟩ := List.mem_flatMap.mp member
    have kept := (List.mem_filter.mp inside).2
    rw [Bool.and_eq_true] at kept
    exact kept.1
  have rest : (specs.filter fun spec => spec.isExtension).filter
      (fun spec => !spec.isExtension) = [] := by
    simp
  rw [lays.baseFields_eq,lays.fields_eq]
  have filtered := List.filter_map (f := fun field : Field => field.toFieldSpec)
    (p := fun spec => !spec.isExtension) (l := wireOrder (placed specs))
  rw [wireOrder_specs,List.filter_append,List.filter_eq_self.mpr base,rest,List.append_nil]
    at filtered
  exact filtered.symm

theorem totalSize_sum (fields : List Field) :
    totalSize fields = (fields.map fun field => field.size).sum := by
  induction fields with
  | nil => rfl
  | cons field rest ih => rw [totalSize,ih,List.map_cons,List.sum_cons]

def extensions (layout : Layout) : List Field :=
  layout.fields.dropWhile fun field => !field.isExtension

theorem fields_generations (layout : Layout) :
    layout.fields = layout.baseFields ++ layout.extensions :=
  List.takeWhile_append_dropWhile.symm

theorem payloadSize_generations (layout : Layout) :
    layout.payloadSize .v2 = layout.payloadSize .v1 + totalSize layout.extensions := by
  rw [payloadSize,payloadSize,fieldsFor,fieldsFor,layout.fields_generations,totalSize_append]

theorem Lays.inWireOrder_iff {layout : Layout} (lays : layout.Lays specs) :
    InWireOrder specs fields ↔ layout.fields = fields := by
  have own : layout.fields.Pairwise Field.Precedes := by
    rw [lays.fields_eq]
    exact wireOrder_precedes (placed_ascending specs)
  rw [Layout.inWireOrder_iff]
  constructor
  · rintro ⟨same,ordered⟩
    exact (lays.perm.trans same.symm).eq_of_pairwise
      (fun _ _ _ _ before after => (before.asymm after).elim) own ordered
  · rintro rfl
    exact ⟨lays.perm,own⟩

/-- The fields of a layout are those of the declaration in wire order, which leaves no choice.
The first generation carries the base fields and the second every field, each payload has
the size of its fields together, and a field is found under its name. -/
theorem build_inWireOrder {name : String} {id : Nat} {layout : Layout}
    (built : build name id specs = .ok layout) :
    (∀ fields, InWireOrder specs fields ↔ layout.fields = fields) ∧
      layout.fieldsFor .v1 = (layout.fields.filter fun field => !field.isExtension) ∧
      layout.fieldsFor .v2 = layout.fields ∧
      (∀ version, layout.payloadSize version =
        ((layout.fieldsFor version).map fun field => field.size).sum) ∧
      layout.payloadSize .v1 ≤ layout.payloadSize .v2 ∧ layout.payloadSize .v2 ≤ 255 ∧
      ∀ name field, layout.field? name = some field ↔
        field ∈ layout.fields ∧ field.name = name := by
  obtain ⟨_,_,lays⟩ := build_ok_iff.mp built
  have larger : layout.payloadSize .v1 ≤ layout.payloadSize .v2 := by
    rw [payloadSize_generations]
    exact Nat.le_add_right _ _
  exact ⟨fun _ => lays.inWireOrder_iff,lays.baseFields_eq,rfl,fun _ => totalSize_sum _,larger,
    lays.size_le,fun _ _ => lays.field?_eq_some_iff⟩

/-- Elements of four sizes, among them extensions whose elements are larger than those of base
fields, and an array and a text that take more room than fields in front of them. -/
theorem build_inWireOrder_mixed :
    let specs : List FieldSpec := [⟨"flag",.numeric .uint8,true,0,false⟩,
      ⟨"far",.numeric .double,false,0,true⟩,⟨"label",.char,false,9,false⟩,
      ⟨"count",.numeric .uint16,false,0,false⟩,⟨"steps",.numeric .int16,false,3,false⟩,
      ⟨"near",.numeric .int8,false,0,true⟩,⟨"time",.numeric .uint64,false,0,false⟩]
    let layout : Layout := ⟨"MIXED",7,[⟨⟨"time",.numeric .uint64,false,0,false⟩,6⟩,
      ⟨⟨"count",.numeric .uint16,false,0,false⟩,3⟩,⟨⟨"steps",.numeric .int16,false,3,false⟩,4⟩,
      ⟨⟨"flag",.numeric .uint8,true,0,false⟩,0⟩,⟨⟨"label",.char,false,9,false⟩,2⟩,
      ⟨⟨"far",.numeric .double,false,0,true⟩,1⟩,⟨⟨"near",.numeric .int8,false,0,true⟩,5⟩]⟩
    build "MIXED" 7 specs = .ok layout ∧ InWireOrder specs layout.fields ∧
      (layout.fieldsFor .v1).length = 5 ∧ layout.payloadSize .v1 = 26 ∧
      layout.payloadSize .v2 = 35 ∧
      layout.field? "far" = some ⟨⟨"far",.numeric .double,false,0,true⟩,1⟩ := by
  intro specs layout
  have built : build "MIXED" 7 specs = .ok layout := rfl
  obtain ⟨order,base,_,sizes,_,_,found⟩ := build_inWireOrder built
  refine ⟨built,(order _).mpr rfl,?_,sizes .v1,sizes .v2,(found _ _).mpr ⟨?_,rfl⟩⟩
  · rw [base]
    rfl
  · simp [layout]

end Layout

end MavPayload
