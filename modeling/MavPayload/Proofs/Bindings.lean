import MavPayload.Bindings
import Mathlib.Data.List.Nodup

/-! Laws of finite maps. A map is known by `get?`; that it has each name only once is
needed to take entries out, and is kept by every operation. -/
namespace MavPayload.Bindings

variable {α : Type}

def Distinct (map : Bindings α) : Prop :=
  (map.map Prod.fst).Nodup

theorem get?_mem {map : Bindings α} {name : String} {value : α}
    (found : map.get? name = some value) : (name,value) ∈ map := by
  induction map with
  | nil => cases found
  | cons entry rest ih =>
    obtain ⟨key,held⟩ := entry
    simp only [get?] at found
    split at found
    · rename_i same
      cases found
      simp [same]
    · exact List.mem_cons_of_mem _ (ih found)

theorem get?_eq_none {map : Bindings α} {name : String}
    (absent : name ∉ map.map Prod.fst) : map.get? name = none := by
  cases found : map.get? name with
  | none => rfl
  | some value => exact absurd (List.mem_map_of_mem (get?_mem found)) absent

theorem exists_get? {map : Bindings α} {name : String} (present : name ∈ map.map Prod.fst) :
    ∃ value, map.get? name = some value := by
  induction map with
  | nil => cases present
  | cons entry rest ih =>
    obtain ⟨key,held⟩ := entry
    simp only [get?]
    split
    · exact ⟨held,rfl⟩
    · rename_i other
      exact ih ((List.mem_cons.mp present).resolve_left (Ne.symm other))

theorem get?_of_mem {map : Bindings α} (distinct : map.Distinct) {name : String} {value : α}
    (member : (name,value) ∈ map) : map.get? name = some value := by
  induction map with
  | nil => cases member
  | cons entry rest ih =>
    obtain ⟨key,held⟩ := entry
    obtain ⟨fresh,distinct⟩ := List.nodup_cons.mp distinct
    simp only [get?]
    rcases List.mem_cons.mp member with same | member
    · cases same
      simp
    · have other : key ≠ name := by
        intro same
        exact fresh (List.mem_map.mpr ⟨_,member,same.symm⟩)
      rw [if_neg other]
      exact ih distinct member

theorem get?_append (first second : Bindings α) (name : String) :
    get? (first ++ second) name = (first.get? name).or (second.get? name) := by
  induction first with
  | nil => rfl
  | cons entry rest ih =>
    obtain ⟨key,held⟩ := entry
    simp only [List.cons_append,get?]
    split
    · rfl
    · exact ih

theorem get?_map {ι : Type} {items : List ι} {key : ι → String}
    (distinct : (items.map key).Nodup) (held : ι → α) {item : ι} (member : item ∈ items) :
    get? (items.map fun item => (key item,held item)) (key item) = some (held item) := by
  apply get?_of_mem
  · rwa [Distinct,List.map_map]
  · exact List.mem_map.mpr ⟨item,member,rfl⟩

theorem mem_insert {map : Bindings α} {name : String} {value : α} {entry : String × α}
    (member : entry ∈ map.insert name value) : entry = (name,value) ∨ entry ∈ map := by
  induction map with
  | nil => exact Or.inl (List.mem_singleton.mp member)
  | cons first rest ih =>
    obtain ⟨key,old⟩ := first
    simp only [insert] at member
    split at member
    · rename_i same
      subst same
      rcases List.mem_cons.mp member with new | member
      · exact Or.inl new
      · exact Or.inr (List.mem_cons_of_mem _ member)
    · rcases List.mem_cons.mp member with here | member
      · exact Or.inr (List.mem_cons.mpr (Or.inl here))
      · exact (ih member).imp_right (List.mem_cons_of_mem _)

theorem insert_distinct {map : Bindings α} (distinct : map.Distinct) (name : String) (value : α) :
    (map.insert name value).Distinct := by
  induction map with
  | nil => exact List.nodup_singleton _
  | cons first rest ih =>
    obtain ⟨key,old⟩ := first
    obtain ⟨fresh,distinct⟩ := List.nodup_cons.mp distinct
    simp only [insert]
    split
    · exact List.nodup_cons.mpr ⟨fresh,distinct⟩
    · rename_i other
      refine List.nodup_cons.mpr ⟨?_,ih distinct⟩
      intro member
      obtain ⟨entry,member,same⟩ := List.mem_map.mp member
      rcases mem_insert member with new | old
      · subst new
        exact other same.symm
      · exact fresh (List.mem_map.mpr ⟨entry,old,same⟩)

theorem erase_sublist (map : Bindings α) (name : String) : (map.erase name).Sublist map := by
  induction map with
  | nil => exact List.Sublist.refl _
  | cons first rest ih =>
    obtain ⟨key,old⟩ := first
    simp only [erase]
    split
    · exact List.sublist_cons_self _ _
    · exact ih.cons_cons _

theorem erase_distinct {map : Bindings α} (distinct : map.Distinct) (name : String) :
    (map.erase name).Distinct :=
  distinct.sublist ((erase_sublist map name).map _)

/-- The map after several insertions, the first of them first. -/
def insertAll (map entries : Bindings α) : Bindings α :=
  entries.foldl (fun map entry => map.insert entry.1 entry.2) map

theorem mem_insertAll {map entries : Bindings α} {entry : String × α}
    (member : entry ∈ map.insertAll entries) : entry ∈ entries ∨ entry ∈ map := by
  induction entries generalizing map with
  | nil => exact Or.inr member
  | cons first rest ih =>
    rcases ih member with later | earlier
    · exact Or.inl (List.mem_cons_of_mem _ later)
    · rcases mem_insert earlier with rfl | old
      · exact Or.inl (by simp)
      · exact Or.inr old

theorem insertAll_distinct {map : Bindings α} (distinct : map.Distinct) (entries : Bindings α) :
    (map.insertAll entries).Distinct := by
  induction entries generalizing map with
  | nil => exact distinct
  | cons first rest ih => exact ih (insert_distinct distinct _ _)

theorem get?_insertAll {map entries : Bindings α} (distinct : entries.Distinct) (name : String) :
    (map.insertAll entries).get? name = (entries.get? name).or (map.get? name) := by
  induction entries generalizing map with
  | nil => rfl
  | cons first rest ih =>
    obtain ⟨key,value⟩ := first
    obtain ⟨fresh,distinct⟩ := List.nodup_cons.mp distinct
    have later : (map.insertAll ((key,value) :: rest)) = (map.insert key value).insertAll rest := rfl
    rw [later,ih distinct,get?_insert,get?]
    split
    · rename_i same
      rw [get?_eq_none (by rwa [← same]),Option.none_or,Option.some_or]
    · rfl

end MavPayload.Bindings
