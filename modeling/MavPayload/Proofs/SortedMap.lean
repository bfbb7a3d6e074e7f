import MavPayload.SortedMap
import Mathlib.Data.List.Nodup
import Mathlib.Data.List.Perm.Basic

/-! Laws of sorted maps. A map is known by `get?` alone, since ascending keys leave its entries
no other order, and every insertion keeps them ascending. -/
namespace MavPayload.SortedMap

variable {κ α : Type} {map : SortedMap κ α} {key : κ} {value : α}

def Ascending [LT κ] (map : SortedMap κ α) : Prop :=
  map.Pairwise fun first second => first.1 < second.1

theorem Ascending.distinct [LE κ] [LT κ] [Std.LawfulOrderLT κ] [Std.IsLinearOrder κ]
    (ascending : map.Ascending) : (map.map Prod.fst).Nodup := by
  refine List.pairwise_map.mpr (ascending.imp fun before same => ?_)
  rw [same] at before
  exact Std.lt_irrefl before

variable [DecidableEq κ]

theorem mem_of_get? (found : map.get? key = some value) : (key,value) ∈ map := by
  induction map with
  | nil => cases found
  | cons entry rest ih =>
    simp only [get?] at found
    split at found
    · rename_i same
      cases found
      exact List.mem_cons.mpr (Or.inl (by rw [← same]))
    · exact List.mem_cons_of_mem _ (ih found)

theorem get?_of_mem (distinct : (map.map Prod.fst).Nodup) (member : (key,value) ∈ map) :
    map.get? key = some value := by
  induction map with
  | nil => cases member
  | cons entry rest ih =>
    obtain ⟨fresh,distinct⟩ := List.nodup_cons.mp distinct
    simp only [get?]
    rcases List.mem_cons.mp member with same | member
    · rw [← same,if_pos rfl]
    · rw [if_neg fun same => fresh (List.mem_map.mpr ⟨_,member,same.symm⟩)]
      exact ih distinct member

theorem get?_eq_none_iff : map.get? key = none ↔ key ∉ map.map Prod.fst := by
  induction map with
  | nil => simp [get?]
  | cons entry rest ih =>
    rw [get?,List.map_cons,List.mem_cons,not_or,← ih]
    split
    · rename_i same
      simp [same]
    · rename_i other
      exact (and_iff_right (Ne.symm other)).symm

section

variable [LT κ] [DecidableLT κ]

theorem get?_insert (map : SortedMap κ α) (key : κ) (value : α) (other : κ) :
    (map.insert key value).get? other = if key = other then some value else map.get? other := by
  induction map with
  | nil => rfl
  | cons entry rest ih =>
    obtain ⟨present,old⟩ := entry
    rw [insert]
    split
    · rfl
    split
    · rename_i same
      subst same
      simp only [get?]
      split <;> rfl
    · rename_i different
      simp only [get?,ih]
      split
      · rename_i same
        rw [if_neg fun equal => different (equal.trans same.symm)]
      · rfl

theorem mem_insert {entry : κ × α} (member : entry ∈ map.insert key value) :
    entry = (key,value) ∨ entry ∈ map := by
  induction map with
  | nil => exact Or.inl (List.mem_singleton.mp member)
  | cons first rest ih =>
    rw [insert] at member
    split at member
    · exact List.mem_cons.mp member
    split at member
    · exact (List.mem_cons.mp member).imp_right (List.mem_cons_of_mem _)
    · rcases List.mem_cons.mp member with here | later
      · exact Or.inr (List.mem_cons.mpr (Or.inl here))
      · exact (ih later).imp_right (List.mem_cons_of_mem _)

theorem insert_perm (fresh : key ∉ map.map Prod.fst) (value : α) :
    (map.insert key value).Perm ((key,value) :: map) := by
  induction map with
  | nil => exact List.Perm.refl _
  | cons first rest ih =>
    obtain ⟨other,old⟩ := first
    simp only [List.map_cons,List.mem_cons,not_or] at fresh
    rw [insert]
    split
    · exact List.Perm.refl _
    · rw [if_neg fresh.1]
      exact ((ih fresh.2).cons _).trans (List.Perm.swap ..)

end

variable [LE κ] [LT κ] [Std.LawfulOrderLT κ] [Std.IsLinearOrder κ]

theorem Ascending.insert [DecidableLT κ] (ascending : map.Ascending) (key : κ) (value : α) :
    (map.insert key value).Ascending := by
  induction map with
  | nil => exact List.pairwise_singleton _ _
  | cons first rest ih =>
    obtain ⟨least,later⟩ := List.pairwise_cons.mp ascending
    rw [SortedMap.insert]
    split
    · rename_i before
      refine List.pairwise_cons.mpr ⟨fun entry member => ?_,ascending⟩
      rcases List.mem_cons.mp member with rfl | member
      · exact before
      · exact Std.lt_trans before (least entry member)
    split
    · rename_i same
      subst same
      exact List.pairwise_cons.mpr ⟨least,later⟩
    · rename_i notBefore different
      refine List.pairwise_cons.mpr ⟨fun entry member => ?_,ih later⟩
      rcases mem_insert member with rfl | member
      · exact Std.lt_of_le_of_ne (Std.not_lt.mp notBefore) (Ne.symm different)
      · exact least entry member

theorem Ascending.get?_eq_some_iff (ascending : map.Ascending) :
    map.get? key = some value ↔ (key,value) ∈ map :=
  ⟨mem_of_get?,get?_of_mem ascending.distinct⟩

theorem Ascending.ext {other : SortedMap κ α} (ascending : map.Ascending)
    (otherAscending : other.Ascending) (same : ∀ key, map.get? key = other.get? key) :
    map = other := by
  have perm : map.Perm other := by
    rw [List.perm_ext_iff_of_nodup (ascending.distinct.of_map _) (otherAscending.distinct.of_map _)]
    intro entry
    rw [← ascending.get?_eq_some_iff,same,otherAscending.get?_eq_some_iff]
  exact perm.eq_of_pairwise
    (fun _ _ _ _ before after => absurd (Std.lt_trans before after) Std.lt_irrefl)
    ascending otherAscending

end MavPayload.SortedMap
