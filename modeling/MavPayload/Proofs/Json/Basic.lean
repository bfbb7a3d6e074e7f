import MavPayload.Json.Basic
import MavPayload.Proofs.Bindings
import MavPayload.Proofs.SortedMap
import Mathlib.Data.List.Perm.Basic

/-! Entries of objects. Sorting them keeps the last one of each key. -/
namespace MavPayload.Json

theorem sortedEntries_perm {entries : List (String × Json)}
    (distinct : (entries.map Prod.fst).Nodup) : (sortedEntries entries).Perm entries := by
  have placed (sorted : List (String × Json)) (distinct : ((sorted ++ entries).map Prod.fst).Nodup) :
      (entries.foldl (fun sorted (entry : String × Json) =>
        SortedMap.insert sorted entry.1 entry.2) sorted).Perm (sorted ++ entries) := by
    clear * - distinct
    induction entries generalizing sorted with
    | nil => simp
    | cons first rest ih =>
      have moved : (sorted ++ first :: rest).Perm (first :: sorted ++ rest) := List.perm_middle
      have apart := (moved.map Prod.fst).nodup_iff.mp distinct
      have fresh : first.1 ∉ sorted.map Prod.fst := by
        rw [List.cons_append,List.map_cons,List.nodup_cons,List.map_append,List.mem_append,
          not_or] at apart
        exact apart.1.1
      have one := SortedMap.insert_perm fresh first.2
      have both := one.append_right rest
      exact ((ih _ ((both.map Prod.fst).nodup_iff.mpr apart)).trans both).trans moved.symm
  exact placed [] distinct

/-- The value of a key. Of several entries with one key the last one counts. -/
def lookup? (key : String) : List (String × Json) → Option Json
  | [] => none
  | (other,value) :: rest => (lookup? key rest).or (if other = key then some value else none)

theorem get?_sorted {α : Type} (sorted : SortedMap String α) (key : String) :
    SortedMap.get? sorted key = Bindings.get? sorted key := by
  induction sorted with
  | nil => rfl
  | cons first rest ih => simp only [SortedMap.get?,Bindings.get?,ih]

theorem get?_sortedEntries (entries : List (String × Json)) (key : String) :
    Bindings.get? (sortedEntries entries) key = lookup? key entries := by
  have placed (sorted : List (String × Json)) :
      Bindings.get? (entries.foldl (fun sorted (entry : String × Json) =>
        SortedMap.insert sorted entry.1 entry.2) sorted) key =
          (lookup? key entries).or (Bindings.get? sorted key) := by
    induction entries generalizing sorted with
    | nil => rfl
    | cons first rest ih =>
      rw [List.foldl_cons,ih,← get?_sorted,SortedMap.get?_insert,get?_sorted,lookup?,
        Option.or_assoc]
      split <;> rfl
  exact (placed []).trans (Option.or_none ..)

theorem sortedEntries_ascending (entries : List (String × Json)) :
    SortedMap.Ascending (sortedEntries entries) := by
  have placed (sorted : List (String × Json)) (ascending : SortedMap.Ascending sorted) :
      SortedMap.Ascending (entries.foldl (fun sorted (entry : String × Json) =>
        SortedMap.insert sorted entry.1 entry.2) sorted) := by
    induction entries generalizing sorted with
    | nil => exact ascending
    | cons first rest ih => exact ih _ (ascending.insert _ _)
  exact placed [] List.Pairwise.nil

theorem sortedEntries_distinct (entries : List (String × Json)) :
    Bindings.Distinct (sortedEntries entries) :=
  (sortedEntries_ascending entries).distinct

theorem mem_sortedEntries {entries : List (String × Json)} {key : String} {value : Json} :
    (key,value) ∈ sortedEntries entries ↔ lookup? key entries = some value := by
  rw [← get?_sortedEntries]
  exact ⟨Bindings.get?_of_mem (sortedEntries_distinct entries),Bindings.get?_mem⟩

theorem lookup?_eq_get? {entries : List (String × Json)} (distinct : Bindings.Distinct entries)
    (key : String) : lookup? key entries = Bindings.get? entries key := by
  apply Option.ext
  intro value
  rw [← mem_sortedEntries,(sortedEntries_perm distinct).mem_iff]
  exact ⟨Bindings.get?_of_mem distinct,Bindings.get?_mem⟩

theorem lookup?_sortedEntries (entries : List (String × Json)) (key : String) :
    lookup? key (sortedEntries entries) = lookup? key entries := by
  rw [lookup?_eq_get? (sortedEntries_distinct entries),get?_sortedEntries]

end MavPayload.Json
