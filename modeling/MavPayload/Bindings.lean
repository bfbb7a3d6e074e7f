/-!
Finite maps from names, as lists of pairs in order of their first entry. A name occurs at
most once in a map that starts empty and grows by `insert`.
-/

namespace MavPayload

abbrev Bindings (α : Type) := List (String × α)

namespace Bindings

variable {α : Type}

def get? : Bindings α → String → Option α
  | [],_ => none
  | (key,value) :: rest,name => if key = name then some value else get? rest name

def insert : Bindings α → String → α → Bindings α
  | [],name,value => [(name,value)]
  | (key,old) :: rest,name,value =>
    if key = name then (key,value) :: rest else (key,old) :: insert rest name value

def erase : Bindings α → String → Bindings α
  | [],_ => []
  | (key,value) :: rest,name => if key = name then rest else (key,value) :: erase rest name

@[simp] theorem get?_nil (name : String) : get? ([] : Bindings α) name = none := rfl

theorem get?_insert (map : Bindings α) (name other : String) (value : α) :
    get? (insert map name value) other = if name = other then some value else get? map other := by
  induction map with
  | nil => simp [insert,get?]
  | cons entry rest ih =>
    obtain ⟨key,old⟩ := entry
    by_cases h : key = name
    · subst h
      by_cases ho : key = other <;> simp [insert,get?,ho]
    · by_cases ho : key = other
      · subst ho
        simp [insert,get?,h,Ne.symm h]
      · simp [insert,get?,h,ho,ih]

end Bindings

end MavPayload
