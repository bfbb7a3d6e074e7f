import MavPayload.Proofs.Json.Basic

/-! Validation by a JSON Schema, in the keywords by which the schemas of layouts constrain
documents and in the forms that they have there: the name of one type, and one schema for
all items. Any other keyword is an annotation. -/
namespace MavPayload

def Binary.Format.rational (format : Format) (pattern : Nat) : Rat :=
  let size := format.value (format.magnitude pattern)
  if format.isNegative pattern then -size else size

namespace Json

def Number.value : Number → Rat
  | .integer value _ => value
  | .float bits _ => Binary.Format.double.rational bits.toNat

@[simp] theorem Number.value_integer (value : Int) (inRange : InRange value) :
    (Number.integer value inRange).value = value :=
  rfl

def member? (key : String) : Json → Option Json
  | .object entries => lookup? key entries
  | _ => none

def asNumber? : Json → Option Number
  | .number quantity => some quantity
  | _ => none

/-- The numbers in a value that is one or an array. -/
def numbers : Json → List Number
  | .number quantity => [quantity]
  | .array items => items.filterMap asNumber?
  | _ => []

/-- Whether a value has the type of a name. A number is an integer by its value, however it
is written. -/
def isOfType (name : String) : Json → Bool
  | .null => name == "null"
  | .bool _ => name == "boolean"
  | .number quantity => name == "number" || (name == "integer" && quantity.value.isInt)
  | .string _ => name == "string"
  | .array _ => name == "array"
  | .object _ => name == "object"

section

variable (schema : Json)

def admitsType (value : Json) : Bool :=
  match schema.member? "type" with
  | some (.string name) => value.isOfType name
  | _ => true

def bound? (keyword : String) : Option Rat :=
  match schema.member? keyword with
  | some (.number bound) => some bound.value
  | _ => none

def admitsRange : Json → Bool
  | .number quantity =>
    (schema.bound? "minimum").all (fun least => least ≤ quantity.value) &&
      (schema.bound? "maximum").all fun greatest => quantity.value ≤ greatest
  | _ => true

/-- Whether a schema admits a value, whatever the value contains. A schema may be a boolean,
which admits everything or nothing. -/
def admits (value : Json) : Bool :=
  match schema with
  | .bool always => always
  | _ => admitsType schema value && admitsRange schema value

def itemSchema : Json :=
  (schema.member? "items").getD (.bool true)

/-- The schema for the entry of a key: that of the property, or else the one for all keys
that are no properties. -/
def memberSchema (key : String) : Json :=
  ((schema.member? "properties").bind (member? key)).getD
    ((schema.member? "additionalProperties").getD (.bool true))

end

mutual

def validates (schema : Json) : Json → Bool
  | .array items => schema.admits (.array items) && validatesItems schema.itemSchema items
  | .object entries => schema.admits (.object entries) && validatesEntries schema entries
  | .null => schema.admits .null
  | .bool value => schema.admits (.bool value)
  | .number quantity => schema.admits (.number quantity)
  | .string text => schema.admits (.string text)

def validatesItems (schema : Json) : List Json → Bool
  | [] => true
  | item :: rest => validates schema item && validatesItems schema rest

/-- An entry whose key comes again is not one of the object. -/
def validatesEntries (schema : Json) : List (String × Json) → Bool
  | [] => true
  | (key,value) :: rest =>
    ((lookup? key rest).isSome || validates (schema.memberSchema key) value) &&
      validatesEntries schema rest

end

variable {schema : Json}

theorem validatesItems_iff {items : List Json} :
    schema.validatesItems items = true ↔ ∀ item ∈ items, schema.validates item = true := by
  induction items with
  | nil => simp [validatesItems]
  | cons item rest ih => rw [validatesItems,Bool.and_eq_true,ih,List.forall_mem_cons]

theorem validatesEntries_iff {entries : List (String × Json)} :
    schema.validatesEntries entries = true ↔ ∀ key value, lookup? key entries = some value →
      (schema.memberSchema key).validates value = true := by
  induction entries with
  | nil => simp [validatesEntries,lookup?]
  | cons first rest ih =>
    obtain ⟨key,value⟩ := first
    rw [validatesEntries,Bool.and_eq_true,Bool.or_eq_true,ih]
    -- The first entry counts only if its key does not come again.
    constructor
    · rintro ⟨here,later⟩ other found held
      rw [lookup?] at held
      rcases Option.or_eq_some_iff.mp held with again | ⟨last,same⟩
      · exact later other found again
      · split at same
        · rename_i equal
          cases same
          subst equal
          rw [last] at here
          exact here.resolve_left (by simp)
        · cases same
    · intro all
      refine ⟨?_,fun other found held => all other found (by rw [lookup?,held,Option.some_or])⟩
      cases again : lookup? key rest with
      | some _ => exact Or.inl rfl
      | none => exact Or.inr (all key value (by rw [lookup?,again,Option.none_or,if_pos rfl]))

theorem validates_array {items : List Json} :
    schema.validates (.array items) = true ↔ schema.admits (.array items) = true ∧
      ∀ item ∈ items, schema.itemSchema.validates item = true := by
  rw [validates,Bool.and_eq_true,validatesItems_iff]

theorem validates_object {entries : List (String × Json)} :
    schema.validates (.object entries) = true ↔ schema.admits (.object entries) = true ∧
      ∀ key value, lookup? key entries = some value →
        (schema.memberSchema key).validates value = true := by
  rw [validates,Bool.and_eq_true,validatesEntries_iff]

theorem validates_never (value : Json) : (Json.bool false).validates value = false := by
  cases value <;> rfl

section

variable {keys others : List (String × Json)} {key : String} {value : Json}

theorem member?_ofEntries (keys : List (String × Json)) (key : String) :
    (ofEntries keys).member? key = lookup? key keys :=
  lookup?_sortedEntries keys key

theorem admits_ofEntries (keys : List (String × Json)) (value : Json) :
    (ofEntries keys).admits value =
      ((ofEntries keys).admitsType value && (ofEntries keys).admitsRange value) :=
  rfl

theorem admitsType_ofEntries {name : String} (typed : lookup? "type" keys = some (.string name))
    (value : Json) : (ofEntries keys).admitsType value = value.isOfType name := by
  rw [admitsType,member?_ofEntries,typed]

def keywords : List String :=
  ["type","minimum","maximum","items","properties","additionalProperties"]

theorem validates_congr
    (same : ∀ keyword ∈ keywords, lookup? keyword keys = lookup? keyword others)
    (value : Json) : (ofEntries keys).validates value = (ofEntries others).validates value := by
  have member (keyword : String) (known : keyword ∈ keywords) :
      (ofEntries keys).member? keyword = (ofEntries others).member? keyword := by
    rw [member?_ofEntries,member?_ofEntries,same keyword known]
  have ranges (value : Json) : (ofEntries keys).admitsRange value =
      (ofEntries others).admitsRange value := by
    cases value with
    | number quantity =>
      simp only [admitsRange,bound?,member "minimum" (by simp [keywords]),
        member "maximum" (by simp [keywords])]
    | _ => rfl
  have whole (value : Json) : (ofEntries keys).admits value = (ofEntries others).admits value := by
    rw [admits_ofEntries,admits_ofEntries,ranges,admitsType,admitsType,
      member "type" (by simp [keywords])]
  cases value with
  | array items =>
    rw [validates,validates,whole,itemSchema,itemSchema,member "items" (by simp [keywords])]
  | object entries =>
    have schemas (key : String) :
        (ofEntries keys).memberSchema key = (ofEntries others).memberSchema key := by
      rw [memberSchema,memberSchema,member "properties" (by simp [keywords]),
        member "additionalProperties" (by simp [keywords])]
    rw [Bool.eq_iff_iff,validates_object,validates_object,whole]
    simp only [schemas]
  | _ => simp only [validates,whole]

theorem validates_note (unknown : key ∉ keywords) (note : Json) :
    (ofEntries ((key,note) :: keys)).validates value = (ofEntries keys).validates value := by
  apply validates_congr
  intro keyword known
  have different : key ≠ keyword := fun equal => unknown (equal ▸ known)
  rw [lookup?,if_neg different,Option.or_none]

theorem validates_string (typed : lookup? "type" keys = some (.string "string")) :
    (ofEntries keys).validates value = true ↔ ∃ text, value = .string text := by
  cases value <;> simp [validates,admits_ofEntries,admitsType_ofEntries typed,isOfType,admitsRange]

theorem validates_number (typed : lookup? "type" keys = some (.string "number"))
    (minimum : lookup? "minimum" keys = none) (maximum : lookup? "maximum" keys = none) :
    (ofEntries keys).validates value = true ↔ ∃ quantity, value = .number quantity := by
  cases value with
  | number quantity =>
    rw [validates,admits_ofEntries,admitsType_ofEntries typed]
    simp [isOfType,admitsRange,bound?,member?_ofEntries,minimum,maximum]
  | _ => simp [validates,admits_ofEntries,admitsType_ofEntries typed,isOfType]

theorem validates_integer {least greatest : Number}
    (typed : lookup? "type" keys = some (.string "integer"))
    (minimum : lookup? "minimum" keys = some (.number least))
    (maximum : lookup? "maximum" keys = some (.number greatest)) :
    (ofEntries keys).validates value = true ↔ ∃ quantity, value = .number quantity ∧
      quantity.value.isInt = true ∧ least.value ≤ quantity.value ∧
      quantity.value ≤ greatest.value := by
  cases value with
  | number quantity =>
    rw [validates,admits_ofEntries,admitsType_ofEntries typed]
    simp [isOfType,admitsRange,bound?,member?_ofEntries,minimum,maximum]
  | _ => simp [validates,admits_ofEntries,admitsType_ofEntries typed,isOfType]

theorem validates_items {item : Json} (typed : lookup? "type" keys = some (.string "array"))
    (all : lookup? "items" keys = some item) :
    (ofEntries keys).validates value = true ↔
      ∃ items, value = .array items ∧ ∀ part ∈ items, item.validates part = true := by
  have schema : (ofEntries keys).itemSchema = item := by
    rw [itemSchema,member?_ofEntries,all,Option.getD_some]
  cases value with
  | array items =>
    rw [validates_array,admits_ofEntries,admitsType_ofEntries typed,schema]
    simp [isOfType,admitsRange]
  | _ => simp [validates,admits_ofEntries,admitsType_ofEntries typed,isOfType]

theorem validates_members (typed : lookup? "type" keys = some (.string "object")) :
    (ofEntries keys).validates value = true ↔ ∃ entries, value = .object entries ∧
      ∀ key part, lookup? key entries = some part →
        ((ofEntries keys).memberSchema key).validates part = true := by
  cases value with
  | object entries =>
    rw [validates_object,admits_ofEntries,admitsType_ofEntries typed]
    simp [isOfType,admitsRange]
  | _ => simp [validates,admits_ofEntries,admitsType_ofEntries typed,isOfType]

end

end Json

end MavPayload
