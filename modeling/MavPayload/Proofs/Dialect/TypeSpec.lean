import MavPayload.Dialect.Reader
import MavPayload.Proofs.Sequence
import MavPayload.Proofs.Text.Blank
import MavPayload.Proofs.Text.Digits

/-! How types are spelled in definition files. The grammar of spellings is stated without the
reader, which takes these and no others, so that fields can be declared as text or as they are. -/
namespace MavPayload

namespace TypeSpec

/-- Whether a type has a name. The protocol's own version byte has a second one. -/
inductive Names : List Char → FieldType → Prop
  | wire (type : FieldType) : Names type.wireName.toList type
  | version : Names "uint8_t_mavlink_version".toList (.numeric .uint8)

/-- Whether some characters are a name, or a name with a length in brackets behind it. -/
inductive Spells : List Char → FieldType → Nat → Prop
  | single {name : List Char} {type : FieldType} : Names name type → Spells name type 0
  | array {name before inner number after : List Char} {type : FieldType} {length : Nat} :
    Names name type → (∀ char ∈ before, Text.isBlank char = true) →
    (∀ char ∈ inner, Text.isBlank char = true) → Text.Numeral number length →
    (∀ char ∈ after, Text.isBlank char = true) → 1 ≤ length → length < Nat.pow 2 64 →
    Spells (name ++ before ++ '[' :: (inner ++ number ++ after ++ [']'])) type length

/-- Whether a text spells a type and a length, once the blanks at its ends are cut off. -/
def IsSpelling (spec : String) (type : FieldType) (length : Nat) : Prop :=
  ∃ front chars back, spec.toList = front ++ chars ++ back ∧
    (∀ char ∈ front, Text.isBlank char = true) ∧ (∀ char ∈ back, Text.isBlank char = true) ∧
    Spells chars type length

variable {name chars rest : List Char} {type : FieldType} {length : Nat}

theorem base?_eq_some_iff : base? name = some type ↔ Names name type := by
  constructor
  · intro read
    rw [base?,FieldType.ofWireName?] at read
    split at read
    · rename_i version
      cases read
      rw [← String.toList_ofList (l := name),version]
      exact .version
    · have named : type.wireName = String.ofList name := by simpa using List.find?_some read
      rw [← String.toList_ofList (l := name),← named]
      exact .wire type
  · intro names
    cases names with
    | wire =>
      rw [base?,String.ofList_toList]
      cases type with
      | numeric type => cases type <;> rfl
      | char => rfl
    | version => rfl

theorem Names.plain (names : Names name type) :
    name ≠ [] ∧ ∀ char ∈ name, Text.isBlank char = false ∧ char ≠ '[' := by
  have all : name ≠ [] ∧ (name.all fun char => !Text.isBlank char && char != '[') = true := by
    cases names with
    | wire =>
      cases type with
      | numeric type => cases type <;> decide
      | char => decide
    | version => decide
  simpa using all

theorem Names.nonempty (names : Names name type) : name ≠ [] :=
  names.plain.1

theorem Names.visible (names : Names name type) : ∀ char ∈ name, Text.isBlank char = false :=
  fun char member => (names.plain.2 char member).1

theorem Names.no_bracket (names : Names name type) : '[' ∉ name :=
  fun member => (names.plain.2 _ member).2 rfl

theorem Spells.ends (spells : Spells chars type length) :
    (∀ char ∈ chars.head?, Text.isBlank char = false) ∧
      ∀ char ∈ chars.getLast?, Text.isBlank char = false := by
  cases spells with
  | single names => exact Text.ends_visible names.visible
  | array names =>
    obtain ⟨first,_⟩ := Text.ends_visible names.visible
    constructor
    · rwa [List.append_assoc,List.head?_append_of_ne_nil _ names.nonempty]
    · intro char last
      rw [← List.cons_append,← List.append_assoc,List.getLast?_concat,Option.mem_some_iff] at last
      rw [← last]
      decide

theorem length?_eq_some_iff : length? rest = some length ↔ ∃ inner number after,
    rest = inner ++ number ++ after ++ [']'] ∧ (∀ char ∈ inner, Text.isBlank char = true) ∧
      Text.Numeral number length ∧ (∀ char ∈ after, Text.isBlank char = true) ∧
      1 ≤ length ∧ length < Nat.pow 2 64 := by
  constructor
  · intro read
    rw [length?] at read
    split at read
    · rename_i inner reversed
      rw [Option.filter_eq_some_iff,Text.natural?_eq_some_iff,decide_eq_true_eq] at read
      obtain ⟨⟨numeral,below⟩,positive⟩ := read
      obtain ⟨front,back,split,blankFront,blankBack⟩ := Text.exists_trim inner.reverse
      refine ⟨front,_,back,?_,blankFront,numeral,blankBack,positive,below⟩
      rw [← split,← List.reverse_cons,← reversed,List.reverse_reverse]
    · cases read
  · rintro ⟨inner,number,after,rfl,blankInner,numeral,blankAfter,positive,below⟩
    obtain ⟨first,last⟩ := Text.ends_visible numeral.visible
    have number : Text.trim (inner ++ number ++ after) = number :=
      Text.trim_between first last blankInner blankAfter
    rw [length?,List.reverse_append,List.reverse_singleton,List.singleton_append]
    simp only [List.reverse_reverse,number]
    rw [Option.filter_eq_some_iff,Text.natural?_eq_some_iff,decide_eq_true_eq]
    exact ⟨⟨numeral,below⟩,positive⟩

theorem parse?_plain {spec : String} (plain : '[' ∉ Text.trim spec.toList) :
    parse? spec = some (type,length) ↔
      base? (Text.trim spec.toList) = some type ∧ length = 0 := by
  have nothing : (Text.trim spec.toList).dropWhile (· != '[') = [] := by
    rw [List.dropWhile_eq_nil_iff]
    intro char member
    exact bne_iff_ne.mpr fun same => plain (same ▸ member)
  rw [parse?,nothing]
  simp only [Option.bind_eq_bind,Option.bind_eq_some_iff,Option.pure_def,Option.some.injEq,
    Prod.mk.injEq]
  constructor
  · rintro ⟨_,base,rfl,rfl⟩
    exact ⟨base,rfl⟩
  · rintro ⟨base,rfl⟩
    exact ⟨_,base,rfl,rfl⟩

theorem parse?_bracket {spec : String} {written : List Char}
    (cut : Text.trim spec.toList = written ++ '[' :: rest) (plain : '[' ∉ written) :
    parse? spec = some (type,length) ↔
      base? (Text.trim written) = some type ∧ length? rest = some length := by
  have before : ∀ char ∈ written, (char != '[') = true :=
    fun char member => bne_iff_ne.mpr fun same => plain (same ▸ member)
  have kept : (written ++ '[' :: rest).takeWhile (· != '[') = written := by
    rw [List.takeWhile_append_of_pos before]
    simp
  have bracket : (Text.trim spec.toList).dropWhile (· != '[') = '[' :: rest := by
    rw [cut,List.dropWhile_append_of_pos before]
    simp
  rw [parse?,bracket,cut,kept]
  simp only [Option.bind_eq_bind,Option.bind_eq_some_iff,Option.pure_def,Option.some.injEq,
    Prod.mk.injEq]
  constructor
  · rintro ⟨_,length,_,base,rfl,rfl⟩
    exact ⟨base,length⟩
  · rintro ⟨base,length⟩
    exact ⟨_,length,_,base,rfl,rfl⟩

theorem parse?_eq_some_iff {spec : String} :
    parse? spec = some (type,length) ↔ IsSpelling spec type length := by
  constructor
  · intro read
    obtain ⟨front,back,split,blankFront,blankBack⟩ := Text.exists_trim spec.toList
    by_cases bracket : '[' ∈ Text.trim spec.toList
    · obtain ⟨written,rest,cut,plain⟩ := List.eq_append_cons_of_mem bracket
      obtain ⟨base,length⟩ := (parse?_bracket cut plain).mp read
      obtain ⟨inner,number,after,rfl,blankInner,numeral,blankAfter,positive,below⟩ :=
        length?_eq_some_iff.mp length
      obtain ⟨start,before,framed,blankStart,blankBefore⟩ := Text.exists_trim written
      refine ⟨front ++ start,_,back,?_,List.forall_mem_append.mpr ⟨blankFront,blankStart⟩,
        blankBack,.array (base?_eq_some_iff.mp base) blankBefore blankInner numeral blankAfter
          positive below⟩
      rw [split,cut]
      nth_rewrite 1 [framed]
      simp only [List.append_assoc]
    · obtain ⟨base,rfl⟩ := (parse?_plain bracket).mp read
      exact ⟨front,_,back,split,blankFront,blankBack,.single (base?_eq_some_iff.mp base)⟩
  · rintro ⟨front,chars,back,split,blankFront,blankBack,spells⟩
    obtain ⟨first,last⟩ := spells.ends
    have trimmed : Text.trim spec.toList = chars := by
      rw [split,Text.trim_between first last blankFront blankBack]
    cases spells with
    | single names =>
      rw [parse?_plain (trimmed ▸ names.no_bracket),trimmed]
      exact ⟨base?_eq_some_iff.mpr names,rfl⟩
    | @array name before inner number after _ _ names blankBefore blankInner numeral blankAfter
        positive below =>
      have noBracket : '[' ∉ name ++ before := by
        intro member
        rcases List.mem_append.mp member with member | member
        · exact names.no_bracket member
        · cases blankBefore _ member
      obtain ⟨first,last⟩ := Text.ends_visible names.visible
      have name : Text.trim (name ++ before) = name :=
        Text.trim_append_blanks first last blankBefore
      rw [parse?_bracket trimmed noBracket,name]
      exact ⟨base?_eq_some_iff.mpr names,length?_eq_some_iff.mpr
        ⟨inner,number,after,rfl,blankInner,numeral,blankAfter,positive,below⟩⟩

/-- A type as its name, with the length in brackets if it is an array. -/
def spell (type : FieldType) (length : Nat) : String :=
  if length = 0 then type.wireName else type.wireName ++ "[" ++ toString length ++ "]"

theorem spell_isSpelling (type : FieldType) (fits : length < Nat.pow 2 64) :
    IsSpelling (spell type length) type length := by
  refine ⟨[],(spell type length).toList,[],by simp,by simp,by simp,?_⟩
  rw [spell]
  split
  · rename_i single
    rw [single]
    exact .single (.wire type)
  · rename_i positive
    have spells : Spells (type.wireName.toList ++ [] ++ '[' ::
        ([] ++ Text.decimal length ++ [] ++ [']'])) type length :=
      .array (.wire type) (by simp) (by simp) (Text.numeral_decimal length) (by simp)
        (Nat.pos_of_ne_zero positive) fits
    simpa [Nat.toString_eq_repr,Nat.toList_repr,Text.decimal] using spells

end TypeSpec

/-- Whether an entry declares a field, its type spelled in any of the ways that there are. -/
structure FieldEntry.Declares (entry : FieldEntry) (field : FieldSpec) : Prop where
  name_eq : entry.name = field.name
  isEnum_eq : entry.enumName.isSome = field.isEnum
  isExtension_eq : entry.isExtension = field.isExtension
  spelled : TypeSpec.IsSpelling entry.type field.type field.length

structure MessageEntry.Declares (entry : MessageEntry) (definition : MessageDefinition) : Prop where
  id_eq : entry.id = definition.id
  name_eq : entry.name = definition.name
  fields : List.Forall₂ FieldEntry.Declares entry.fields definition.fields

theorem FieldEntry.spec_ok_iff {entry : FieldEntry} {field : FieldSpec} {message : String} :
    entry.spec message = .ok field ↔ entry.Declares field := by
  constructor
  · intro ok
    rw [spec] at ok
    split at ok
    · rename_i read
      cases ok
      exact ⟨rfl,rfl,rfl,TypeSpec.parse?_eq_some_iff.mp read⟩
    · cases ok
  · rintro ⟨name,isEnum,isExtension,spelled⟩
    rw [spec,TypeSpec.parse?_eq_some_iff.mpr spelled,name,isEnum,isExtension]

theorem MessageEntry.definition_ok_iff {entry : MessageEntry} {definition : MessageDefinition} :
    entry.definition = .ok definition ↔ entry.Declares definition := by
  rw [MessageEntry.definition,except_bind_ok_iff]
  constructor
  · rintro ⟨fields,all,done⟩
    cases done
    exact ⟨rfl,rfl,(mapM_ok_iff.mp all).imp fun _ _ => FieldEntry.spec_ok_iff.mp⟩
  · rintro ⟨id,name,fields⟩
    refine ⟨definition.fields,mapM_ok_iff.mpr (fields.imp fun _ _ =>
      FieldEntry.spec_ok_iff.mpr),?_⟩
    rw [id,name]
    rfl

/-- Types are read as they are spelled, from every spelling of theirs and from nothing else, so
a declaration in a file is the one that is given as it is, and has the same layout. -/
theorem TypeSpec.spellings_read :
    (∀ spec type length, parse? spec = some (type,length) ↔ IsSpelling spec type length) ∧
    (∀ type length, length < Nat.pow 2 64 → parse? (spell type length) = some (type,length)) ∧
    ∀ (entry : MessageEntry) (definition : MessageDefinition), entry.Declares definition →
      entry.definition = .ok definition ∧
        entry.definition >>= MessageDefinition.layout = definition.layout := by
  refine ⟨fun _ _ _ => parse?_eq_some_iff,
    fun type _ fits => parse?_eq_some_iff.mpr (spell_isSpelling type fits),?_⟩
  intro entry definition declares
  have read := MessageEntry.definition_ok_iff.mpr declares
  exact ⟨read,by rw [read]; rfl⟩

example : TypeSpec.parse? " float [ +04 ] " = some (.numeric .float,4) := by decide

example : TypeSpec.parse? "float[4]x" = none ∧ TypeSpec.parse? "float[[4]]" = none ∧
    TypeSpec.parse? "float[0]" = none := by decide

end MavPayload
