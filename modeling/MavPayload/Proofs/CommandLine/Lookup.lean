import MavPayload.CommandLine.Commands
import MavPayload.Dialect.Reader
import MavPayload.Proofs.Dialect.Construction
import MavPayload.Proofs.Text.Digits

/-! How the messages of a dialect are reached from the command line. An id reaches its message.
A name does unless it is a number, which is an id before it is a name, or changes when it is put
into upper case. -/
namespace MavPayload

namespace Dialect

/-- Whether a dialect has been made, from definitions or from a file. -/
inductive Accepted (dialect : Dialect) : Prop
  | made {name : String} {version : Nat} {definitions : List MessageDefinition} :
    ofDefinitions name version definitions = .ok dialect → Accepted dialect
  | loaded {text : String} : ofText text = .ok dialect → Accepted dialect

variable {dialect : Dialect}

theorem Accepted.exists_definitions (accepted : dialect.Accepted) :
    ∃ name version definitions, ofDefinitions name version definitions = .ok dialect := by
  cases accepted with
  | made own => exact ⟨_,_,_,own⟩
  | loaded read =>
    rw [ofText] at read
    split at read
    · rw [DialectFile.dialect,except_bind_ok_iff] at read
      obtain ⟨definitions,_,own⟩ := read
      exact ⟨_,_,definitions,own⟩
    · cases read

theorem Accepted.consistent (accepted : dialect.Accepted) : dialect.layouts.Consistent := by
  obtain ⟨_,_,_,made⟩ := accepted.exists_definitions
  obtain ⟨_,_,consistent,_⟩ := ofDefinitions_ok_iff.mp made
  exact consistent

theorem Accepted.id_le (accepted : dialect.Accepted) {layout : Layout}
    (held : layout ∈ dialect.layouts) : layout.id ≤ Layout.maxId := by
  obtain ⟨_,_,_,made⟩ := accepted.exists_definitions
  obtain ⟨_,_,_,built,all,same⟩ := ofDefinitions_ok_iff.mp made
  obtain ⟨definition,_,own⟩ := (MessageDefinition.mem_layouts all).mp (same.mem_iff.mp held)
  obtain ⟨_,_,lays⟩ := Layout.build_ok_iff.mp own
  exact lays.id_le

end Dialect

namespace CommandLine

variable {dialect : Dialect} {layout : Layout} {key : String} {id : Nat}

theorem lookup_ok_iff : lookup dialect key = .ok layout ↔
    (∃ id, Text.natural? (Nat.pow 2 32) key.toList = some id ∧ dialect.byId? id = some layout) ∨
      Text.natural? (Nat.pow 2 32) key.toList = none ∧
        dialect.byName? (String.ofList (key.toList.map Char.toUpper)) = some layout := by
  rw [lookup]
  cases Text.natural? (Nat.pow 2 32) key.toList with
  | none =>
    cases dialect.byName? (String.ofList (key.toList.map Char.toUpper)) <;> simp
  | some id => cases found : dialect.byId? id <;> simp [found]

/-- A number below the bound of ids is an id, whatever messages are called. -/
theorem lookup_numeral (consistent : dialect.layouts.Consistent)
    (numeral : Text.Numeral key.toList id) (below : id < Nat.pow 2 32) :
    lookup dialect key = .ok layout ↔ layout ∈ dialect.layouts ∧ layout.id = id := by
  have read : Text.natural? (Nat.pow 2 32) key.toList = some id :=
    Text.natural?_eq_some_iff.mpr ⟨numeral,below⟩
  rw [lookup_ok_iff,read,← consistent.byId?_eq_some_iff]
  simp [Dialect.byId?]

/-- Any other key is a name, put into upper case. -/
theorem lookup_name (consistent : dialect.layouts.Consistent)
    (noId : ∀ id, Text.Numeral key.toList id → Nat.pow 2 32 ≤ id) :
    lookup dialect key = .ok layout ↔ layout ∈ dialect.layouts ∧
      layout.name = String.ofList (key.toList.map Char.toUpper) := by
  have read : Text.natural? (Nat.pow 2 32) key.toList = none := by
    rw [Option.eq_none_iff_forall_ne_some]
    intro id read
    obtain ⟨numeral,below⟩ := Text.natural?_eq_some_iff.mp read
    exact Nat.not_lt.mpr (noId id numeral) below
  rw [lookup_ok_iff,read,← consistent.byName?_eq_some_iff]
  simp [Dialect.byName?]

theorem map_toUpper {chars : List Char} (kept : ∀ char ∈ chars, char.isLower = false) :
    chars.map Char.toUpper = chars := by
  have upper : chars.map Char.toUpper = chars.map id := by
    refine List.map_congr_left fun char member => ?_
    refine dif_neg fun range => ?_
    have lower : char.isLower = true :=
      Bool.and_eq_true_iff.mpr ⟨decide_eq_true range.1,decide_eq_true range.2⟩
    rw [kept char member] at lower
    cases lower
  rw [upper,List.map_id]

/-- A message of a dialect is reached by its id. It is reached by its name if that is in upper
case, unless the name is a number: then it is so only if the number is its own id. -/
theorem lookup_held (accepted : dialect.Accepted) (held : layout ∈ dialect.layouts) :
    lookup dialect (toString layout.id) = .ok layout ∧
    (∀ id, Text.Numeral layout.name.toList id → id < Nat.pow 2 32 →
      (lookup dialect layout.name = .ok layout ↔ layout.id = id)) ∧
    ((∀ id, Text.Numeral layout.name.toList id → Nat.pow 2 32 ≤ id) →
      (∀ char ∈ layout.name.toList, char.isLower = false) →
        lookup dialect layout.name = .ok layout) := by
  have consistent := accepted.consistent
  have small : layout.id < Nat.pow 2 32 := Nat.lt_of_le_of_lt (accepted.id_le held) (by decide)
  refine ⟨?_,?_,?_⟩
  · have numeral : Text.Numeral (toString layout.id).toList layout.id := by
      rw [Nat.toString_eq_repr,Nat.toList_repr]
      exact Text.numeral_decimal layout.id
    exact (lookup_numeral consistent numeral small).mpr ⟨held,rfl⟩
  · intro id numeral below
    rw [lookup_numeral consistent numeral below]
    exact and_iff_right held
  · intro noId kept
    rw [lookup_name consistent noId,map_toUpper kept,String.ofList_toList]
    exact ⟨held,rfl⟩

/-- A name that is a number, which is the id, and one that is not. -/
theorem lookup_held_own :
    let layout (name : String) (id : Nat) : Layout :=
      ⟨name,id,[⟨⟨"a",.numeric .uint8,false,0,false⟩,0⟩]⟩
    let dialect : Dialect := ⟨"d",0,⟨[(2,layout "+02" 2),(5,layout "UP_9" 5)],
      [("+02",2),("UP_9",5)]⟩⟩
    dialect.Accepted ∧ lookup dialect (toString 5) = .ok (layout "UP_9" 5) ∧
      lookup dialect "+02" = .ok (layout "+02" 2) ∧
      lookup dialect "UP_9" = .ok (layout "UP_9" 5) := by
  intro layout dialect
  have made : Dialect.ofDefinitions "d" 0 [⟨5,"UP_9",[⟨"a",.numeric .uint8,false,0,false⟩]⟩,
      ⟨2,"+02",[⟨"a",.numeric .uint8,false,0,false⟩]⟩] = .ok dialect := by decide
  have numeral : Text.Numeral "+02".toList 2 := (Text.natural?_eq_some_iff.mp
    (show Text.natural? 3 "+02".toList = some 2 by decide)).1
  have noId : ∀ id, Text.Numeral "UP_9".toList id → Nat.pow 2 32 ≤ id := by
    intro id numeral
    refine Nat.le_of_not_lt fun below => ?_
    have read := Text.natural?_eq_some_iff.mpr ⟨numeral,below⟩
    rw [show Text.natural? (Nat.pow 2 32) "UP_9".toList = none by decide] at read
    cases read
  have upper : ∀ char ∈ "UP_9".toList, char.isLower = false := by simp
  have heldNumber : layout "+02" 2 ∈ dialect.layouts := by decide
  have heldName : layout "UP_9" 5 ∈ dialect.layouts := by decide
  obtain ⟨_,numbered,_⟩ := lookup_held (.made made) heldNumber
  obtain ⟨byId,_,named⟩ := lookup_held (.made made) heldName
  exact ⟨.made made,byId,(numbered 2 numeral (by decide)).mpr rfl,named noId upper⟩

/-- Names that are numbers are taken for ids, which no message has or another one, and a name in
lower case is looked up in upper case. -/
theorem lookup_own_name_fails :
    let layout (name : String) (id : Nat) : Layout :=
      ⟨name,id,[⟨⟨"a",.numeric .uint8,false,0,false⟩,0⟩]⟩
    let dialect : Dialect := ⟨"d",0,⟨[(1,layout "7" 1),(2,layout "3" 2),(3,layout "2" 3),
      (4,layout "low" 4)],[("2",3),("3",2),("7",1),("low",4)]⟩⟩
    dialect.Accepted ∧
      lookup dialect "7" = .error ["message '7' is not defined in dialect d"] ∧
      lookup dialect "3" = .ok (layout "2" 3) ∧ lookup dialect "2" = .ok (layout "3" 2) ∧
      lookup dialect "low" = .error ["message 'low' is not defined in dialect d"] := by
  intro layout dialect
  have made : Dialect.ofDefinitions "d" 0 [⟨1,"7",[⟨"a",.numeric .uint8,false,0,false⟩]⟩,
      ⟨2,"3",[⟨"a",.numeric .uint8,false,0,false⟩]⟩,⟨3,"2",[⟨"a",.numeric .uint8,false,0,false⟩]⟩,
      ⟨4,"low",[⟨"a",.numeric .uint8,false,0,false⟩]⟩] = .ok dialect := by decide
  exact ⟨.made made,by decide,by decide,by decide,by decide⟩

end CommandLine

end MavPayload
