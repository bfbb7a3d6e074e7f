import MavPayload.Proofs.Message.Operations

/-! A message that is changed in place. An operation goes through its steps on the message
itself, and where a step fails the message stays as the steps before it have left it. Each
operation turns out to be the one on values, and to leave the message alone if it fails. -/
namespace MavPayload.Message

/-- Steps on a message, of which the first that fails ends all. -/
abbrev InPlace (α : Type) : Type :=
  EStateM Error Message α

namespace InPlace

def field (name : String) : InPlace Field := do
  liftExcept ((← get).fieldOf name)

def store (name : String) (value : Value) : InPlace Unit :=
  modify fun message => { message with values := message.values.insert name value }

def set (name : String) (value : Value) : InPlace Unit := do
  let field ← field name
  if value.matchesField field.toFieldSpec then store field.name value
  else throw (.typeMismatch name (.field field.type field.length))

def stage (entry : String × Json) : InPlace (String × Value) := do
  let field ← field entry.1
  return (field.name,← liftExcept (field.ofJson entry.2))

def assign : Json → InPlace Unit
  | .object entries => do
    let staged ← (Json.sortedEntries entries).mapM stage
    staged.forM fun entry => store entry.1 entry.2
  | _ => throw (.typeMismatch rootName .object)

def unmarshal (text : String) : InPlace Unit :=
  match Json.ofText? text with
  | some json => assign json
  | none => throw .malformedJson

end InPlace

/-- An operation that a program may ask for on a message. -/
inductive Call where
  | set (name : String) (value : Value)
  | clear (name : String)
  | assign (json : Json)

def Call.run : Call → InPlace Unit
  | .set name value => InPlace.set name value
  | .clear name => modify fun message => message.clear name
  | .assign json => InPlace.assign json

def Call.apply (message : Message) : Call → Except Error Message
  | .set name value => message.set name value
  | .clear name => .ok (message.clear name)
  | .assign json => message.assign json

def perform (message : Message) (call : Call) : Message :=
  match call.run message with
  | .ok _ next => next
  | .error _ next => next

def after (message : Message) (calls : List Call) : Message :=
  calls.foldl perform message

/-- An outcome beside a message that has not changed. -/
def InPlace.unchanged {α : Type} (message : Message) :
    Except Error α → EStateM.Result Error Message α
  | .ok value => .ok value message
  | .error error => .error error message

namespace InPlace

variable {message : Message}

theorem field_eq (name : String) : field name message = unchanged message (message.fieldOf name) := by
  change (liftExcept (message.fieldOf name) : InPlace Field) message = _
  cases message.fieldOf name <;> rfl

theorem stage_eq (entry : String × Json) :
    stage entry message = unchanged message (message.readEntry entry) := by
  simp only [stage,readEntry,bind,EStateM.bind,field_eq]
  cases message.fieldOf entry.1 with
  | error error => rfl
  | ok field => cases read : field.ofJson entry.2 <;> simp [unchanged,Except.bind,read,liftExcept] <;> rfl

theorem mapM_unchanged {α β : Type} {step : α → InPlace β} {judge : α → Except Error β}
    (same : ∀ item, step item message = unchanged message (judge item)) (items : List α) :
    items.mapM step message = unchanged message (items.mapM judge) := by
  induction items with
  | nil => rfl
  | cons item rest ih =>
    simp only [List.mapM_cons,bind,EStateM.bind,same]
    cases judge item with
    | error error => rfl
    | ok result =>
      simp only [unchanged,ih]
      cases rest.mapM judge <;> rfl

theorem forM_store (entries : Bindings Value) (message : Message) :
    (entries.forM fun entry => store entry.1 entry.2) message =
      .ok () { message with values := message.values.insertAll entries } := by
  induction entries generalizing message with
  | nil => rfl
  | cons entry rest ih => exact ih _

end InPlace

/-- A call that succeeds makes the message of the operation on values; one that fails leaves
the message as it was. -/
theorem Call.run_eq (call : Call) (message : Message) :
    call.run message = match call.apply message with
      | .ok next => .ok () next
      | .error error => .error error message := by
  cases call with
  | set name value =>
    simp only [Call.run,Call.apply,InPlace.set,Message.set,bind,EStateM.bind,InPlace.field_eq]
    cases message.fieldOf name with
    | error error => rfl
    | ok field =>
      simp only [InPlace.unchanged,Except.bind]
      split <;> rfl
  | clear name => rfl
  | assign json =>
    cases json with
    | object entries =>
      have staged : (Json.sortedEntries entries).mapM InPlace.stage message =
          InPlace.unchanged message ((Json.sortedEntries entries).mapM message.readEntry) :=
        InPlace.mapM_unchanged InPlace.stage_eq _
      simp only [Call.run,Call.apply,InPlace.assign,bind,EStateM.bind,staged,assign_object]
      cases (Json.sortedEntries entries).mapM message.readEntry with
      | error error => rfl
      | ok read => exact InPlace.forM_store read message
    | _ => rfl

theorem Call.run_ok_iff {call : Call} {message next : Message} :
    call.run message = .ok () next ↔ call.apply message = .ok next := by
  rw [call.run_eq]
  cases call.apply message <;> simp

theorem Call.run_error_iff {call : Call} {message next : Message} {error : Error} :
    call.run message = .error error next ↔ call.apply message = .error error ∧ next = message := by
  rw [call.run_eq]
  cases call.apply message <;> simp [eq_comm (a := next)]

theorem InPlace.unmarshal_eq (text : String) (message : Message) :
    unmarshal text message = match message.unmarshal text with
      | .ok next => .ok () next
      | .error error => .error error message := by
  unfold unmarshal Message.unmarshal
  cases Json.ofText? text with
  | none => rfl
  | some json => exact Call.run_eq (.assign json) message

theorem InPlace.unmarshal_malformed {text : String} (malformed : Json.ofText? text = none)
    (message : Message) : unmarshal text message = .error .malformedJson message := by
  rw [unmarshal_eq,Message.unmarshal,malformed]

theorem InPlace.unmarshal_json {text : String} {json : Json} (read : Json.ofText? text = some json)
    (message : Message) : unmarshal text message = (Call.assign json).run message := by
  rw [unmarshal_eq,Message.unmarshal,read,Call.run_eq]
  rfl

end MavPayload.Message
