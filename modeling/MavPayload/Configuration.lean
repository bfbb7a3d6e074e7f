import MavPayload.Text.Blank
import MavPayload.Toml.Document
import MavPayload.Version

/-!
The settings of the command line, as a file gives them. What a file does not name keeps
its default, and what it names besides does not matter.
-/

namespace MavPayload

structure Configuration where
  /-- The path of a dialect; the common dialect if there is none. -/
  dialect : Option String := none
  version : Version := .v2
  /-- What the names of schemas start with. -/
  schemaPrefix : String := "mavlink"
  logLevel : String := "info"
  /-- Whether JSON is written with an entry a line. -/
  isPretty : Bool := true
deriving DecidableEq, Repr

inductive ConfigurationFault where
  | emptyPrefix
  | slashAfterPrefix (text : String)
  | emptyDialect
deriving DecidableEq, Repr

def ConfigurationFault.message : ConfigurationFault → String
  | emptyPrefix => "Invalid configuration: schema_prefix must not be empty"
  | slashAfterPrefix text =>
    s!"Invalid configuration: schema_prefix '{text}' must not end with '/'"
  | emptyDialect => "Invalid configuration: dialect path is empty"

inductive ConfigurationError where
  | malformed
  | fault (fault : ConfigurationFault)
deriving DecidableEq, Repr

namespace Configuration

def validate (configuration : Configuration) : Except ConfigurationFault Unit :=
  if (Text.trim configuration.schemaPrefix.toList).isEmpty then .error .emptyPrefix
  else if configuration.schemaPrefix.toList.getLast? = some '/' then
    .error (.slashAfterPrefix configuration.schemaPrefix)
  else if configuration.dialect = some "" then .error .emptyDialect
  else .ok ()

/-- What a key stands for as `read` takes it; nothing if the file does not have the key. -/
def entry? {α : Type} (document : Toml.Document) (key : String) (read : Toml.Entry → Option α) :
    Option (Option α) :=
  match document.get? [key] with
  | some entry => (read entry).map some
  | none => some none

def asText? : Toml.Entry → Option String
  | .value (.text value) => some value
  | _ => none

def asBool? : Toml.Entry → Option Bool
  | .value (.bool value) => some value
  | _ => none

def emptyTable? (document : Toml.Document) (path : Toml.Path) : Option String :=
  match document.namesBelow path with
  | [name] => if document.get? (path ++ [name]) = some .headed then some name else none
  | _ => none

/-- A version is its label, or a table with nothing but an empty table of that name. -/
def asVersion? (document : Toml.Document) : Toml.Entry → Option Version
  | .value (.text label) => Version.ofLabel? label
  | .value _ | .array => none
  | .implied | .headed | .dotted => do Version.ofLabel? (← emptyTable? document ["version"])

def ofDocument? (document : Toml.Document) : Option Configuration := do
  let base : Configuration := {}
  return {
    dialect := ← entry? document "dialect" asText?
    version := (← entry? document "version" (asVersion? document)).getD base.version
    schemaPrefix := (← entry? document "schema_prefix" asText?).getD base.schemaPrefix
    logLevel := (← entry? document "log_level" asText?).getD base.logLevel
    isPretty := (← entry? document "pretty" asBool?).getD base.isPretty }

def ofText (text : String) : Except ConfigurationError Configuration :=
  match (Toml.Document.ofText? text).bind ofDocument? with
  | none => .error .malformed
  | some configuration =>
    match configuration.validate with
    | .ok () => .ok configuration
    | .error fault => .error (.fault fault)

def text (configuration : Configuration) : String :=
  let dialect := match configuration.dialect with
    | some path => s!"dialect = {Toml.quoted path}\n"
    | none => ""
  dialect ++
  s!"version = {Toml.quoted configuration.version.label}\n" ++
  s!"schema_prefix = {Toml.quoted configuration.schemaPrefix}\n" ++
  s!"log_level = {Toml.quoted configuration.logLevel}\n" ++
  s!"pretty = {configuration.isPretty}\n"

end Configuration

end MavPayload
