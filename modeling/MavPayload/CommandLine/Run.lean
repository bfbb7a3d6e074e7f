import MavPayload.CommandLine.Arguments
import MavPayload.CommandLine.Commands
import MavPayload.CommonDialect
import MavPayload.Configuration
import MavPayload.Dialect.Reader

/-!
A call of the command line. Files and the input are reached through a host, so a call can
be followed in any monad.
-/

namespace MavPayload.CommandLine

/-- Access to files and the input. A failure is the system's own text. -/
structure Host (m : Type → Type) where
  load : String → m (Except String String)
  input : m (Except String String)
  save : String → String → m (Except String Unit)

inductive Outcome where
  | printed (text : String)
  | failed (causes : Causes)
  /-- The arguments are not understood. -/
  | refused
deriving DecidableEq, Repr

def Outcome.exitCode : Outcome → Nat
  | printed _ => 0
  | failed _ => 1
  | refused => 2

def causeText (number : Option Nat) (cause : String) : String :=
  let (first,further) := match number with
    | some number => (Text.rightAligned 5 (toString number) ++ ": ","       ")
    | none => ("    ","    ")
  first ++ String.intercalate ("\n" ++ further) (cause.splitOn "\n")

def report : Causes → String
  | [] => "Error\n"
  | [failure] => s!"Error: {failure}\n"
  | [failure,cause] => s!"Error: {failure}\n\nCaused by:\n{causeText none cause}\n"
  | failure :: causes =>
    let texts := causes.mapIdx fun index cause => causeText (some index) cause ++ "\n"
    s!"Error: {failure}\n\nCaused by:\n{String.join texts}"

variable {m : Type → Type} [Monad m]

def readConfiguration (host : Host m) (path : String) : ExceptT Causes m Configuration := do
  match ← host.load path with
  | .error text => throw [s!"loading configuration {path}",s!"I/O error: {text}",text]
  | .ok text =>
    match Configuration.ofText text with
    | .ok configuration => return configuration
    | .error .malformed => throw [s!"loading configuration {path}","TOML parse error"]
    | .error (.fault fault) => throw [s!"loading configuration {path}",fault.message]

/-- The settings of a call: those of its options, before those of the file. -/
def configure (host : Host m) (arguments : Arguments) : ExceptT Causes m Configuration := do
  let base ← match arguments.configuration with
    | some path => readConfiguration host path
    | none => pure {}
  let configuration := { base with
    dialect := arguments.dialect.or base.dialect
    version := if arguments.isV1 then .v1 else base.version
    logLevel := arguments.logLevel.getD base.logLevel
    isPretty := base.isPretty && !arguments.isCompact }
  match configuration.validate with
  | .ok () => return configuration
  | .error fault => throw [fault.message]

def readDialect (host : Host m) (configuration : Configuration) : ExceptT Causes m Dialect := do
  match configuration.dialect with
  | none => ofError CommonDialect.dialect
  | some path =>
    match ← host.load path with
    | .error text => throw [s!"reading dialect {path}",text]
    | .ok text => during s!"loading dialect {path}" (ofError (Dialect.ofText text))

def readOperand (host : Host m) (operand : String) : ExceptT Causes m String := do
  if operand = "-" then
    match ← host.input with
    | .ok text => return text
    | .error text => throw ["reading stdin",text]
  else return operand

def defaultFile : String :=
  "# mavcodec-json configuration\n" ++
  "# dialect = \"path/to/dialect.json\"  (built-in common subset when absent)\n\n" ++
  Configuration.text {}

def writeConfiguration (host : Host m) (path : String) : ExceptT Causes m String := do
  match ← host.save path defaultFile with
  | .ok () => return s!"Wrote {path}\n"
  | .error text => throw [s!"writing {path}",text]

def answer (host : Host m) (configuration : Configuration) (dialect : Dialect) :
    Query → ExceptT Causes m String
  | .list => return listText dialect
  | .inspect message => return layoutText (← lookup dialect message)
  | .decode message payload => do
    let layout ← lookup dialect message
    decodeText layout configuration.version configuration.isPretty (← readOperand host payload)
  | .encode message json => do
    let layout ← lookup dialect message
    encodeText dialect layout configuration.version (← readOperand host json)
  | .schema message topic => do
    let layout ← lookup dialect message
    return schemaText layout configuration.schemaPrefix topic configuration.isPretty

def execute (host : Host m) (configuration : Configuration) :
    Command → ExceptT Causes m String
  | .ask query => do answer host configuration (← readDialect host configuration) query
  | .writeConfiguration path => writeConfiguration host path

def run (host : Host m) (arguments : List String) : m Outcome := do
  match Arguments.parse arguments with
  | none => return .refused
  | some arguments =>
    let call : ExceptT Causes m String := do
      execute host (← configure host arguments) arguments.command
    match ← call.run with
    | .ok text => return .printed text
    | .error causes => return .failed causes

end MavPayload.CommandLine
