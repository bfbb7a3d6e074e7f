import MavPayload.Bindings

/-!
The arguments of the command line. Options stand before the command or after it, as they
belong; each is given at most once, and what is not understood is refused.
-/

namespace MavPayload.CommandLine

inductive Query where
  | list
  | inspect (message : String)
  | decode (message payload : String)
  | encode (message json : String)
  | schema (message : String) (topic : Option String)
deriving DecidableEq, Repr

inductive Command where
  | ask (query : Query)
  | writeConfiguration (path : String)
deriving DecidableEq, Repr

structure Arguments where
  configuration : Option String := none
  dialect : Option String := none
  logLevel : Option String := none
  isV1 : Bool := false
  isCompact : Bool := false
  command : Command
deriving DecidableEq, Repr

structure Flag where
  long : String
  short : Option Char := none
  takesValue : Bool := true
  /-- Whether the value may be empty. -/
  mayBeEmpty : Bool := false
deriving DecidableEq, Repr

inductive Shape where
  | operand
  /-- Two dashes alone; only operands follow. -/
  | separator
  | long (name : String) (value : Option String)
  | short (letter : Char) (value : Option String)
deriving DecidableEq, Repr

def attached : List Char → Option String
  | [] => none
  | '=' :: rest => some (String.ofList rest)
  | rest => some (String.ofList rest)

def Shape.of (argument : String) : Shape :=
  match argument.toList with
  | ['-','-'] => separator
  | '-' :: '-' :: rest =>
    long (String.ofList (rest.takeWhile (· != '=')))
      (match rest.dropWhile (· != '=') with
        | [] => none
        | _ :: value => some (String.ofList value))
  | '-' :: letter :: rest => short letter (attached rest)
  | _ => operand

structure Parsed where
  options : Bindings String := []
  operands : List String := []
deriving DecidableEq, Repr

namespace Parsed

def withOption (parsed : Parsed) (flag : Flag) (value : String) : Option Parsed :=
  if (parsed.options.get? flag.long).isSome then none
  else if flag.takesValue && !flag.mayBeEmpty && value.isEmpty then none
  else some { parsed with options := parsed.options.insert flag.long value }

def withOperand (parsed : Parsed) (operand : String) : Parsed :=
  { parsed with operands := parsed.operands ++ [operand] }

def has (parsed : Parsed) (flag : Flag) : Bool :=
  (parsed.options.get? flag.long).isSome

def get? (parsed : Parsed) (flag : Flag) : Option String :=
  parsed.options.get? flag.long

end Parsed

/-- The flag of an argument that is an option, and the value attached to it. -/
def flagOf? (flags : List Flag) : Shape → Option (Flag × Option String)
  | .long name value => (flags.find? (·.long == name)).map (·,value)
  | .short letter value => (flags.find? (·.short == some letter)).map (·,value)
  | .operand | .separator => none

/-- Reads options and operands. With `untilOperand` the first operand ends the reading and
is left to the rest. -/
def parse (flags : List Flag) (untilOperand : Bool) (parsed : Parsed) :
    List String → Option (Parsed × List String)
  | [] => some (parsed,[])
  | argument :: rest =>
    match Shape.of argument with
    | .operand =>
      if untilOperand then some (parsed,argument :: rest)
      else parse flags untilOperand (parsed.withOperand argument) rest
    | .separator =>
      if untilOperand then none else some (rest.foldl Parsed.withOperand parsed,[])
    | shape =>
      match flagOf? flags shape,rest with
      | none,_ => none
      | some (flag,some value),rest =>
        if flag.takesValue then do
          parse flags untilOperand (← parsed.withOption flag value) rest
        else none
      | some (flag,none),rest =>
        if flag.takesValue then
          match rest with
          | value :: rest =>
            if Shape.of value = .operand then do
              parse flags untilOperand (← parsed.withOption flag value) rest
            else none
          | [] => none
        else do parse flags untilOperand (← parsed.withOption flag "") rest

def configurationFlag : Flag := { long := "config", short := some 'c' }

def dialectFlag : Flag := { long := "dialect", short := some 'd' }

def v1Flag : Flag := { long := "v1", takesValue := false }

def compactFlag : Flag := { long := "compact", takesValue := false }

def logLevelFlag : Flag := { long := "log-level", mayBeEmpty := true }

def topicFlag : Flag := { long := "topic", short := some 't', mayBeEmpty := true }

def outputFlag : Flag := { long := "output", short := some 'o' }

def defaultOutput : String := "mavcodec.toml"

def Command.parse (name : String) (arguments : List String) : Option Command := do
  let flags := match name with
    | "schema" => [topicFlag]
    | "gen-config" => [outputFlag]
    | _ => []
  let (parsed,_) ← CommandLine.parse flags false {} arguments
  match name,parsed.operands with
  | "list",[] => some (.ask .list)
  | "inspect",[message] => some (.ask (.inspect message))
  | "decode",[message,payload] => some (.ask (.decode message payload))
  | "encode",[message,json] => some (.ask (.encode message json))
  | "schema",[message] => some (.ask (.schema message (parsed.get? topicFlag)))
  | "gen-config",[] => some (.writeConfiguration ((parsed.get? outputFlag).getD defaultOutput))
  | _,_ => none

def Arguments.parse (arguments : List String) : Option Arguments := do
  let flags := [configurationFlag,dialectFlag,v1Flag,compactFlag,logLevelFlag]
  let (parsed,rest) ← CommandLine.parse flags true {} arguments
  match rest with
  | [] => none
  | name :: rest =>
    return {
      configuration := parsed.get? configurationFlag
      dialect := parsed.get? dialectFlag
      logLevel := parsed.get? logLevelFlag
      isV1 := parsed.has v1Flag
      isCompact := parsed.has compactFlag
      command := ← Command.parse name rest }

end MavPayload.CommandLine
