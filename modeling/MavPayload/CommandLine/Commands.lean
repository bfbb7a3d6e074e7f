import MavPayload.Dialect
import MavPayload.Layout.Schema
import MavPayload.Message.Json
import MavPayload.Text.Blank
import MavPayload.Text.Column
import MavPayload.Text.Hex

/-!
What the commands print. A failure is a list of causes, outermost first.
-/

namespace MavPayload.CommandLine

/-- A failed command: what went wrong and why. -/
abbrev Causes := List String

abbrev Result (α : Type) := Except Causes α

def ofError {α : Type} : Except Error α → Result α
  | .ok value => .ok value
  | .error error => .error [error.message]

def during {α : Type} (activity : String) : Result α → Result α
  | .ok value => .ok value
  | .error causes => .error (activity :: causes)

/-- The layout of a message given by its id, or else by its name in any case. What can be
read as an id is not looked up as a name. -/
def lookup (dialect : Dialect) (key : String) : Result Layout :=
  let found := match Text.natural? (Nat.pow 2 32) key.toList with
    | some id => dialect.byId? id
    | none => dialect.byName? (String.ofList (key.toList.map Char.toUpper))
  match found with
  | some layout => .ok layout
  | none => .error [s!"message '{key}' is not defined in dialect {dialect.name}"]

def render (isPretty : Bool) (json : Json) : String :=
  (if isPretty then json.pretty else json.compact) ++ "\n"

def listRow (id name size fullSize crc : String) : String :=
  s!"{Text.rightAligned 8 id}  {Text.leftAligned 28 name} {Text.rightAligned 6 size} " ++
  s!"{Text.rightAligned 8 fullSize} {Text.rightAligned 9 crc}\n"

def listText (dialect : Dialect) : String :=
  String.join <| listRow "ID" "NAME" "SIZE" "EXT SIZE" "CRC_EXTRA" ::
    dialect.layouts.map fun layout =>
      listRow (toString layout.id) layout.name (toString (layout.payloadSize .v1))
        (toString (layout.payloadSize .v2)) (toString layout.crcExtra)

def withOffsets : Nat → List Field → List (Nat × Field)
  | _,[] => []
  | offset,field :: rest => (offset,field) :: withOffsets (offset + field.size) rest

def fieldRow (offset : Nat) (field : Field) : String :=
  let enumMark := if field.isEnum then " enum" else ""
  let extensionMark := if field.isExtension then " extension" else ""
  s!"  {Text.rightAligned 4 (toString offset)}  {Text.leftAligned 40 field.name} " ++
  s!"{Text.leftAligned 12 field.label} #{field.index}{enumMark}{extensionMark}\n"

def layoutText (layout : Layout) : String :=
  s!"{layout.name} (id {layout.id}) size {layout.payloadSize .v1}/{layout.payloadSize .v2} " ++
  s!"crc_extra {layout.crcExtra}\n\n" ++
  String.join ((withOffsets 0 layout.fields).map fun (offset,field) => fieldRow offset field)

def isHexSeparator (char : Char) : Bool :=
  char == ' ' || char == '\t' || char == '\n' || char == '\r' || char == '\x0C' || char == ':'

/-- The digits of a payload as typed: without blanks around it, one mark of base sixteen in
front, and separators. -/
def hexDigits (text : String) : List Char :=
  let trimmed := Text.trim text.toList
  let unmarked := match trimmed with
    | '0' :: 'x' :: rest | '0' :: 'X' :: rest => rest
    | chars => chars
  unmarked.filter fun char => !isHexSeparator char

def parsePayload (text : String) : Result (List UInt8) :=
  let digits := String.ofList (hexDigits text)
  match Text.Hex.decode (Text.Utf8.encode digits) with
  | .ok bytes => .ok bytes
  | .error fault => .error [s!"invalid hex payload '{digits}'",fault.message]

def decodeText (layout : Layout) (version : Version) (isPretty : Bool) (payload : String) :
    Result String := do
  let bytes ← parsePayload payload
  let message ← ofError (Message.decode layout bytes version)
  return render isPretty (← ofError message.toJson)

def encodeText (dialect : Dialect) (layout : Layout) (version : Version) (json : String) :
    Result String := do
  let empty : Message := { layout }
  let message ← during s!"parsing {layout.name} fields" (ofError (empty.unmarshal json))
  let bytes ← ofError (dialect.encode message version)
  return String.ofList (Text.Hex.spaced bytes) ++ "\n"

def schemaText (layout : Layout) (scope : String) (topic : Option String) (isPretty : Bool) :
    String :=
  render isPretty (layout.schema scope (topic.getD layout.name))

end MavPayload.CommandLine
