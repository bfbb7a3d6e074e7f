import MavPayload.Json.Token

/-!
JSON text as a tree that keeps what is written: numbers as literals, and objects with
their entries in order, repeated ones included. Tokens are read one at a time by a machine
that keeps the containers still open.
-/

namespace MavPayload.Json

inductive Document where
  | null
  | bool (value : Bool)
  | number (literal : Literal)
  | string (text : Option String)
  | array (items : List Document)
  | object (entries : List (Option String × Document))

/-- A container still open, with what it has so far in reverse. -/
inductive Container where
  | array (items : List Document)
  /-- An object whose last key still wants its value. -/
  | object (entries : List (Option String × Document)) (key : Option String)

/-- What may come next, with the containers still open, innermost first. -/
inductive Parser where
  | awaitValue (outer : List Container)
  /-- The first value of an array, or its end. -/
  | arrayStart (outer : List Container)
  /-- The first key of an object, or its end. -/
  | objectStart (outer : List Container)
  | awaitKey (entries : List (Option String × Document)) (outer : List Container)
  | awaitColon (entries : List (Option String × Document)) (key : Option String)
      (outer : List Container)
  /-- Whatever follows a value. -/
  | after (value : Document) (outer : List Container)

namespace Parser

def start (outer : List Container) : Token → Option Parser
  | .null => some (after .null outer)
  | .bool value => some (after (.bool value) outer)
  | .number literal => some (after (.number literal) outer)
  | .string text => some (after (.string text) outer)
  | .openArray => some (arrayStart outer)
  | .openObject => some (objectStart outer)
  | _ => none

def next (value : Document) : List Container → Token → Option Parser
  | .array items :: outer,.comma => some (awaitValue (.array (value :: items) :: outer))
  | .array items :: outer,.closeArray => some (after (.array (value :: items).reverse) outer)
  | .object entries name :: outer,.comma => some (awaitKey ((name,value) :: entries) outer)
  | .object entries name :: outer,.closeObject =>
    some (after (.object ((name,value) :: entries).reverse) outer)
  | _,_ => none

def step : Parser → Token → Option Parser
  | awaitValue outer,token => start outer token
  | arrayStart outer,.closeArray => some (after (.array []) outer)
  | arrayStart outer,token => start (.array [] :: outer) token
  | objectStart outer,.closeObject => some (after (.object []) outer)
  | objectStart outer,.string name => some (awaitColon [] name outer)
  | awaitKey entries outer,.string name => some (awaitColon entries name outer)
  | awaitColon entries name outer,.colon => some (awaitValue (.object entries name :: outer))
  | after value outer,token => next value outer token
  | _,_ => none

def finish : Parser → Option Document
  | after value [] => some value
  | _ => none

end Parser

def Document.ofChars? (text : List Char) : Option Document := do
  (← (← tokens? text).foldlM Parser.step (.awaitValue [])).finish

end MavPayload.Json
