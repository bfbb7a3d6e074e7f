import MavPayload.Json.Literal
import MavPayload.Text.Hex
import MavPayload.Text.Units

/-!
JSON text as tokens. The text is read one character at a time by a machine that keeps the
tokens so far and the token under way.
-/

namespace MavPayload.Json

inductive Token where
  | openArray
  | closeArray
  | openObject
  | closeObject
  | comma
  | colon
  | null
  | bool (value : Bool)
  | number (literal : Literal)
  /-- A string; it has no text if an escape in it is half of a surrogate pair. -/
  | string (text : Option String)
deriving DecidableEq, Repr

/-- The token under way, with what it has so far in reverse. -/
inductive Scan where
  | between
  | word (letters : List Char)
  | number (chars : List Char)
  | string (units : List Nat)
  | escape (units : List Nat)
  /-- Inside a numeric escape that wants `missing` more digits. -/
  | code (units : List Nat) (missing value : Nat)
deriving DecidableEq, Repr

/-- The tokens so far, in reverse, and the one under way. -/
structure Lexer where
  tokens : List Token := []
  scan : Scan := .between
deriving DecidableEq, Repr

def isBlank (char : Char) : Bool :=
  char == ' ' || char == '\t' || char == '\n' || char == '\r'

def isLetter (char : Char) : Bool :=
  'a' ≤ char && char ≤ 'z'

def isNumeric (char : Char) : Bool :=
  char.isDigit || char == '-' || char == '+' || char == '.' || char == 'e' || char == 'E'

def Token.ofWord? (letters : List Char) : Option Token :=
  if letters = ['n','u','l','l'] then some .null
  else if letters = ['t','r','u','e'] then some (.bool true)
  else if letters = ['f','a','l','s','e'] then some (.bool false)
  else none

def Token.ofUnits (units : List Nat) : Token :=
  .string ((Text.ofUnits? units).map String.ofList)

def escaped? : Char → Option Char
  | '"' => some '"'
  | '\\' => some '\\'
  | '/' => some '/'
  | 'b' => some '\x08'
  | 'f' => some '\x0C'
  | 'n' => some '\n'
  | 'r' => some '\r'
  | 't' => some '\t'
  | _ => none

namespace Lexer

def start (tokens : List Token) (char : Char) : Option Lexer :=
  if isBlank char then some { tokens }
  else if isLetter char then some { tokens, scan := .word [char] }
  else if char.isDigit || char == '-' then some { tokens, scan := .number [char] }
  else match char with
    | '[' => some { tokens := .openArray :: tokens }
    | ']' => some { tokens := .closeArray :: tokens }
    | '\x7b' => some { tokens := .openObject :: tokens }
    | '\x7d' => some { tokens := .closeObject :: tokens }
    | ',' => some { tokens := .comma :: tokens }
    | ':' => some { tokens := .colon :: tokens }
    | '"' => some { tokens, scan := .string [] }
    | _ => none

def inString (tokens : List Token) (units : List Nat) (char : Char) : Option Lexer :=
  if char = '"' then some { tokens := .ofUnits units.reverse :: tokens }
  else if char = '\\' then some { tokens, scan := .escape units }
  else if char.toNat < 0x20 then none
  else some { tokens, scan := .string (char.toNat :: units) }

/-- The next character. One that cannot be part of the word or number under way ends it. -/
def step (lexer : Lexer) (char : Char) : Option Lexer :=
  match lexer.scan with
  | .between => start lexer.tokens char
  | .word letters =>
    if isLetter char then some { lexer with scan := .word (char :: letters) }
    else do
      let token ← Token.ofWord? letters.reverse
      start (token :: lexer.tokens) char
  | .number chars =>
    if isNumeric char then some { lexer with scan := .number (char :: chars) }
    else do
      let literal ← Literal.ofChars? chars.reverse
      start (.number literal :: lexer.tokens) char
  | .string units => inString lexer.tokens units char
  | .escape units =>
    if char = 'u' then some { lexer with scan := .code units 4 0 }
    else do
      let meant ← escaped? char
      return { lexer with scan := .string (meant.toNat :: units) }
  | .code units missing value => do
    let value := value * 16 + (← Text.Hex.value? char)
    if missing ≤ 1 then return { lexer with scan := .string (value :: units) }
    else return { lexer with scan := .code units (missing - 1) value }

def finish (lexer : Lexer) : Option (List Token) :=
  match lexer.scan with
  | .between => some lexer.tokens.reverse
  | .word letters => do
    let token ← Token.ofWord? letters.reverse
    return (token :: lexer.tokens).reverse
  | .number chars => do
    let literal ← Literal.ofChars? chars.reverse
    return (Token.number literal :: lexer.tokens).reverse
  | .string _ | .escape _ | .code _ _ _ => none

end Lexer

def tokens? (text : List Char) : Option (List Token) := do
  (← text.foldlM Lexer.step {}).finish

end MavPayload.Json
