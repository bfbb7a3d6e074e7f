import MavPayload.Text.Digits
import MavPayload.Text.Hex

/-!
Lines of a TOML file: assignments, table headers and blanks. Values are strings on one
line, booleans and numbers; of numbers only the form is kept.
-/

namespace MavPayload.Toml

inductive Value where
  | text (value : String)
  | bool (value : Bool)
  | number
deriving DecidableEq, Repr

/-- A dotted key, outermost name first. -/
abbrev Path := List String

inductive Line where
  | blank
  | assign (key : Path) (value : Value)
  | table (path : Path)
  | tableOfArray (path : Path)
deriving DecidableEq, Repr

def isBlank (char : Char) : Bool :=
  char == ' ' || char == '\t'

def isControl (char : Char) : Bool :=
  (char.toNat < 0x20 && char != '\t') || char.toNat == 0x7F

def skipBlanks (chars : List Char) : List Char :=
  chars.dropWhile isBlank

/-- The rest of a line after its content: blanks and a comment. -/
def isEnd (chars : List Char) : Bool :=
  match skipBlanks chars with
  | [] => true
  | '#' :: comment => !comment.any isControl
  | _ => false

def codePoint? (digits : List Char) : Option Char := do
  let value ← digits.foldlM (fun value digit => return value * 16 + (← Text.Hex.value? digit)) 0
  if value.isValidChar then some (Char.ofNat value) else none

def escaped? : Char → Option Char
  | 'b' => some '\x08'
  | 't' => some '\t'
  | 'n' => some '\n'
  | 'f' => some '\x0C'
  | 'r' => some '\r'
  | '"' => some '"'
  | '\\' => some '\\'
  | _ => none

/-- The characters before the closing quote of a string with escapes, and the rest. -/
def basicString? : List Char → Option (List Char × List Char)
  | [] => none
  | '"' :: rest => some ([],rest)
  | '\\' :: 'u' :: a :: b :: c :: d :: rest => do
    let char ← codePoint? [a,b,c,d]
    let (chars,rest) ← basicString? rest
    return (char :: chars,rest)
  | '\\' :: 'U' :: a :: b :: c :: d :: e :: f :: g :: h :: rest => do
    let char ← codePoint? [a,b,c,d,e,f,g,h]
    let (chars,rest) ← basicString? rest
    return (char :: chars,rest)
  | '\\' :: letter :: rest => do
    let char ← escaped? letter
    let (chars,rest) ← basicString? rest
    return (char :: chars,rest)
  | char :: rest =>
    if isControl char then none
    else do
      let (chars,rest) ← basicString? rest
      return (char :: chars,rest)

def literalString? (chars : List Char) : Option (List Char × List Char) :=
  let inside := chars.takeWhile (· != '\'')
  match chars.dropWhile (· != '\'') with
  | _ :: rest => if inside.any isControl then none else some (inside,rest)
  | [] => none

def isBareKey (char : Char) : Bool :=
  char.isAlphanum || char == '-' || char == '_'

def name? : List Char → Option (String × List Char)
  | '"' :: rest => (basicString? rest).map fun (chars,rest) => (String.ofList chars,rest)
  | '\'' :: rest => (literalString? rest).map fun (chars,rest) => (String.ofList chars,rest)
  | chars =>
    match chars.takeWhile isBareKey with
    | [] => none
    | name => some (String.ofList name,chars.dropWhile isBareKey)

def maxNames : Nat := 79

def keyUpTo? : (limit : Nat) → List Char → Option (Path × List Char)
  | 0,_ => none
  | limit + 1,chars => do
    let (name,rest) ← name? (skipBlanks chars)
    match skipBlanks rest with
    | '.' :: rest => do
      let (path,rest) ← keyUpTo? limit rest
      return (name :: path,rest)
    | rest => return ([name],rest)

def key? (chars : List Char) : Option (Path × List Char) :=
  keyUpTo? maxNames chars

/-- Whether characters are digits with single underscores between two of them. -/
def isDigitRun (isDigit : Char → Bool) : List Char → Bool
  | [] => false
  | [char] => isDigit char
  | char :: '_' :: rest => isDigit char && isDigitRun isDigit rest
  | char :: rest => isDigit char && isDigitRun isDigit rest

def isDecimal (chars : List Char) : Bool :=
  chars == ['0'] || (isDigitRun Char.isDigit chars && chars.head? != some '0')

/-- Whether digits of a base are an integer of 64 bits, given those before them. -/
def fits (base : Nat) (bound : Nat) (digits : List Char) : Bool :=
  (digits.filterMap Text.Hex.value?).foldl (fun value digit => value * base + digit) 0 < bound

def withoutSign : List Char → List Char
  | '+' :: chars | '-' :: chars => chars
  | chars => chars

/-- Integers are below this bound; negative ones may reach it. -/
def integerBound : Nat := Nat.pow 2 63

def isInteger (chars : List Char) : Bool :=
  match chars with
  | '0' :: 'x' :: digits =>
    isDigitRun (fun digit => (Text.Hex.value? digit).isSome) digits && fits 16 integerBound digits
  | '0' :: 'o' :: digits =>
    isDigitRun (fun digit => '0' ≤ digit && digit ≤ '7') digits && fits 8 integerBound digits
  | '0' :: 'b' :: digits =>
    isDigitRun (fun digit => digit == '0' || digit == '1') digits && fits 2 integerBound digits
  | '-' :: digits => isDecimal digits && fits 10 (integerBound + 1) digits
  | chars => isDecimal (withoutSign chars) && fits 10 integerBound (withoutSign chars)

def isExponent (chars : List Char) : Bool :=
  isDigitRun Char.isDigit (withoutSign chars)

def isMark (char : Char) : Bool :=
  char == 'e' || char == 'E'

def isFloat (chars : List Char) : Bool :=
  let chars := withoutSign chars
  let mantissa := chars.takeWhile fun char => !isMark char
  let exponent := chars.dropWhile fun char => !isMark char
  let whole := mantissa.takeWhile (· != '.')
  let fraction := mantissa.dropWhile (· != '.')
  chars == ['i','n','f'] || chars == ['n','a','n'] ||
    (isDecimal whole &&
      (fraction.isEmpty || isDigitRun Char.isDigit (fraction.drop 1)) &&
      (exponent.isEmpty || isExponent (exponent.drop 1)) &&
      !(fraction.isEmpty && exponent.isEmpty))

def value? : List Char → Option (Value × List Char)
  | '"' :: rest =>
    (basicString? rest).map fun (chars,rest) => (.text (String.ofList chars),rest)
  | '\'' :: rest =>
    (literalString? rest).map fun (chars,rest) => (.text (String.ofList chars),rest)
  | chars =>
    let isWord (char : Char) := isBareKey char || char == '+' || char == '.'
    let word := chars.takeWhile isWord
    let rest := chars.dropWhile isWord
    if word = ['t','r','u','e'] then some (.bool true,rest)
    else if word = ['f','a','l','s','e'] then some (.bool false,rest)
    else if isInteger word || isFloat word then some (.number,rest)
    else none

def line? (chars : List Char) : Option Line :=
  let chars := skipBlanks chars
  if isEnd chars then some .blank
  else match chars with
    | '[' :: '[' :: rest => do
      match ← key? rest with
      | (path,']' :: ']' :: rest) => if isEnd rest then some (.tableOfArray path) else none
      | _ => none
    | '[' :: rest => do
      match ← key? rest with
      | (path,']' :: rest) => if isEnd rest then some (.table path) else none
      | _ => none
    | chars => do
      match ← key? chars with
      | (key,'=' :: rest) => do
        let (value,rest) ← value? (skipBlanks rest)
        if isEnd rest then some (.assign key value) else none
      | _ => none

end MavPayload.Toml
