import MavPayload.Json.Basic

/-!
JSON values as text. Two spacings are in use, and both are blanks between tokens only: no
blanks at all, and one entry a line.
-/

namespace MavPayload.Json

structure Spacing where
  /-- Before each entry of a container at a depth, and before its end. -/
  lineBreak : Nat → List Char
  afterColon : List Char

namespace Spacing

def compact : Spacing := ⟨fun _ => [],[]⟩

def pretty : Spacing := ⟨fun depth => '\n' :: List.replicate (2 * depth) ' ',[' ']⟩

end Spacing

/-- A character of a string. Only the quote, the backslash and the control characters
below the space are escaped. -/
def quotedChar (char : Char) : List Char :=
  match char with
  | '"' => ['\\','"']
  | '\\' => ['\\','\\']
  | '\x08' => ['\\','b']
  | '\x0C' => ['\\','f']
  | '\n' => ['\\','n']
  | '\r' => ['\\','r']
  | '\t' => ['\\','t']
  | char =>
    if char.toNat < 0x20 then
      ['\\','u','0','0',Nat.digitChar (char.toNat / 16),Nat.digitChar (char.toNat % 16)]
    else [char]

def quoted (text : String) : List Char :=
  '"' :: text.toList.flatMap quotedChar ++ ['"']

mutual

def print (spacing : Spacing) (depth : Nat) : Json → List Char
  | .null => ['n','u','l','l']
  | .bool true => ['t','r','u','e']
  | .bool false => ['f','a','l','s','e']
  | .number value => value.text
  | .string text => quoted text
  | .array [] => ['[',']']
  | .array (first :: rest) =>
    '[' :: spacing.lineBreak (depth + 1) ++ print spacing (depth + 1) first ++
    printItems spacing (depth + 1) rest ++ spacing.lineBreak depth ++ [']']
  | .object [] => ['\x7b','\x7d']
  | .object ((key,first) :: rest) =>
    '\x7b' :: spacing.lineBreak (depth + 1) ++ quoted key ++ ':' :: spacing.afterColon ++
    print spacing (depth + 1) first ++ printEntries spacing (depth + 1) rest ++
    spacing.lineBreak depth ++ ['\x7d']

def printItems (spacing : Spacing) (depth : Nat) : List Json → List Char
  | [] => []
  | item :: rest =>
    ',' :: spacing.lineBreak depth ++ print spacing depth item ++ printItems spacing depth rest

def printEntries (spacing : Spacing) (depth : Nat) : List (String × Json) → List Char
  | [] => []
  | (key,item) :: rest =>
    ',' :: spacing.lineBreak depth ++ quoted key ++ ':' :: spacing.afterColon ++
    print spacing depth item ++ printEntries spacing depth rest

end

def compact (value : Json) : String :=
  String.ofList (print .compact 0 value)

def pretty (value : Json) : String :=
  String.ofList (print .pretty 0 value)

end MavPayload.Json
