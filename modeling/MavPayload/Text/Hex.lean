/-!
Octets as pairs of hexadecimal digits. Writing uses small letters; reading takes both.
-/

namespace MavPayload.Text.Hex

def digit (value : Nat) : Char :=
  Nat.digitChar value

def value? (char : Char) : Option Nat :=
  if '0' ≤ char ∧ char ≤ '9' then some (char.toNat - '0'.toNat)
  else if 'a' ≤ char ∧ char ≤ 'f' then some (char.toNat - 'a'.toNat + 10)
  else if 'A' ≤ char ∧ char ≤ 'F' then some (char.toNat - 'A'.toNat + 10)
  else none

def pair (byte : UInt8) : List Char :=
  [digit (byte.toNat / 16),digit (byte.toNat % 16)]

def encode (bytes : List UInt8) : List Char :=
  bytes.flatMap pair

def spaced (bytes : List UInt8) : List Char :=
  [' '].intercalate (bytes.map pair)

inductive Fault where
  | oddLength
  | invalid (byte : UInt8) (position : Nat)
deriving DecidableEq, Repr

/-- Whether the character with the number of an octet is seen in print. Controls, the
no-break space and the soft hyphen are not. -/
def isVisible (byte : UInt8) : Bool :=
  (0x20 ≤ byte && byte < 0x7F) || (0xA1 ≤ byte && byte != 0xAD)

/-- An octet as the character with its number, between apostrophes. The apostrophe and the
backslash follow a backslash, and so does what stands for a character that is not seen. -/
def shown (byte : UInt8) : List Char :=
  let inside :=
    if byte = 0 then ['\\','0']
    else if byte = 0x09 then ['\\','t']
    else if byte = 0x0A then ['\\','n']
    else if byte = 0x0D then ['\\','r']
    else if byte = 0x27 then ['\\','\'']
    else if byte = 0x5C then ['\\','\\']
    else if isVisible byte then [Char.ofNat byte.toNat]
    else ['\\','u','\x7b'] ++ Nat.toDigits 16 byte.toNat ++ ['\x7d']
  '\'' :: inside ++ ['\'']

def Fault.message : Fault → String
  | oddLength => "Odd number of digits"
  | invalid byte position =>
    s!"Invalid character {String.ofList (shown byte)} at position {position}"

/-- Reads digits in pairs; `position` counts the octets of the text before them. The first
octet that is no digit is reported. -/
def decodePairs (position : Nat) : List UInt8 → Except Fault (List UInt8)
  | high :: low :: rest =>
    match value? (Char.ofNat high.toNat),value? (Char.ofNat low.toNat) with
    | none,_ => .error (.invalid high position)
    | some _,none => .error (.invalid low (position + 1))
    | some high,some low => do
      return UInt8.ofNat (16 * high + low) :: (← decodePairs (position + 2) rest)
  | [_] => .error .oddLength
  | [] => .ok []

/-- The octets that the octets of a text spell. An odd number of them is reported before
any other fault. -/
def decode (text : List UInt8) : Except Fault (List UInt8) :=
  if text.length % 2 = 1 then .error .oddLength else decodePairs 0 text

end MavPayload.Text.Hex
