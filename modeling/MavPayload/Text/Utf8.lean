/-!
Text as octets. Writing is the usual encoding of each character. Reading accepts every
byte string: the longest beginning of a character that cannot be completed becomes one
replacement character, and reading goes on at the octet that broke it.
-/

namespace MavPayload.Text.Utf8

def encode (text : String) : List UInt8 :=
  text.toList.flatMap String.utf8EncodeChar

def replacement : Char := '\uFFFD'

/-- A character whose first octets have been read: how many octets follow the next one,
the range of the next one, and the value so far. -/
structure Unfinished where
  more : Nat
  low : UInt8
  high : UInt8
  value : Nat
deriving DecidableEq, Repr

/-- What an octet does at the start of a character. The ranges leave out overlong forms,
surrogates and values above the last character. -/
def start (byte : UInt8) : List Char × Option Unfinished :=
  if byte < 0x80 then ([Char.ofNat byte.toNat],none)
  else if byte < 0xC2 then ([replacement],none)
  else if byte < 0xE0 then ([],some ⟨0,0x80,0xBF,byte.toNat - 0xC0⟩)
  else if byte < 0xF0 then
    ([],some ⟨1,if byte = 0xE0 then 0xA0 else 0x80,if byte = 0xED then 0x9F else 0xBF,
      byte.toNat - 0xE0⟩)
  else if byte < 0xF5 then
    ([],some ⟨2,if byte = 0xF0 then 0x90 else 0x80,if byte = 0xF4 then 0x8F else 0xBF,
      byte.toNat - 0xF0⟩)
  else ([replacement],none)

/-- What an octet does inside a character: it continues or completes it, or breaks it and
starts another. -/
def proceed (unfinished : Unfinished) (byte : UInt8) : List Char × Option Unfinished :=
  if unfinished.low ≤ byte ∧ byte ≤ unfinished.high then
    let value := unfinished.value * 64 + (byte.toNat - 0x80)
    match unfinished.more with
    | 0 => ([Char.ofNat value],none)
    | more + 1 => ([],some ⟨more,0x80,0xBF,value⟩)
  else
    let (chars,next) := start byte
    (replacement :: chars,next)

def step : Option Unfinished → UInt8 → List Char × Option Unfinished
  | none,byte => start byte
  | some unfinished,byte => proceed unfinished byte

def readFrom : Option Unfinished → List UInt8 → List Char
  | none,[] => []
  | some _,[] => [replacement]
  | state,byte :: rest => (step state byte).1 ++ readFrom (step state byte).2 rest

def decodeLossy (bytes : List UInt8) : String :=
  String.ofList (readFrom none bytes)

end MavPayload.Text.Utf8
