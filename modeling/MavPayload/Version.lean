/-!
The two generations of frames. A first-generation payload carries the base fields and
nothing else; a second-generation payload carries the extensions too and may end early.
-/

namespace MavPayload

inductive Version where
  | v1
  | v2
deriving DecidableEq, Repr

namespace Version

instance : Inhabited Version := ⟨v2⟩

def isV2 : Version → Bool
  | v1 => false
  | v2 => true

def ofIsV2 : Bool → Version
  | true => v2
  | false => v1

def label : Version → String
  | v1 => "v1"
  | v2 => "v2"

def ofLabel? : String → Option Version
  | "v1" => some v1
  | "v2" => some v2
  | _ => none

end Version

end MavPayload
