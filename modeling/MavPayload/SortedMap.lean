/-!
Finite maps as lists of entries in ascending order of their keys, each key once. Maps with
the same entries are the same list, in whatever order they were filled.
-/

namespace MavPayload

abbrev SortedMap (κ α : Type) := List (κ × α)

namespace SortedMap

variable {κ α : Type}

def get? [DecidableEq κ] : SortedMap κ α → κ → Option α
  | [],_ => none
  | (key,value) :: rest,wanted => if key = wanted then some value else get? rest wanted

def insert [LT κ] [DecidableLT κ] [DecidableEq κ] : SortedMap κ α → κ → α → SortedMap κ α
  | [],key,value => [(key,value)]
  | (other,old) :: rest,key,value =>
    if key < other then (key,value) :: (other,old) :: rest
    else if key = other then (key,value) :: rest
    else (other,old) :: insert rest key value

end SortedMap

end MavPayload
