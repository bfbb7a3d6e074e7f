/-!
Texts set in columns. A column is as wide as it is said to be, in characters, or wider if
its text is.
-/

namespace MavPayload.Text

def leftAligned (width : Nat) (text : String) : String :=
  text ++ String.ofList (List.replicate (width - text.length) ' ')

def rightAligned (width : Nat) (text : String) : String :=
  String.ofList (List.replicate (width - text.length) ' ') ++ text

end MavPayload.Text
