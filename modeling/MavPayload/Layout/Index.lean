import MavPayload.Layout
import MavPayload.SortedMap

/-!
Layouts of several messages: a map from ids to layouts and one from names to ids. Each is
changed by itself. That they lead to each other is up to whoever fills them.
-/

namespace MavPayload

structure LayoutIndex where
  layouts : SortedMap Nat Layout := []
  ids : SortedMap String Nat := []
deriving DecidableEq, Repr

namespace LayoutIndex

def byId? (index : LayoutIndex) (id : Nat) : Option Layout :=
  index.layouts.get? id

def idOf? (index : LayoutIndex) (name : String) : Option Nat :=
  index.ids.get? name

def byName? (index : LayoutIndex) (name : String) : Option Layout :=
  (index.idOf? name).bind index.byId?

def holdLayout (index : LayoutIndex) (id : Nat) (layout : Layout) : LayoutIndex :=
  { index with layouts := index.layouts.insert id layout }

def holdName (index : LayoutIndex) (name : String) (id : Nat) : LayoutIndex :=
  { index with ids := index.ids.insert name id }

/-- The layouts in ascending order of the ids that they are held under. -/
def toList (index : LayoutIndex) : List Layout :=
  index.layouts.map Prod.snd

def map {α : Type} (index : LayoutIndex) (view : Layout → α) : List α :=
  index.toList.map view

def length (index : LayoutIndex) : Nat :=
  index.layouts.length

def isEmpty (index : LayoutIndex) : Bool :=
  index.layouts.isEmpty

instance : Membership Layout LayoutIndex :=
  ⟨fun index layout => layout ∈ index.toList⟩

instance (layout : Layout) (index : LayoutIndex) : Decidable (layout ∈ index) :=
  inferInstanceAs (Decidable (layout ∈ index.toList))

end LayoutIndex

end MavPayload
