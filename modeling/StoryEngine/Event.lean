/-!
# StoryEngine.Event

Events and those who listen to them. Listeners are called in the order in which they registered.
A listener can be for one call only, and it can belong to a namespace, by which it is removed
together with others.
-/

namespace StoryEngine

/-- What can happen. -/
inductive Event where
  /-- A passage is about to be rendered. -/
  | passageInit
  /-- A passage has been rendered. -/
  | passageEnd
  /-- A text begins to be typed out. -/
  | typingStart
  /-- A text is typed out. -/
  | typingStop
  /-- All texts of the turn are typed out. -/
  | typingComplete
  /-- A key is pressed. -/
  | keydown
deriving Repr, DecidableEq

/-- A registered listener that does `κ` when it is called. -/
structure Listener (κ : Type) where
  event : Event
  «namespace» : Option String
  /-- The listener is removed before its first call. -/
  once : Bool
  action : κ

namespace Listener

variable {κ : Type}

/-- The listeners without those of a namespace, for one event or for all. -/
def off (listeners : List (Listener κ)) (event : Option Event) (name : String) :
    List (Listener κ) :=
  listeners.filter fun l => l.namespace != some name || event.any (· != l.event)

/-- How many listeners an event has. -/
def count (listeners : List (Listener κ)) (event : Event) : Nat :=
  (listeners.filter fun l => l.event = event).length

/-- What the listeners of an event do, and the listeners that are left for its next time. -/
def take (listeners : List (Listener κ)) (event : Event) : List κ × List (Listener κ) :=
  ((listeners.filter fun l => l.event = event).map (·.action),
    listeners.filter fun l => !(l.event = event && l.once))

end Listener

end StoryEngine
