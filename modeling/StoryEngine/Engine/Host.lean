import StoryEngine.Engine.Basic
/-!
# StoryEngine.Engine.Host

Hosts. A program that embeds an engine can have procedures of its own run: as macros, when an
event happens, when a timer fires, or as parts of deferred handlers.
-/

namespace StoryEngine

/-- The occasion on which a procedure of the host runs. -/
inductive Occasion (η : Type) where
  /-- A macro is called. -/
  | call (context : Context η)
  /-- A timer fires. -/
  | timer (id : TimerId)
  /-- An event happens. -/
  | event (detail : String)
  /-- A part of a deferred handler runs. -/
  | part (arg : HandlerArg)

/-- How a host runs its procedures, which can have work done by the engine. -/
abbrev Host (η σ : Type) := Perform η σ → η → Occasion η → Run η σ Unit

/-- A host without procedures. -/
def Host.idle {σ : Type} : Host Empty σ := fun _ procedure _ => nomatch procedure

end StoryEngine
