import StoryEngine.Engine.Work
import StoryEngine.Settings.Config
/-!
# StoryEngine.Engine.Basic

An engine: the passages and variables of a story, what is displayed, what is being rendered and
what is put off. What an engine does is a computation on it that can fail; what was done before a
failure stays done. Work that sets off further work without end runs out of fuel, which is no
failure and cannot be recovered from.
-/

namespace StoryEngine

/-- An engine with procedures `η` and further state `σ` of its host. -/
structure Engine (η σ : Type) where
  config : Config
  registry : Registry (Handler η) := {}
  state : State := {}
  /-- The sources of the passages, by title. -/
  passages : Entries String := []
  /-- All that is displayed anywhere. -/
  tree : Tree
  /-- Where passages are displayed. -/
  display : OutputId
  /-- The context of the call being executed. -/
  current : Option (Context η) := none
  /-- What changes about calls, by their identities. -/
  calls : Array CallState := #[]
  handlers : Array (ShadowHandler η) := #[]
  clickables : List Clickable := []
  clock : Clock (TimerAction η) := {}
  listeners : List (Listener (ListenerAction η)) := []
  /-- Failures of deferred work that nobody has taken yet. -/
  errors : List Failure := []
  /-- How many renders are under way inside one another. -/
  renderDepth : Nat := 0
  /-- Renders never nest deeper than the settings allow. -/
  renderDepth_le : renderDepth ≤ config.maxRenderDepth := by exact Nat.zero_le _
  /-- A passage is being rendered because the player went there. -/
  isPlaying : Bool := false
  /-- A loop is being left. -/
  loopBreak : Option LoopBreak := none
  /-- The interval whose body is being rendered. -/
  repeatTimer : Option TimerId := none
  /-- The texts to be typed out, if there have been any in this turn. -/
  typeQueue : Option (List TypeJob) := none
  /-- The intervals that are under way. -/
  repeatTimers : List TimerId := []
  /-- The chains of clauses that are under way. -/
  timedTimers : List TimerId := []
  chains : Array TimedChain := #[]
  typings : Array Typing := #[]
  /-- The identity of the next text to be typed out. -/
  nextTypeId : Nat := 0
  host : σ

/-- Why a computation did not come to its end. -/
inductive Halt where
  | failure (f : Failure)
  | outOfFuel

/-- A computation on an engine. -/
abbrev Run (η σ α : Type) := ExceptT Halt (StateM (Engine η σ)) α

/-- How one piece of work has another one done. -/
abbrev Perform (η σ : Type) := Task → Run η σ Unit

variable {η σ α : Type}

namespace Run

/-- Fail. -/
def fail (f : Failure) : Run η σ α :=
  throw (.failure f)

/-- Fail for a reason given in words. -/
def failWith (text : String) : Run η σ α :=
  fail (.message text)

/-- Run a computation up to its end or failure. -/
def attempt (x : Run η σ α) : Run η σ (Except Failure α) := fun e =>
  match x e with
  | (.ok a, e) => (.ok (.ok a), e)
  | (.error (.failure f), e) => (.ok (.error f), e)
  | (.error .outOfFuel, e) => (.error .outOfFuel, e)

/-- Go on with the outcome of an attempt. -/
def settle : Except Failure α → Run η σ α
  | .ok a => pure a
  | .error f => fail f

/-- Run a computation and then, whether it failed or not, a change of the engine. -/
def andFinally (x : Run η σ α) (change : Engine η σ → Engine η σ) : Run η σ α := do
  let outcome ← attempt x
  modify change
  settle outcome

/-- Change what is displayed. -/
def changeTree (change : Tree → Tree) : Run η σ Unit :=
  modify fun e => { e with tree := change e.tree }

/-- Change what is displayed, with a result. -/
def withTree (change : Tree → α × Tree) : Run η σ α := do
  let e ← get
  let (a, tree) := change e.tree
  set { e with tree := tree }
  return a

/-- Something that can be told from the display. -/
def fromTree (read : Tree → α) : Run η σ α := do
  return read (← get).tree

/-- Evaluate on the variables of the story. -/
def evaluating (x : Evaluation α) : Run η σ (Except ExprError α) := do
  let e ← get
  let (result, state) := x.run.run e.state
  set { e with state := state }
  return result

/-- Read arguments on the variables of the story. -/
def reading (x : ArgumentReading α) : Run η σ (Except ArgumentError α) := do
  let e ← get
  let (result, state) := x.run.run e.state
  set { e with state := state }
  return result

/-- Change the variables of the story, unless a name is no variable. -/
def changingState (change : State → Except InvalidVariable State) : Run η σ Unit := do
  match change (← get).state with
  | .ok state => modify fun e => { e with state := state }
  | .error error => fail (.context (.invalidVariable error))

/-- Change the clock, with a result. -/
def withClock (change : Clock (TimerAction η) → α × Clock (TimerAction η)) : Run η σ α := do
  let e ← get
  let (a, clock) := change e.clock
  set { e with clock := clock }
  return a

/-- Change the clock. -/
def changeClock (change : Clock (TimerAction η) → Clock (TimerAction η)) : Run η σ Unit :=
  modify fun e => { e with clock := change e.clock }

/-- Register a listener. -/
def listen (listener : Listener (ListenerAction η)) : Run η σ Unit :=
  modify fun e => { e with listeners := e.listeners ++ [listener] }

/-- Remove the listeners of a namespace, for one event or for all. -/
def unlisten (event : Option Event) (name : String) : Run η σ Unit :=
  modify fun e => { e with listeners := Listener.off e.listeners event name }

/-- Note a failure that nobody handles. -/
def report (f : Failure) : Run η σ Unit :=
  modify fun e => { e with errors := e.errors ++ [f] }

/-- Run a computation, and note its failure. -/
def reporting (x : Run η σ Unit) : Run η σ Unit := do
  match ← attempt x with
  | .ok () => pure ()
  | .error f => report f

/-- The moment that the story is in. -/
def moment : Run η σ Moment := do
  let e ← get
  return ⟨e.state.passage, e.state.turns⟩

/-- The story has left a moment. -/
def isStale (m : Moment) : Run η σ Bool := do
  return (← moment) ≠ m

end Run

end StoryEngine
