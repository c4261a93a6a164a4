import StoryEngine.Engine.Shadow
/-!
# StoryEngine.Builtin.Repeat

The macro that renders its contents at intervals, and the one that ends the interval whose
contents are being rendered. Intervals belong to the moment in which they were made. As long as
any are under way, a listener waits to cancel all of them when the player moves on.
-/

namespace StoryEngine.Builtin

variable {η σ : Type}

/-- The word asks for a transition. -/
def isTransition (word : Option String) : Bool :=
  word == some "transition" || word == some "t8n"

/-- Put an element for a transition at the end of an output. It loses the mark of being new after
the least delay. -/
def appendTransition (out : OutputId) (classes newClass : String) : Run η σ ElementId := do
  let element ← Run.withTree fun t => t.appendElement out "span"
  Run.changeTree fun t => t.addClass element classes
  let delay := (← get).config.domDelayMs
  let _ ← Run.withClock fun c => c.setTimeout delay (.settle element newClass)
  return element

/-- Set the interval of a call. -/
def startInterval (handler : HandlerId) (delay : Nat) : Run η σ Unit := do
  let moment ← Run.moment
  let id ← Run.withClock fun c => c.setInterval delay (.repeatTick handler moment)
  let isFirst := (← get).repeatTimers.isEmpty
  modify fun e => { e with repeatTimers := e.repeatTimers ++ [id] }
  if isFirst then Run.listen ⟨.passageInit, none, true, .clearRepeats⟩

/-- Render the contents at intervals. -/
def runRepeat (context : Context η) : Run η σ Unit := do
  let call := context.call
  match call.args.text? 0 with
  | none => call.error "no time value specified"
  | some time =>
    match delayOf time (← get).config.domDelayMs with
    | .error e => call.error e.message
    | .ok delay =>
      call.showModes ["block"]
      let out ← call.target
      let wrapper ← Run.withTree fun t => t.appendElement out "span"
      Run.changeTree fun t => t.addClass wrapper ("macro-" ++ call.name)
      let body := Callback.repeatBody wrapper call.contents (isTransition (call.args.text? 1))
      let handler ← ShadowHandler.make context none (some body) none
      startInterval handler delay

/-- Render the body of an interval behind what its wrapper holds. -/
def runRepeatBody (perform : Perform η σ) (wrapper : ElementId) (contents : String)
    (isTransition : Bool) : Run η σ Unit := do
  let fragment ← Run.withTree fun t => t.newOutput
  perform (.render fragment contents)
  let content ← Run.fromTree fun t => t.content wrapper
  if isTransition then
    let insert ← appendTransition content "macro-repeat-insert macro-repeat-in" "macro-repeat-in"
    Run.changeTree fun t => t.appendAll (t.content insert) fragment
  else Run.changeTree fun t => t.appendAll content fragment

/-- Forget an interval. -/
def forgetRepeat (id : TimerId) : Run η σ Unit :=
  modify fun e => { e with repeatTimers := e.repeatTimers.filter (· ≠ id) }

/-- Run a computation as the tick of an interval. No loop is being left before and after it. -/
def asTick (id : TimerId) (x : Run η σ Unit) : Run η σ Unit := do
  let previous := (← get).repeatTimer
  modify fun e => { e with loopBreak := none, repeatTimer := some id }
  Run.andFinally x fun e => { e with repeatTimer := previous, loopBreak := none }

/-- An interval ticks: its body is rendered, or it is cancelled if the player has moved on. -/
def runRepeatTick (perform : Perform η σ) (handler : HandlerId) (moment : Moment) (id : TimerId) :
    Run η σ Unit := do
  if ← Run.isStale moment then
    Run.changeClock fun c => c.clearTimer id
    forgetRepeat id
  else asTick id (perform (.invoke handler .nothing))

/-- Cancel all intervals. -/
def clearRepeats : Run η σ Unit :=
  modify fun e => { e with
    clock := e.clock.clearTimers e.repeatTimers
    repeatTimers := [] }

/-- Forget a timer among those of the macro that the name `repeat` stands for by now. -/
def forgetAmongRepeats (id : TimerId) : Run η σ Unit := do
  match ((← get).registry.get? "repeat").bind fun entry => entry.definition.handler with
  | some (.builtin .«repeat») => forgetRepeat id
  | some (.builtin .timed) =>
    modify fun e => { e with timedTimers := e.timedTimers.filter (· ≠ id) }
  | _ => pure ()

/-- End the interval whose body is being rendered, and render no more of the body. -/
def runStop (call : MacroCall η) : Run η σ Unit := do
  match (← get).repeatTimer with
  | none => call.error "must only be used in conjunction with its parent macro <<repeat>>"
  | some id =>
    Run.changeClock fun c => c.clearTimer id
    forgetAmongRepeats id
    modify fun e => { e with loopBreak := some .«break» }
    call.showModes ["hidden"]

end StoryEngine.Builtin
