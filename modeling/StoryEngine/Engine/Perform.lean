import StoryEngine.Builtin.Capture
import StoryEngine.Builtin.Choose
import StoryEngine.Builtin.Link
import StoryEngine.Builtin.Loop
import StoryEngine.Builtin.Print
import StoryEngine.Builtin.Timed
import StoryEngine.Builtin.Typing
import StoryEngine.Engine.Host
import StoryEngine.Engine.Render
/-!
# StoryEngine.Engine.Perform

Doing what is asked of an engine. Every task may ask for further ones as part of it: a macro
renders its contents, a listener goes to another passage, a click does both. `perform` ties all
of this together. Its fuel bounds how deep tasks nest and how many timers fire while time passes;
a result that was reached without running out of it does not depend on it.
-/

namespace StoryEngine

variable {η σ : Type}

/-! ### Who does what -/

/-- Run a built-in macro. -/
def runBuiltin (perform : Perform η σ) (context : Context η) : Builtin → Run η σ Unit
  | .print => Builtin.runPrint perform context.call
  | .set => Builtin.runSet context.call
  | .unset => Builtin.runUnset context.call
  | .choose => Builtin.runChoose perform context.call
  | .loop => Builtin.runLoop perform context.call
  | .loopControl => Builtin.runLoopControl context
  | .capture => Builtin.runCapture perform context.call
  | .link => Builtin.runLink perform context
  | .«repeat» => Builtin.runRepeat context
  | .stop => Builtin.runStop context.call
  | .timed => Builtin.runTimed context
  | .type => Builtin.runType perform context

/-- Run what a macro's name stands for. -/
def runHandler (host : Host η σ) (perform : Perform η σ) (handler : Handler η)
    (context : Context η) : Run η σ Unit :=
  match handler with
  | .builtin b => runBuiltin perform context b
  | .host procedure => host perform procedure (.call context)

/-- Run a part of a deferred handler. -/
def runCallback (host : Host η σ) (perform : Perform η σ) (callback : Callback η)
    (arg : HandlerArg) : Run η σ Unit :=
  match callback with
  | .payload contents => Builtin.runPayload perform contents
  | .goTo title => perform (.navigate title)
  | .repeatBody wrapper contents isTransition =>
    Builtin.runRepeatBody perform wrapper contents isTransition
  | .timedBody wrapper isTransition =>
    match arg with
    | .item item => Builtin.runTimedBody perform wrapper isTransition item
    | _ => pure ()
  | .typeBody call => Builtin.runTypeBody perform call
  | .host procedure => host perform procedure (.part arg)

/-- Run a listener. -/
def runListener (host : Host η σ) (perform : Perform η σ) (detail : String) :
    ListenerAction η → Run η σ Unit
  | .clearRepeats => Builtin.clearRepeats
  | .clearTimed => Builtin.clearTimed
  | .dropTyping => Builtin.dropTyping
  | .startTyping => perform .startTyping
  | .skipTyping typing => Builtin.skipTyping typing detail
  | .nextTyping => Builtin.nextTyping perform
  | .host procedure => host perform procedure (.event detail)

/-- Run what a timer is set for. -/
def runTimer (host : Host η σ) (perform : Perform η σ) (timer : Timer (TimerAction η)) :
    Run η σ Unit :=
  match timer.action with
  | .repeatTick handler moment => Builtin.runRepeatTick perform handler moment timer.id
  | .timedStep chain => Builtin.runTimedStep perform chain timer.id
  | .settle element className => Run.changeTree fun t => t.removeClass element className
  | .beginTyping typing => Builtin.beginTyping perform typing
  | .typeLetter typing => Builtin.typeLetter perform typing timer.id
  | .host procedure => host perform procedure (.timer timer.id)

/-! ### Tasks -/

/-- Call listeners in order. A failure of one is noted and does not keep the others from being
called. -/
def callListeners (host : Host η σ) (perform : Perform η σ) (detail : String) :
    List (ListenerAction η) → Run η σ Unit
  | [] => pure ()
  | action :: rest => do
    Run.reporting (runListener host perform detail action)
    callListeners host perform detail rest

/-- Call those who listen to an event when it happens. -/
def trigger (host : Host η σ) (perform : Perform η σ) (event : Event) (detail : String) :
    Run η σ Unit := do
  let actions := (Listener.take (← get).listeners event).1
  modify fun e => { e with listeners := (Listener.take e.listeners event).2 }
  callListeners host perform detail actions

/-- The engine at the beginning of a turn: nothing that belongs to the passage shown so far is
left, except for what is displayed. -/
def Engine.beginTurn (e : Engine η σ) (title : String) : Engine η σ :=
  { e with
    state := e.state.advance title
    loopBreak := none
    repeatTimer := none
    typeQueue := none
    clickables := [] }

/-- Render a passage in the place of the one shown so far. -/
def showPassage (perform : Perform η σ) (source : String) : Run η σ Unit := do
  modify fun e => { e with tree := e.tree.clear e.display, isPlaying := true }
  perform (.render (← get).display source)
  modify fun e => { e with isPlaying := false }

/-- Go to a passage: begin a turn, and render the passage in the place of the one shown so far. -/
def navigate (perform : Perform η σ) (title : String) : Run η σ Unit := do
  match Entries.find? title (← get).passages with
  | none => Run.failWith ("passage \"" ++ title ++ "\" does not exist")
  | some source => do
    modify fun e => e.beginTurn title
    perform (.trigger .passageInit title)
    showPassage perform source
    perform (.trigger .passageEnd title)

/-- Take the next timer that is due by a time. -/
def takeTimer (limit : Nat) : Run η σ (Option (Timer (TimerAction η))) := do
  match (← get).clock.takeDue limit with
  | none => return none
  | some (timer, clock) =>
    modify fun e => { e with clock := clock }
    return some timer

/-- Fire the timers that are due by a time, one after another. The fuel bounds their number. A
failure of one is noted and does not keep the others from firing. -/
def fireDue (host : Host η σ) (perform : Perform η σ) (limit : Nat) : Nat → Run η σ Unit
  | 0 => throw .outOfFuel
  | fuel + 1 => do
    match ← takeTimer limit with
    | none => pure ()
    | some timer => do
      Run.reporting (runTimer host perform timer)
      fireDue host perform limit fuel

/-- Let time pass: the timers that are due by then fire, and the clock moves on. -/
def advance (host : Host η σ) (perform : Perform η σ) (fuel ms : Nat) : Run η σ Unit := do
  let limit := Clock.later (← get).clock.now ms
  fireDue host perform limit fuel
  Run.changeClock fun c => c.setNow limit

/-- Do a task, of which the parts are done by `perform`. -/
def performTask (host : Host η σ) (perform : Perform η σ) (fuel : Nat) : Perform η σ
  | .render out source => render (runHandler host perform) out source
  | .trigger event detail => trigger host perform event detail
  | .navigate title => navigate perform title
  | .invoke handler arg => invokeHandler (runCallback host perform) handler arg
  | .startTyping => Builtin.startFirst perform
  | .advance ms => advance host perform fuel ms

/-- Do a task. -/
def perform (host : Host η σ) : Nat → Perform η σ
  | 0 => fun _ => throw .outOfFuel
  | fuel + 1 => performTask host (perform host fuel) fuel

end StoryEngine
