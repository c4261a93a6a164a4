import StoryEngine.Builtin.Repeat
/-!
# StoryEngine.Builtin.Timed

The macro that renders its clauses one after another, each after a delay of its own. The timer of
a clause is set before the clause in front of it is rendered, so that an error there does not
keep the others from their turn. As long as chains of clauses are under way, a listener waits to
cancel all of them when the player moves on.
-/

namespace StoryEngine.Builtin

variable {η σ : Type}

/-- The clauses behind the first, of which the next has the index. A clause without a time value
has the delay of the one in front of it. -/
def nextItems (floor : Nat) : Nat → Nat → List PayloadClause → Except String (List TimedItem)
  | _, _, [] => .ok []
  | index, previous, clause :: rest =>
    let delay? : Except TimeError Nat :=
      match clause.args.text? 0 with
      | none => .ok previous
      | some time => delayOf time floor
    match delay? with
    | .error e => .error (e.message ++ " in <<next>> (#" ++ toString index ++ ")")
    | .ok delay =>
      match nextItems floor (index + 1) delay rest with
      | .error e => .error e
      | .ok items => .ok (⟨clause.name, clause.source, delay, clause.contents⟩ :: items)

/-- The clauses of a call with their delays: the first, and the others. -/
def timedItems (call : MacroCall η) (floor : Nat) :
    Except String (TimedItem × List TimedItem) :=
  match call.args.text? 0 with
  | none => .error "no time value specified in <<timed>>"
  | some time =>
    match delayOf time floor with
    | .error e => .error (e.message ++ " in <<timed>>")
    | .ok delay =>
      match nextItems floor 1 delay (call.payload.drop 1) with
      | .error e => .error e
      | .ok items => .ok (⟨call.name, call.source, delay, call.contents⟩, items)

/-- Set the timer for the next clause of a chain. -/
def scheduleChain (chain : Nat) (delay : Nat) : Run η σ Unit := do
  let id ← Run.withClock fun c => c.setTimeout delay (.timedStep chain)
  modify fun e => { e with timedTimers := e.timedTimers ++ [id] }

/-- Make a chain of clauses, which a new handler renders. -/
def makeChain (context : Context η) (body : Callback η) (items : List TimedItem) :
    Run η σ Nat := do
  let handler ← ShadowHandler.make context none (some body) none
  let moment ← Run.moment
  let chain := (← get).chains.size
  modify fun e => { e with chains := e.chains.push ⟨handler, items, moment⟩ }
  return chain

/-- Begin a chain of clauses, of which the first has the delay. -/
def startChain (chain delay : Nat) : Run η σ Unit := do
  scheduleChain chain delay
  if (← get).timedTimers.length = 1 then
    Run.listen ⟨.passageInit, none, true, .clearTimed⟩

/-- Render the clauses one after another. -/
def runTimed (context : Context η) : Run η σ Unit := do
  let call := context.call
  match timedItems call (← get).config.domDelayMs with
  | .error message => call.error message
  | .ok (first, others) =>
    call.showModes ["block"]
    let out ← call.target
    let wrapper ← Run.withTree fun t => t.appendElement out "span"
    Run.changeTree fun t => t.addClass wrapper ("macro-" ++ call.name)
    let body := Callback.timedBody wrapper (isTransition (call.args.text? 1))
    let chain ← makeChain context body (first :: others)
    startChain chain first.delay

/-- Where a clause is rendered: in the wrapper, and there in a debug view of its own if it is not
the first and debug views are made. -/
def itemTarget (wrapper : ElementId) (item : TimedItem) : Run η σ OutputId := do
  let content ← Run.fromTree fun t => t.content wrapper
  if (← get).config.debug && item.name == "next" then
    let view ← Run.withTree fun t => t.appendView content "macro" item.name item.source
    Run.fromTree fun t => t.inside view
  else return content

/-- Render a clause behind what the wrapper holds. -/
def runTimedBody (perform : Perform η σ) (wrapper : ElementId) (isTransition : Bool)
    (item : TimedItem) : Run η σ Unit := do
  let fragment ← Run.withTree fun t => t.newOutput
  perform (.render fragment item.contents)
  let target ← itemTarget wrapper item
  if isTransition then
    let insert ← appendTransition target "macro-timed-insert macro-timed-in" "macro-timed-in"
    Run.changeTree fun t => t.appendAll (t.content insert) fragment
  else Run.changeTree fun t => t.appendAll target fragment

/-- Take the clause of a chain that is due, with the handler that renders it, and set the timer of
its successor. A chain that the player has left is dropped. -/
def takeItem (chain : Nat) (id : TimerId) : Run η σ (Option (HandlerId × TimedItem)) := do
  modify fun e => { e with timedTimers := e.timedTimers.filter (· ≠ id) }
  match (← get).chains[chain]? with
  | none => return none
  | some c =>
    if ← Run.isStale c.moment then return none
    else
      match c.items with
      | [] => return none
      | item :: rest =>
        modify fun e => { e with chains := e.chains.modify chain fun c => { c with items := rest } }
        if let next :: _ := rest then scheduleChain chain next.delay
        return some (c.handler, item)

/-- The next clause of a chain is due: it is rendered. -/
def runTimedStep (perform : Perform η σ) (chain : Nat) (id : TimerId) : Run η σ Unit := do
  match ← takeItem chain id with
  | some (handler, item) => perform (.invoke handler (.item item))
  | none => pure ()

/-- Cancel all chains. -/
def clearTimed : Run η σ Unit :=
  modify fun e => { e with
    clock := e.clock.clearTimers e.timedTimers
    timedTimers := [] }

end StoryEngine.Builtin
