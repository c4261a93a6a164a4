import StoryEngine.Engine.Shadow
/-!
# StoryEngine.Builtin.Typing

The macro that types its contents out. The texts of a turn form a queue: only the first of them is
typed, and when it is typed out the next one starts. When the queue runs dry, the end of all
typing is announced.
-/

namespace StoryEngine.Builtin

variable {η σ : Type}

/-- The namespace of all listeners that have to do with typing. -/
def typingNamespace : String := "macro-type"

/-! ### Options -/

/-- The complaint about an option whose value is empty. -/
def emptyOption (what : String) : String :=
  what ++ " must be non-empty (received: \"\")"

/-- Why options are refused: with an error that is shown, or with a failure. -/
inductive OptionFault where
  | shown (message : String)
  | failed (f : Failure)

/-- The value of an option, which must not be empty. -/
def optionValue (missing what : String) : Option String → Except OptionFault String
  | none => .error (.shown missing)
  | some value =>
    if value.isEmpty then .error (.failed (.message (emptyOption what))) else .ok value

/-- The delay that a time value stands for, which must not be negative. -/
def startDelay (time : String) : Except Failure Nat :=
  match milliseconds time with
  | .error e => .error (.time e)
  | .ok ms =>
    if ms < 0.0 then
      .error (.message
        ("start option time value must be non-negative (received: " ++ time ++ ")"))
    else
      match checkedDelay ms time with
      | .error e => .error (.time e)
      | .ok delay => .ok delay

/-- The value of the option for the delay. -/
def startOption : Option String → Except OptionFault Nat
  | none => .error (.shown "start option missing required time value")
  | some time =>
    match startDelay time with
    | .error f => .error (.failed f)
    | .ok delay => .ok delay

/-- Whether the option takes a value from the arguments behind it. -/
def takesValue (name : String) : Bool :=
  ["class", "element", "id", "skipkey", "start"].contains name

/-- The options with one more, whose value is given if it takes one. -/
def addOption (options : TypeOptions) (name : String) (value : Option String) :
    Except OptionFault TypeOptions :=
  match name with
  | "class" =>
    (optionValue "class option missing required class name(s)" "class option class name(s)"
      value).map fun v => { options with classes := some v }
  | "element" =>
    (optionValue "element option missing required element tag name" "element option tag name"
      value).map fun v => { options with tag := v }
  | "id" =>
    (optionValue "id option missing required ID" "id option ID" value).map fun v =>
      { options with elementId := some v }
  | "skipkey" =>
    (optionValue "skipkey option missing required key value" "skipkey option key value"
      value).map fun v => { options with skipKey := v }
  | "start" => (startOption value).map fun v => { options with start := v }
  | "keep" => .ok { options with cursor := .kept }
  | "none" => .ok { options with cursor := .hidden }
  | other => .error (.shown ("unknown option: " ++ other))

/-- The options that the arguments behind the speed give. -/
def typeOptions (options : TypeOptions) : List String → Except OptionFault TypeOptions
  | [] => .ok options
  | [name] => addOption options name none
  | name :: value :: rest =>
    if takesValue name then
      match addOption options name (some value) with
      | .error e => .error e
      | .ok options => typeOptions options rest
    else
      match addOption options name none with
      | .error e => .error e
      | .ok options => typeOptions options (value :: rest)

/-! ### The queue -/

/-- Drop all listeners that have to do with typing. -/
def dropTyping : Run η σ Unit :=
  Run.unlisten none typingNamespace

/-- Begin the turn's queue, if there is none, and tell whether the queue is empty. -/
def openQueue : Run η σ Bool := do
  match (← get).typeQueue with
  | some queue => return queue.isEmpty
  | none =>
    dropTyping
    Run.listen ⟨.passageInit, some typingNamespace, true, .dropTyping⟩
    modify fun e => { e with typeQueue := some (e.typeQueue.getD []) }
    return true

/-- Put a text with a new identity at the end of the queue. Its handler runs what `body` makes of
the identity. -/
def enqueue (context : Context η) (body : Nat → Callback η) : Run η σ Unit := do
  let id := (← get).nextTypeId
  modify fun e => { e with nextTypeId := e.nextTypeId + 1 }
  let handler ← ShadowHandler.make context none (some (body id)) none
  modify fun e => { e with typeQueue := some (e.typeQueue.getD [] ++ [⟨id, handler⟩]) }

/-- Put a text into the queue, and tell whether its turn has come: it is the first, and no passage
is being rendered. A first text waits for the end of the passage. -/
def joinQueue (context : Context η) (body : Nat → Callback η) : Run η σ Bool := do
  let isFirst ← openQueue
  enqueue context body
  if !isFirst then return false
  else if (← get).isPlaying then
    Run.listen ⟨.passageEnd, some typingNamespace, true, .startTyping⟩
    return false
  else return true

/-- The handler of the first text of the queue. -/
def firstText : Run η σ (Option HandlerId) := do
  match (← get).typeQueue with
  | some (job :: _) => return some job.handler
  | _ => return none

/-- Start the first text of the queue, if there is one. -/
def startFirst (perform : Perform η σ) : Run η σ Unit := do
  match ← firstText with
  | some handler => perform (.invoke handler .nothing)
  | none => pure ()

/-- Queue a call's text, and start it if its turn has come. -/
def queueText (perform : Perform η σ) (context : Context η) (speed : Nat)
    (options : TypeOptions) : Run η σ Unit := do
  let call := context.call
  call.showModes ["block"]
  let className := "macro-" ++ call.name
  let parent ← call.target
  let target ← Run.withTree fun t => t.appendElement parent options.tag
  Run.changeTree fun t => t.addClass target (className ++ " " ++ className ++ "-target")
  let isNext ← joinQueue context fun id =>
    .typeBody ⟨id, speed, options, className, call.contents, parent, target⟩
  if isNext then perform .startTyping

/-- Type the contents out, when it is their turn. -/
def runType (perform : Perform η σ) (context : Context η) : Run η σ Unit := do
  let call := context.call
  match call.args.values.map Value.display with
  | [] => call.error "no speed specified"
  | speedText :: rest =>
    match milliseconds speedText with
    | .error e => Run.fail (.time e)
    | .ok ms =>
      if ms < 0.0 then
        call.error ("speed time value must be non-negative (received: " ++ speedText ++ ")")
      else
        match checkedDelay ms speedText with
        | .error e => call.error e.message
        | .ok speed =>
          match typeOptions { skipKey := (← get).config.typeSkipKey } rest with
          | .error (.shown message) => call.error message
          | .error (.failed f) => Run.fail f
          | .ok options =>
            unless isBlankText call.contents do queueText perform context speed options

/-! ### Typing -/

/-- Change a text that is being typed out. -/
def modifyTyping (typing : Nat) (change : Typing → Typing) : Run η σ Unit :=
  modify fun e => { e with typings := e.typings.modify typing change }

/-- Change the typer of a text together with the display, with a result. -/
def withTyper {α : Type} (typing : Nat) (t : Typing) (change : Typer → Tree → α × Typer × Tree) :
    Run η σ α := do
  let (a, typer) ← Run.withTree fun tree =>
    let (a, typer, tree) := change t.typer tree
    ((a, typer), tree)
  modifyTyping typing fun t => { t with typer := typer }
  return a

/-- The texts that wait when the one with an identity is done: it leaves the queue if it is the
first. -/
def textsAfter (id : Nat) : List TypeJob → List TypeJob
  | [] => []
  | job :: rest => if job.id = id then rest else job :: rest

/-- A text is typed out or given up: it leaves the queue, the next one gets its turn, and its
element shows that it is done. -/
def stopTyping (perform : Perform η σ) (typing : Nat) (t : Typing) : Run η σ Unit := do
  unless t.isStopped do
    modifyTyping typing fun t => { t with isStopped := true }
    modify fun e => { e with typeQueue := e.typeQueue.map (textsAfter t.id) }
    perform (.trigger .typingStop "")
    let wrapper := t.typer.wrapper
    Run.changeTree fun tree =>
      let tree := (tree.removeClass wrapper t.cursorClass).addClass wrapper t.doneClass
      if t.cursor = .kept then tree.addClass wrapper t.cursorClass else tree

/-- Type the first letter of a text, and set the interval for the others. -/
def beginTyping (perform : Perform η σ) (typing : Nat) : Run η σ Unit := do
  match (← get).typings[typing]? with
  | none => pure ()
  | some t =>
    if ← Run.isStale t.moment then modifyTyping typing fun t => { t with isStopped := true }
    else
      perform (.trigger .typingStart "")
      match (← get).typings[typing]? with
      | none => pure ()
      | some t =>
        if ← withTyper typing t Typer.typeNext then
          let _ ← Run.withClock fun c => c.setInterval t.speed (.typeLetter typing)
        else stopTyping perform typing t

/-- Type the next letter of a text. -/
def typeLetter (perform : Perform η σ) (typing : Nat) (id : TimerId) : Run η σ Unit := do
  match (← get).typings[typing]? with
  | none => pure ()
  | some t =>
    if t.isStopped then Run.changeClock fun c => c.clearTimer id
    else if ← Run.isStale t.moment then
      modifyTyping typing fun t => { t with isStopped := true }
      Run.changeClock fun c => c.clearTimer id
    else
      unless ← withTyper typing t Typer.typeNext do
        Run.changeClock fun c => c.clearTimer id
        stopTyping perform typing t

/-- A key is pressed while a text is typed: the right one finishes it. -/
def skipTyping (typing : Nat) (key : String) : Run η σ Unit := do
  match (← get).typings[typing]? with
  | none => pure ()
  | some t =>
    if key = t.skipKey then
      Run.unlisten (some .keydown) typingNamespace
      withTyper typing t fun typer tree => ((), typer.finish tree)

/-- A text is typed out: the next one of the queue starts, or the end is announced. -/
def nextTyping (perform : Perform η σ) : Run η σ Unit := do
  match (← get).typeQueue with
  | none => pure ()
  | some [] => perform (.trigger .typingComplete "")
  | some _ => perform .startTyping

/-- The element around a text, with the text rendered in it. -/
def wrapText (perform : Perform η σ) (call : TypeCall) : Run η σ ElementId := do
  let wrapper ← Run.withTree fun t => t.newElement call.options.tag
  Run.changeTree fun t =>
    let t := t.addClass wrapper call.className
    let t :=
      match call.options.elementId with
      | some id => t.setAttr wrapper "id" id
      | none => t
    match call.options.classes with
    | some classes => t.addClass wrapper classes
    | none => t
  perform (.render (← Run.fromTree fun t => t.content wrapper) call.contents)
  return wrapper

/-- A text is shown at once and not typed: it has no speed, its passage was seen before and is
not to be typed again, or it has errors. -/
def isShownAtOnce (call : TypeCall) (wrapper : ElementId) : Run η σ Bool := do
  let e ← get
  return call.speed = 0 ||
    (!e.config.typeVisitedPassages && e.state.visitedBefore e.state.passage) ||
    !(e.tree.errors (e.tree.content wrapper)).isEmpty

/-- Take the first text off the queue, and tell whether others are left. -/
def dequeue : Run η σ Bool := do
  modify fun e => { e with typeQueue := e.typeQueue.map List.tail }
  return (← get).typeQueue.any fun queue => !queue.isEmpty

/-- Listen to the key that finishes a text and to its end. -/
def listenToTyping (typing : Nat) : Run η σ Unit := do
  Run.unlisten (some .keydown) typingNamespace
  Run.listen ⟨.keydown, some typingNamespace, false, .skipTyping typing⟩
  Run.listen ⟨.typingStop, some typingNamespace, true, .nextTyping⟩

/-- Make the typing of a text that was rendered in a moment: its cursor is shown, and listeners
wait for the key that finishes it and for its end. -/
def makeTyping (call : TypeCall) (wrapper : ElementId) (moment : Moment) : Run η σ Nat := do
  let cursorClass := call.className ++ "-cursor"
  if call.options.cursor ≠ .hidden then
    Run.changeTree fun t => t.addClass wrapper cursorClass
  let typer ← Run.withTree fun t => Typer.ofElement t wrapper
  let typing := (← get).typings.size
  modify fun e => { e with
    typings := e.typings.push {
      id := call.id
      typer := typer
      cursorClass := cursorClass
      doneClass := call.className ++ "-done"
      cursor := call.options.cursor
      speed := call.speed
      skipKey := call.options.skipKey
      moment := moment } }
  listenToTyping typing
  return typing

/-- A text's turn has come: it is rendered in the place kept for it, and shown at once or typed
out. -/
def runTypeBody (perform : Perform η σ) (call : TypeCall) : Run η σ Unit := do
  let wrapper ← wrapText perform call
  let moment ← Run.moment
  let atOnce ← isShownAtOnce call wrapper
  let _ ← Run.withTree fun t => t.replaceElement call.parent call.target (.element wrapper)
  if atOnce then
    if ← dequeue then perform .startTyping
  else
    let typing ← makeTyping call wrapper moment
    if 0 < call.options.start then
      let _ ← Run.withClock fun c => c.setTimeout call.options.start (.beginTyping typing)
    else beginTyping perform typing

end StoryEngine.Builtin
