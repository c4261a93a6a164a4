import StoryEngine.Builtin.LoopForm
import StoryEngine.Decimal.Layout
import StoryEngine.Engine.Shadow
/-!
# StoryEngine.Builtin.Loop

The loop macro, and the macros that leave a loop or go on with its next pass. A loop renders its
contents at most as often as the settings allow. Whatever happens in it, no loop is being left
when it ends.
-/

namespace StoryEngine.Builtin

variable {η σ : Type}

/-- Consume the wish to leave or continue the loop, and tell whether it was to leave. -/
def takeBreak : Run η σ Bool := do
  let pending := (← get).loopBreak
  modify fun e => { e with loopBreak := none }
  return pending = some .«break»

/-- The loop's body in its first pass or in a later one. A line feed at its beginning is dropped
in the first. -/
def passBody (body : List Char) (isFirst : Bool) : String :=
  String.ofList (if isFirst then (stripStart? ['\n'] body).getD body else body)

/-- A body that displays nothing is hidden in its debug view. -/
def hideBlank (call : MacroCall η) (body : List Char) : Run η σ Unit := do
  if body.all isBlank then call.showModes ["hidden"]

/-- The complaint about too many passes. -/
def tooManyPasses : Run η σ String := do
  let limit := (← get).config.maxLoopIterations
  return "exceeded configured maximum loop iterations (" ++ toString limit ++ ")"

/-- Whether the condition holds; where there is none, it does. -/
def conditionHolds : Option String → Run η σ (Except ExprError Bool)
  | none => pure (.ok true)
  | some condition => Run.evaluating (evaluateCondition condition)

/-- Evaluate an expression, if there is one, for what it does. Returns the error that it has. -/
def evaluatePart : Option String → Run η σ (Option ExprError)
  | none => pure none
  | some expression => do
    match ← Run.evaluating (evaluate expression) with
    | .ok _ => return none
    | .error e => return some e

/-- Render the body and tell whether it asked to leave the loop. -/
def renderPass (perform : Perform η σ) (call : MacroCall η) (body : List Char) (isFirst : Bool) :
    Run η σ Bool := do
  perform (.render (← call.target) (passBody body isFirst))
  takeBreak

/-- Loop while the condition holds, for `remaining` passes at most. -/
def loopSteps (perform : Perform η σ) (call : MacroCall η) (body : List Char)
    (condition post : Option String) : Nat → Bool → Run η σ Unit
  | remaining, isFirst => do
    match ← conditionHolds condition with
    | .error e => call.error ("bad conditional expression: " ++ e.message)
    | .ok false => pure ()
    | .ok true =>
      match remaining with
      | 0 => call.error (← tooManyPasses)
      | remaining + 1 =>
        if ← renderPass perform call body isFirst then pure ()
        else
          match ← evaluatePart post with
          | some e => call.error ("bad post expression: " ++ e.message)
          | none => loopSteps perform call body condition post remaining false

/-! ### Ranges -/

/-- The entries that a range loop has still to walk over: numbers up to a limit, or a list. -/
inductive RangeEntries where
  | numbers (next limit : Nat)
  | list (entries : List (Value × Value))

/-- The next entry, by its key and its value, and the others. -/
def RangeEntries.next? : RangeEntries → Option ((Value × Value) × RangeEntries)
  | numbers next limit =>
    if next < limit then some ((.int next, .int next), numbers (next + 1) limit) else none
  | list [] => none
  | list (entry :: rest) => some (entry, list rest)

/-- Values with their positions as keys. -/
def indexed (values : List Value) : List (Value × Value) :=
  values.zipIdx.map fun (value, index) => (.int index, value)

/-- The entries of a value, or why it has none: a whole number has the numbers below it, a string
its characters, an array its items and an object its members. -/
def rangeEntries : Value → Except String RangeEntries
  | .number n =>
    let count := n.toFloat
    if isWholeFloat count then .ok (.numbers 0 (wholePart count).toNat)
    else .error (DecimalLayout.plain.text count ++ " is not an integer")
  | .string s => .ok (.list (indexed (s.toList.map fun c => .string (String.singleton c))))
  | .array items => .ok (.list (indexed items))
  | .object members => .ok (.list (members.map fun (name, value) => (.string name, value)))
  | .bool _ => .error "unsupported range expression type: boolean"
  | .null => .error "unsupported range expression type: null"

/-- Set a loop variable, if there is one. -/
def setVariable (value : Value) : Option String → Run η σ Unit
  | none => pure ()
  | some name => Run.changingState fun s => s.set name value

/-- Loop over entries, for `remaining` passes at most. -/
def loopRange (perform : Perform η σ) (call : MacroCall η) (body : List Char)
    (key value : Option String) : Nat → Bool → RangeEntries → Run η σ Unit
  | remaining, isFirst, entries => do
    match entries.next? with
    | none => pure ()
    | some ((entryKey, entryValue), rest) =>
      match remaining with
      | 0 => call.error (← tooManyPasses)
      | remaining + 1 =>
        setVariable entryKey key
        setVariable entryValue value
        if ← renderPass perform call body isFirst then pure ()
        else loopRange perform call body key value remaining false rest

/-! ### The macros -/

/-- Run a loop of a form. -/
def runForm (perform : Perform η σ) (call : MacroCall η) (body : List Char) :
    LoopForm → Run η σ Unit
  | .malformed message => call.error message
  | .steps init condition post => do
    hideBlank call body
    match ← evaluatePart init with
    | some e => call.error ("bad init expression: " ++ e.message)
    | none =>
      loopSteps perform call body condition post (← get).config.maxLoopIterations true
  | .range key value collection => do
    match ← Run.evaluating (evaluate collection) with
    | .error e => call.error ("bad range expression: " ++ e.message)
    | .ok collection =>
      match rangeEntries collection with
      | .error message => call.error message
      | .ok entries =>
        hideBlank call body
        loopRange perform call body key value (← get).config.maxLoopIterations true entries

/-- Run a computation as a loop: no loop is being left before and after it. -/
def asLoop (x : Run η σ Unit) : Run η σ Unit := do
  modify fun e => { e with loopBreak := none }
  Run.andFinally x fun e => { e with loopBreak := none }

/-- Run a loop. A line feed at the end of its body is dropped. -/
def runLoop (perform : Perform η σ) (call : MacroCall η) : Run η σ Unit := do
  let form := LoopForm.ofText (trimText call.args.raw)
  let contents := call.contents.toList
  let body := (stripEnd? ['\n'] contents).getD contents
  asLoop (runForm perform call body form)

/-- Leave or continue the loop around the call. -/
def runLoopControl (context : Context η) : Run η σ Unit := do
  let call := context.call
  if context.outer.any fun outer => outer.name == "for" then
    let wish : LoopBreak := if call.name == "continue" then .«continue» else .«break»
    modify fun e => { e with loopBreak := some wish }
    call.showModes ["hidden"]
  else call.error "must only be used in conjunction with its parent macro <<for>>"

end StoryEngine.Builtin
