import StoryEngine.Engine.Shadow
/-!
# StoryEngine.Builtin.Print

The macros that evaluate what stands behind their name: for its value, which is displayed, or for
what it sets. The macro named `-` displays the value as it is; the other names render it as
passage source.
-/

namespace StoryEngine.Builtin

variable {η σ : Type}

/-- Evaluate the call's arguments, which are an expression, and go on with the value. -/
def withExpression (call : MacroCall η) (goOn : Value → Run η σ Unit) : Run η σ Unit := do
  let expression := trimText call.args.raw
  if expression.isEmpty then call.error "no expression specified"
  else
    match ← Run.evaluating (evaluate expression) with
    | .error e => call.error ("bad evaluation: " ++ e.message)
    | .ok value => goOn value

/-- Display the value of an expression. A null displays nothing. -/
def runPrint (perform : Perform η σ) (call : MacroCall η) : Run η σ Unit :=
  withExpression call fun value => do
    unless value.isNull do
      let out ← call.target
      if call.name == "-" then Run.changeTree fun t => t.pushText out value.display
      else perform (.render out value.display)

/-- Evaluate an expression for what it sets. -/
def runSet (call : MacroCall η) : Run η σ Unit :=
  withExpression call fun _ => call.showModes ["hidden"]

/-- Remove variables in order. -/
def unsetAll : List String → Run η σ Unit
  | [] => pure ()
  | name :: rest => do
    Run.changingState fun s => (s.unset name).map (·.2)
    unsetAll rest

/-- The complaint about a missing list of variables. -/
def noVariables : String :=
  "no story/temporary variable list specified"

/-- Remove the variables that the arguments name. -/
def runUnset (call : MacroCall η) : Run η σ Unit := do
  let list := trimText call.args.raw
  if list.isEmpty then call.error noVariables
  else
    unsetAll (variablesIn list)
    call.showModes ["hidden"]

end StoryEngine.Builtin
