import StoryEngine.Builtin.Print
/-!
# StoryEngine.Builtin.Capture

The macro that gives its contents variables of their own. The contents are rendered with the
values that the captured variables have; what is set there is gone afterwards, but work that is
put off inside keeps the values that it saw.
-/

namespace StoryEngine.Builtin

variable {η σ : Type}

/-- Render the contents with the named variables captured. -/
def runCapture (perform : Perform η σ) (call : MacroCall η) : Run η σ Unit := do
  let list := trimText call.args.raw
  if list.isEmpty then call.error noVariables
  else
    call.addShadows (variablesIn list)
    let overlay ← snapshot (← call.shadows)
    underOverlay overlay do perform (.render (← call.target) call.contents)

end StoryEngine.Builtin
