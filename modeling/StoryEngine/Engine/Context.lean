import StoryEngine.Engine.Basic
/-!
# StoryEngine.Engine.Context

The context of a macro call: where its output and its errors go, its debug view, and the
variables it shadows for work that it puts off.
-/

namespace StoryEngine

variable {η σ : Type}

/-- What is given to make a context. -/
structure ContextData (η : Type) where
  entry : Option (MacroEntry (Handler η))
  /-- The name as written. -/
  name : String
  args : ArgumentList := {}
  payload : List PayloadClause := []
  source : String := ""
  parent : Option (Context η) := none
  output : Option OutputId
  isDebug : Bool := false

namespace Context

/-- Make a context. It needs a macro, a name and an output. -/
def make (data : ContextData η) : Run η σ (Context η) := do
  match data.entry with
  | none => Run.fail (.context (.missing "macro"))
  | some entry =>
    if data.name.isEmpty then Run.fail (.context (.missing "name"))
    else
      match data.output with
      | none => Run.fail (.context (.missing "output"))
      | some output => do
        let id := (← get).calls.size
        modify fun e => { e with calls := e.calls.push { isDebug := data.isDebug } }
        let outer :=
          match data.parent with
          | some parent => parent.calls
          | none => []
        return {
          call := {
            id := id
            definition := entry.definition
            name := entry.aliasOf.getD data.name
            displayName := data.name
            args := data.args
            payload := data.payload
            source := data.source
            output := output }
          outer := outer }

end Context

namespace MacroCall

/-- What has changed about the call. -/
def state (call : MacroCall η) : Run η σ CallState := do
  return (← get).calls[call.id]?.getD {}

/-- Change something about the call. -/
def modifyState (call : MacroCall η) (change : CallState → CallState) : Run η σ Unit :=
  modify fun e => { e with calls := e.calls.modify call.id change }

/-- Put a new debug view around what the call outputs from now on. It is labelled with the name
and the source of the call if no other labels are given. -/
def createView (call : MacroCall η) (name title : Option String) : Run η σ ViewId := do
  let view ← Run.withTree fun t =>
    t.appendView call.output "macro" (name.getD call.displayName) (title.getD call.source)
  unless call.payload.isEmpty do
    Run.changeTree fun t => t.setModes view [("nonvoid", true)]
  call.modifyState fun s => { s with view := some view, isDebug := true }
  return view

/-- The call's debug view, made on first use; none if the call makes none. -/
def view? (call : MacroCall η) : Run η σ (Option ViewId) := do
  let s ← call.state
  if !s.isDebug then return none
  else
    match s.view with
    | some view => return some view
    | none => return some (← call.createView none none)

/-- Remove the call's debug view, and make none from now on. -/
def removeView (call : MacroCall η) : Run η σ Unit := do
  match (← call.state).view with
  | some view => Run.changeTree fun t => t.removeView view
  | none => pure ()
  call.modifyState fun s => { s with view := none, isDebug := false }

/-- Where the call's output goes: into its debug view, or else to where it stands. -/
def target (call : MacroCall η) : Run η σ OutputId := do
  match ← call.view? with
  | some view => Run.fromTree fun t => t.inside view
  | none => return call.output

/-- Switch on modes of the call's debug view, if there is one. -/
def showModes (call : MacroCall η) (modes : List String) : Run η σ Unit := do
  match ← call.view? with
  | some view => Run.changeTree fun t => t.setModes view (modes.map fun mode => (mode, true))
  | none => pure ()

/-- The message of an error of the call. -/
def errorText (call : MacroCall η) (message : String) : String :=
  "<<" ++ call.displayName ++ ">>: " ++ message

/-- Show an error where the call stands. -/
def error (call : MacroCall η) (message : String) : Run η σ Unit :=
  Run.changeTree fun t => t.appendError call.output (call.errorText message) call.source

/-- The variables that the call shadows. -/
def shadows (call : MacroCall η) : Run η σ (List String) := do
  return (← call.state).shadows

/-- Shadow variables, up to the first name that is none. -/
def addShadows (call : MacroCall η) : List String → Run η σ Unit
  | [] => pure ()
  | name :: rest => do
    if isVariable name then
      call.modifyState fun s => { s with shadows := Names.insert name s.shadows }
      call.addShadows rest
    else Run.fail (.context (.invalidVariable ⟨name⟩))

end MacroCall

namespace Context

/-- The variables that the call or one of those around it shadows. -/
def shadowView (context : Context η) : Run η σ (List String) := do
  let e ← get
  return context.calls.foldl
    (fun names call => Names.insertAll names (e.calls[call.id]?.getD {}).shadows) []

end Context

end StoryEngine
