import StoryEngine.Engine.Context
/-!
# StoryEngine.Engine.Shadow

Deferred handlers. A handler remembers the context that it was made in and the values that the
variables shadowed there have at that time. Whenever it is invoked, its callback runs in that
context with those values in front of the live ones; what the callback leaves in them is kept
for the next time, and the live ones are as if nothing had happened to them.
-/

namespace StoryEngine

variable {η σ : Type}

/-- What the variables hold now. -/
def snapshot (names : List String) : Run η σ Overlay := do
  let e ← get
  return Entries.ofPairs (names.map fun name => (name, e.state.get? name))

namespace ShadowHandler

/-- Make a handler in a context. One without a callback remembers no values. -/
def make (context : Context η) (start callback done : Option (Callback η)) :
    Run η σ HandlerId := do
  let store ← if callback.isSome then do snapshot (← context.shadowView) else pure []
  let id : HandlerId := ⟨(← get).handlers.size⟩
  modify fun e => { e with
    handlers := e.handlers.push ⟨context, store, start, callback, done⟩ }
  return id

end ShadowHandler

/-- Overlays beyond a number of them are dropped. -/
def State.dropOverlays (s : State) (depth : Nat) : State :=
  { s with overlays := s.overlays.drop (s.overlays.length - depth) }

/-- Run a computation with an overlay in front of the variables, and take it away afterwards. -/
def underOverlay (overlay : Overlay) (x : Run η σ Unit) : Run η σ Unit := do
  let depth := (← get).state.overlays.length
  modify fun e => { e with state := e.state.push overlay }
  Run.andFinally x fun e => { e with state := e.state.dropOverlays depth }

/-- The engine after a handler's callback: the context is what it was before, overlays left
behind are dropped, and the values in the handler's own overlay are kept for the next time. -/
def Engine.leaveShadow (e : Engine η σ) (handler : HandlerId) (depth : Nat)
    (previous : Option (Context η)) : Engine η σ :=
  let s := e.state.dropOverlays (depth + 1)
  let e := { e with current := previous }
  if depth < s.overlays.length then
    match s.pop with
    | (some overlay, s) =>
      { e with
        state := s
        handlers := e.handlers.modify handler.index fun h => { h with store := overlay } }
    | (none, s) => { e with state := s }
  else { e with state := s }

/-- Run a handler's callback in the handler's context, with the values that the handler remembers
in front of the live ones. -/
def runShadowed (handler : HandlerId) (callback : Run η σ Unit) : Run η σ Unit := do
  let e ← get
  match e.handlers[handler.index]? with
  | none => pure ()
  | some h =>
    let depth := e.state.overlays.length
    let previous := e.current
    set { e with state := e.state.push h.store, current := some h.context }
    Run.andFinally callback fun e => e.leaveShadow handler depth previous

/-- Run a part of a handler, if there is one. -/
def runPart? (runPart : Callback η → HandlerArg → Run η σ Unit) (arg : HandlerArg) :
    Option (Callback η) → Run η σ Unit
  | some part => runPart part arg
  | none => pure ()

/-- Invoke a handler: its start, its callback with the remembered values, and what it does when
done. A part that fails is the last. -/
def invokeHandler (runPart : Callback η → HandlerArg → Run η σ Unit) (handler : HandlerId)
    (arg : HandlerArg) : Run η σ Unit := do
  match (← get).handlers[handler.index]? with
  | none => pure ()
  | some h =>
    runPart? runPart arg h.start
    if h.callback.isSome then runShadowed handler (runPart? runPart arg h.callback)
    runPart? runPart arg h.done

end StoryEngine
