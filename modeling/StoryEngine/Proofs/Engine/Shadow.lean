import StoryEngine.Proofs.Engine.Quick
/-!
# StoryEngine.Proofs.Engine.Shadow

The bracket around a handler's callback. On the way in, the values that the handler remembers are
put in front of the variables and its context becomes the current one (`Engine.enterShadow`). On
the way out both are taken back, and a callback that left as many overlays as it found has left in
the innermost one what the handler remembers from then on (`Engine.leaveShadow_of_cons`).
-/

namespace StoryEngine

variable {η σ : Type}

/-- The engine in which a handler's callback runs. -/
def Engine.enterShadow (e : Engine η σ) (h : ShadowHandler η) : Engine η σ :=
  { e with state := e.state.push h.store, current := some h.context }

theorem runShadowed_apply (id : HandlerId) (callback : Run η σ Unit) (e : Engine η σ) :
    runShadowed id callback e =
      match e.handlers[id.index]? with
      | none => (.ok (), e)
      | some h =>
        Run.andFinally callback (fun e' => e'.leaveShadow id e.state.overlays.length e.current)
          (e.enterShadow h) := by
  rw [runShadowed, Run.get_bind_apply]
  cases e.handlers[id.index]? <;> rfl

/-- A handler of which only the callback is there. -/
theorem invokeHandler_callback (run : Callback η → HandlerArg → Run η σ Unit) {id : HandlerId}
    {h : ShadowHandler η} {callback : Callback η} {e : Engine η σ}
    (hh : e.handlers[id.index]? = some h) (hstart : h.start = none)
    (hcallback : h.callback = some callback) (hdone : h.done = none) (arg : HandlerArg) :
    invokeHandler run id arg e =
      Run.andFinally (run callback arg)
        (fun e' => e'.leaveShadow id e.state.overlays.length e.current) (e.enterShadow h) := by
  have hnone : runPart? run arg none e = (.ok (), e) := rfl
  have hshadowed : runShadowed id (runPart? run arg (some callback)) e =
      Run.andFinally (run callback arg)
        (fun e' => e'.leaveShadow id e.state.overlays.length e.current) (e.enterShadow h) := by
    rw [runShadowed_apply, hh]
    rfl
  rw [invokeHandler, Run.get_bind_apply, hh]
  dsimp only
  rw [hstart, hdone, hcallback, Run.bind_of_ok hnone, ← hshadowed]
  rcases hx : runShadowed id (runPart? run arg (some callback)) e with ⟨halt | u, e'⟩
  · exact Run.bind_of_error hx
  · exact Run.bind_of_ok hx

/-- A handler is left as it was entered. -/
theorem runShadowed_eq (id : HandlerId) (callback : Run η σ Unit) :
    runShadowed id callback = (do
      let e ← get
      match e.handlers[id.index]? with
      | none => pure ()
      | some h =>
        modify fun e => e.enterShadow h
        Run.andFinally callback fun e' =>
          e'.leaveShadow id e.state.overlays.length e.current) := by
  funext e
  rw [runShadowed_apply, Run.get_bind_apply]
  cases e.handlers[id.index]? <;> rfl

/-- Leaving a handler's callback only concerns the context, the variables and the handlers. -/
theorem Engine.leaveShadow_eq_with (e : Engine η σ) (id : HandlerId) (depth : Nat)
    (previous : Option (Context η)) : ∃ state handlers, e.leaveShadow id depth previous =
      { e with current := previous, state := state, handlers := handlers } := by
  unfold Engine.leaveShadow
  dsimp only
  split
  · split <;> exact ⟨_, _, rfl⟩
  · exact ⟨_, _, rfl⟩

/-- A handler's callback that leaves as many overlays as it found: the innermost is taken away and
kept for the next time. -/
theorem Engine.leaveShadow_of_cons {e : Engine η σ} {overlay : Overlay} {outer : List Overlay}
    {depth : Nat} (h : e.state.overlays = overlay :: outer) (hdepth : depth = outer.length)
    (id : HandlerId) (previous : Option (Context η)) :
    e.leaveShadow id depth previous =
      { e with
        current := previous
        state := { e.state with overlays := outer }
        handlers := e.handlers.modify id.index fun h => { h with store := overlay } } := by
  have hdrop : e.state.dropOverlays (depth + 1) = e.state := by
    unfold State.dropOverlays
    rw [h, hdepth, List.length_cons, Nat.sub_self]
    rw [List.drop_zero, ← h]
  have hlt : depth < e.state.overlays.length := by
    rw [h, hdepth, List.length_cons]
    exact Nat.lt_succ_self _
  have hpop : e.state.pop = (some overlay, { e.state with overlays := outer }) := by
    unfold State.pop
    rw [h]
  unfold Engine.leaveShadow
  rw [hdrop]
  simp only [hlt, if_true, hpop]

end StoryEngine
