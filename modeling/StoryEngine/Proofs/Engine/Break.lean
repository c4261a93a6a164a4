import StoryEngine.Proofs.Engine.Carried
/-!
# StoryEngine.Proofs.Engine.Break

What a call of `<<break>>` does, wherever it stands (`render_break`, `invoke_break`). Among calls of
which one is named `for` it leaves the wish to leave a loop behind, and else it leaves none: the
macro cannot tell a loop that runs from one that has ended. Apart from that it only shows something.
-/

namespace StoryEngine

variable {σ : Type}

/-! ### What only shows something -/

/-- The engine with other calls and another display. -/
def Engine.Redisplayed (e e' : Engine Empty σ) : Prop :=
  ∃ calls tree, e' = { e with calls := calls, tree := tree }

namespace MacroCall

variable (call : MacroCall Empty) (e : Engine Empty σ)

theorem createView_apply (name title : Option String) :
    ∃ view e', call.createView name title e = (.ok view, e') ∧ e.Redisplayed e' := by
  unfold createView
  by_cases hpayload : call.payload.isEmpty = true
  · simp only [hpayload, if_true]
    exact ⟨_, _, rfl, _, _, rfl⟩
  · simp only [hpayload]
    exact ⟨_, _, rfl, _, _, rfl⟩

theorem view?_apply : ∃ view e', call.view? e = (.ok view, e') ∧ e.Redisplayed e' := by
  have hstate : call.state e = (.ok (e.calls[call.id]?.getD {}), e) := rfl
  rw [view?, Run.bind_of_ok hstate]
  split
  · exact ⟨_, _, rfl, _, _, rfl⟩
  · cases (e.calls[call.id]?.getD {}).view with
    | some view => exact ⟨_, _, rfl, _, _, rfl⟩
    | none =>
        obtain ⟨view, e', h, he'⟩ := call.createView_apply e none none
        exact ⟨_, _, Run.bind_of_ok h, he'⟩

theorem showModes_apply (modes : List String) :
    ∃ e', call.showModes modes e = (.ok (), e') ∧ e.Redisplayed e' := by
  obtain ⟨view, e₁, hview, calls, tree, rfl⟩ := call.view?_apply e
  rw [showModes, Run.bind_of_ok hview]
  cases view with
  | none => exact ⟨_, rfl, _, _, rfl⟩
  | some view => exact ⟨_, rfl, _, _, rfl⟩

theorem target_apply : ∃ out e', call.target e = (.ok out, e') ∧ e.Redisplayed e' := by
  obtain ⟨view, e₁, hview, calls, tree, rfl⟩ := call.view?_apply e
  rw [target, Run.bind_of_ok hview]
  cases view with
  | none => exact ⟨_, _, rfl, _, _, rfl⟩
  | some view => exact ⟨_, _, rfl, _, _, rfl⟩

end MacroCall

/-! ### The call -/

/-- The engine after the wish to break off a loop among the calls, if there is one. -/
def Engine.breakOff (e : Engine Empty σ) (calls : List (MacroCall Empty)) : Engine Empty σ :=
  { e with loopBreak := if areInLoop calls then some .«break» else e.loopBreak }

theorem Builtin.runLoopControl_apply {context : Context Empty} (hname : context.call.name = "break")
    (e : Engine Empty σ) :
    ∃ e', Builtin.runLoopControl context e = (.ok (), e') ∧
      (e.breakOff context.outer).Redisplayed e' := by
  unfold Builtin.runLoopControl Engine.breakOff
  change ∃ e', (if areInLoop context.outer = true then _ else _ : Run Empty σ Unit) e = _ ∧ _
  by_cases hloop : areInLoop context.outer = true
  · simp only [hloop, if_true, hname]
    exact context.call.showModes_apply { e with loopBreak := some .«break» } ["hidden"]
  · simp only [hloop]
    exact ⟨_, rfl, _, _, rfl⟩

/-- The tag of the call, at the beginning of a source. -/
def breakTag : Tag :=
  ⟨"break", "", "<<break>>", 0, 9⟩

theorem segmentsOf_break : segmentsOf "<<break>>" = [.tag breakTag] := by
  decide +kernel

/-- The entry of the macro. -/
def breakEntry : MacroEntry (Handler Empty) :=
  ⟨Builtin.loopControl.definition (.builtin .loopControl), 5, none⟩

theorem Registry.get?_break :
    (Registry.ofBuiltins Handler.builtin).get? breakTag.name = some breakEntry := by
  rfl

variable {place : Place} {e : Engine Empty σ}

/-- There is nothing in the call that could go wrong before the macro runs. -/
theorem openCall_break (he : e.StandsIn place) (out : OutputId) :
    ∃ context, openCall out breakEntry breakTag [] "<<break>>" e = (.ok (some context),
        { e with calls := e.calls.push { isDebug := e.config.debug } }) ∧
      context.Calls place breakEntry "break" := by
  have hskip : breakEntry.definition.skipArgs = true := rfl
  have hargs : callArguments breakEntry.definition breakTag.args e =
      (.ok (.ok (.unparsed "")), e) := by
    rw [callArguments, if_pos hskip]
    rfl
  have hopen : ∃ context, openCall out breakEntry breakTag [] "<<break>>" e =
      (.ok (some context), { e with calls := e.calls.push { isDebug := e.config.debug } }) := by
    rw [openCall, Run.bind_of_ok hargs]
    exact ⟨_, rfl⟩
  obtain ⟨context, hcontext⟩ := hopen
  obtain ⟨r, e', hr, -, -, hcalls⟩ := quickTo_openCall out breakEntry breakTag [] "<<break>>" e he
  rw [hcontext] at hr
  cases hr
  exact ⟨context, hcontext, hcalls _ rfl context rfl⟩

theorem callMacro_break (he : e.StandsIn place) (p : Perform Empty σ) (out : OutputId) :
    ∃ e', callMacro (runHandler Host.idle p) out breakEntry (.builtin .loopControl) breakTag []
        "<<break>>" e = (.ok (), e') ∧ (e.breakOff place.calls).Redisplayed e' := by
  obtain ⟨context, hopen, hcalls⟩ := openCall_break he out
  rw [callMacro, Run.bind_of_ok hopen]
  dsimp only
  obtain ⟨e', hrun, calls, tree, rfl⟩ := Builtin.runLoopControl_apply hcalls.name
    { e with calls := e.calls.push { isDebug := e.config.debug }, current := some context }
  have hcontext : inContext context (runHandler Host.idle p (.builtin .loopControl) context)
      { e with calls := e.calls.push { isDebug := e.config.debug } } = (.ok (), _) :=
    Run.andFinally_of_returned _ hrun (returned_ok ())
  refine ⟨_, Run.bind_of_ok (Run.attempt_of_ok hcontext), calls, tree, ?_⟩
  rw [hcalls.outer]
  rfl

/-! ### Rendering the call -/

theorem render_break (he : e.StandsIn place) (hwish : e.loopBreak = none)
    (hdepth : e.renderDepth < e.config.maxRenderDepth) (n : Nat) (out : OutputId) :
    ∃ e', perform Host.idle (n + 1) (.render out "<<break>>") e = (.ok (), e') ∧
      (e.breakOff place.calls).Redisplayed e' := by
  have hinner := he.descend hdepth
  obtain ⟨e', hcall, he'⟩ := callMacro_break hinner (perform Host.idle n) out
  have htag : renderTag (runHandler Host.idle (perform Host.idle n)) out breakTag []
      (e.descend hdepth) = (.ok 0, e') := by
    have hentry : (e.descend hdepth).registry.get? breakTag.name = some breakEntry := by
      rw [hinner.registry]
      exact Registry.get?_break
    rw [renderTag, Run.get_bind_apply, hentry]
    exact Run.bind_of_ok hcall
  have hsegments : renderSegments (runHandler Host.idle (perform Host.idle n)) out 0
      [.tag breakTag] (e.descend hdepth) = (.ok (), e') := by
    have hnone : (e.descend hdepth).loopBreak.isSome = false := by
      change e.loopBreak.isSome = false
      rw [hwish]
      rfl
    rw [renderSegments, Run.get_bind_apply, hnone]
    exact Run.bind_of_ok htag
  change ∃ e', render (runHandler Host.idle (perform Host.idle n)) out "<<break>>" e = _ ∧ _
  rw [render, segmentsOf_break, deeper_apply, dif_pos hdepth]
  obtain ⟨calls, tree, rfl⟩ := he'
  exact ⟨_, Run.andFinally_of_returned _ hsegments (returned_ok ()), calls, tree, rfl⟩

/-- A payload that consists of the call fails if no loop is among the calls around it. -/
theorem runPayload_break (he : e.StandsIn place) (hwish : e.loopBreak = none)
    (hdepth : e.renderDepth < e.config.maxRenderDepth) (n : Nat) :
    ∃ r e', Builtin.runPayload (perform Host.idle (n + 1)) "<<break>>" e = (r, e') ∧
      Returned r ∧ (e.breakOff place.calls).Redisplayed e' := by
  have hscratch : Run.withTree (fun t => t.newOutput) e =
      (.ok e.tree.newOutput.1, { e with tree := e.tree.newOutput.2 }) := rfl
  have hinner : Engine.StandsIn { e with tree := e.tree.newOutput.2 } place :=
    Change.standsIn (.display _ (.newOutput e.tree)) he
  obtain ⟨e', hrender, he'⟩ := render_break hinner hwish hdepth n e.tree.newOutput.1
  have herrors : Run.fromTree (fun t => t.errors e.tree.newOutput.1) e' =
      (.ok (e'.tree.errors e.tree.newOutput.1), e') := rfl
  rw [Builtin.runPayload, Run.bind_of_ok hscratch, Run.bind_of_ok hrender, Run.bind_of_ok herrors]
  split
  · exact ⟨_, _, rfl, returned_ok (), he'⟩
  · exact ⟨_, _, rfl, returned_failure _, he'⟩

/-! ### Invoking it -/

/-- A handler whose payload consists of the call leaves a wish behind if it was made in a loop. -/
theorem invoke_break {id : HandlerId} {h : ShadowHandler Empty}
    (hregistry : e.registry = Registry.ofBuiltins .builtin) (hwish : e.loopBreak = none)
    (hdepth : e.renderDepth < e.config.maxRenderDepth) (hh : e.handlers[id.index]? = some h)
    (hstart : h.start = none) (hcallback : h.callback = some (.payload "<<break>>"))
    (hdone : h.done = none) (n : Nat) (arg : HandlerArg) :
    ∃ r e', perform Host.idle (n + 2) (.invoke id arg) e = (r, e') ∧ Returned r ∧
      e'.loopBreak = if areInLoop h.context.calls then some .«break» else none := by
  have hinner := (Engine.StandsIn.ofRegistry hregistry).enterShadow h
  obtain ⟨r, e₁, hpayload, hr, calls, tree, he₁⟩ := runPayload_break hinner hwish hdepth n
  let run : Option (Callback Empty) → Run Empty σ Unit :=
    runPart? (runCallback Host.idle (perform Host.idle (n + 1))) arg
  have hshadowed : runShadowed id (run (some (.payload "<<break>>"))) e =
      (r, e₁.leaveShadow id e.state.overlays.length e.current) := by
    rw [runShadowed_apply, hh]
    exact Run.andFinally_of_returned _ hpayload hr
  have hnone : run none e = (.ok (), e) := rfl
  refine ⟨r, e₁.leaveShadow id e.state.overlays.length e.current, ?_, hr, ?_⟩
  · change invokeHandler (runCallback Host.idle (perform Host.idle (n + 1))) id arg e = _
    rw [invokeHandler, Run.get_bind_apply, hh]
    dsimp only
    rw [hstart, hdone, hcallback, Run.bind_of_ok hnone]
    cases r with
    | ok u => exact Run.bind_of_ok hshadowed
    | error halt => exact Run.bind_of_error hshadowed
  · obtain ⟨state, handlers, hleave⟩ :=
      e₁.leaveShadow_eq_with id e.state.overlays.length e.current
    rw [hleave, he₁]
    change (if areInLoop h.context.calls = true then _ else e.loopBreak) = _
    rw [hwish]

end StoryEngine
