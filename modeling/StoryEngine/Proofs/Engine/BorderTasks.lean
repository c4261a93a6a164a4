import StoryEngine.Proofs.Builtin.Border
import StoryEngine.Proofs.Engine.Closures
/-!
# StoryEngine.Proofs.Engine.BorderTasks

Tasks stay beyond a border (`Border.bounds`): what is rendered beyond it, the handlers whose work
lies beyond it, the texts that were put into the queue since, and the listeners of events. The
border that remembers nothing bounds all that an engine does within a turn: everything is beyond it.
-/

namespace StoryEngine

variable {σ : Type} {b : Border} {e e₀ : Engine Empty σ} {p : Perform Empty σ}

/-! ### Calls -/

theorem beyond_runBuiltin (hp : b.Bounds p) {context : Context Empty}
    (hcall : context.call.StandsBeyond b) (builtin : Builtin) :
    Beyond b (runBuiltin p context builtin) := by
  cases builtin with
  | print => exact Builtin.beyond_runPrint hp hcall
  | set => exact Builtin.beyond_runSet hcall
  | unset => exact Builtin.beyond_runUnset hcall
  | choose => exact Builtin.beyond_runChoose hp hcall
  | loop => exact Builtin.beyond_runLoop hp hcall
  | loopControl => exact Builtin.beyond_runLoopControl hcall
  | capture => exact Builtin.beyond_runCapture hp hcall
  | link => exact Builtin.beyond_runLink hp hcall
  | «repeat» => exact Builtin.beyond_runRepeat hcall
  | stop => exact Builtin.beyond_runStop hcall
  | timed => exact Builtin.beyond_runTimed hcall
  | type => exact Builtin.beyond_runType hp hcall

theorem beyond_runHandler (hp : b.Bounds p) {context : Context Empty}
    (hcall : context.call.StandsBeyond b) (handler : Handler Empty) :
    Beyond b (runHandler Host.idle p handler context) := by
  cases handler with
  | builtin builtin => exact beyond_runBuiltin hp hcall builtin
  | host procedure => exact procedure.elim

theorem beyond_callMacro (hp : b.Bounds p) {out : OutputId} (hout : b.extent.outputs ≤ out.index)
    (entry : MacroEntry (Handler Empty)) (handler : Handler Empty) (tag : Tag)
    (clauses : List Clause) (source : String) :
    Beyond b (callMacro (runHandler Host.idle p) out entry handler tag clauses source) := by
  refine .bind (beyond_openCall hout entry tag clauses source) fun made hmade => ?_
  split
  · exact .pure trivial
  · rename_i context
    have hcall := hmade context rfl
    refine .seq (beyond_inContext context (beyond_runHandler hp hcall handler)).attempt.forget
      fun outcome => ?_
    split
    · exact .pure trivial
    · exact beyond_showError hout _ _

theorem beyond_renderTag (hp : b.Bounds p) {out : OutputId} (hout : b.extent.outputs ≤ out.index)
    (tag : Tag) (following : List Segment) :
    Beyond b (renderTag (runHandler Host.idle p) out tag following) := by
  refine .get fun e _ => ?_
  dsimp only
  split
  · exact .seq (beyond_showError hout _ _) fun _ => .pure trivial
  · split
    · exact .pure trivial
    · split
      · split
        · exact .seq (beyond_showError hout _ _) fun _ => .pure trivial
        · exact .seq (beyond_callMacro hp hout _ _ _ _ _) fun _ => .pure trivial
      · exact .seq (beyond_callMacro hp hout _ _ _ _ _) fun _ => .pure trivial

theorem beyond_renderSegments (hp : b.Bounds p) {out : OutputId}
    (hout : b.extent.outputs ≤ out.index) (skip : Nat) (segments : List Segment) :
    Beyond b (renderSegments (runHandler Host.idle p) out skip segments) := by
  induction segments generalizing skip with
  | nil =>
      unfold renderSegments
      exact .pure trivial
  | cons segment rest ih =>
      cases skip with
      | succ skip => exact ih skip
      | zero =>
          unfold renderSegments
          refine .get fun e _ => ?_
          split
          · exact .pure trivial
          · split
            · exact .seq (.changeTree fun _ _ => .pushText hout _) fun _ => ih 0
            · exact .seq (beyond_renderTag hp hout _ _) ih

theorem beyond_render (hp : b.Bounds p) {out : OutputId} (hout : b.extent.outputs ≤ out.index)
    (source : String) : Beyond b (StoryEngine.render (runHandler Host.idle p) out source) :=
  beyond_deeper (.get fun _ _ => beyond_showError hout _ _) (beyond_renderSegments hp hout 0 _)

/-! ### Deferred work -/

theorem beyond_runCallback (hp : b.Bounds p) {callback : Callback Empty} (h : callback.Beyond b)
    (arg : HandlerArg) : Beyond b (runCallback Host.idle p callback arg) := by
  cases callback with
  | payload contents => exact Builtin.beyond_runPayload hp contents
  | goTo title => exact h.elim
  | repeatBody wrapper contents isTransition =>
      exact Builtin.beyond_runRepeatBody hp h contents isTransition
  | timedBody wrapper isTransition =>
      cases arg with
      | item item => exact Builtin.beyond_runTimedBody hp h isTransition item
      | _ => exact .pure trivial
  | typeBody call => exact Builtin.beyond_runTypeBody hp h.1 h.2
  | host procedure => exact procedure.elim

/-- What a handler is there for stays beyond the border, whatever it does when that is done. -/
theorem beyond_callback (hp : b.Bounds p) {id : HandlerId} {h : ShadowHandler Empty}
    (arg : HandlerArg) (h₀ : b.Leads e₀ e) (hh : e.handlers[id.index]? = some h)
    (hbeyond : ∀ callback, h.callback = some callback → callback.Beyond b) :
    BeyondFrom b e₀ (fun _ => True) (if h.callback.isSome then
      runShadowed id (runPart? (runCallback Host.idle p) arg h.callback) else pure ()) e := by
  cases hcallback : h.callback with
  | none => exact .ofOk rfl h₀ trivial
  | some callback =>
      have hentered : b.Leads e (e.enterShadow h) := .still h₀.admits (.of_eq rfl) rfl
      rw [if_pos Option.isSome_some]
      unfold BeyondFrom
      rw [runShadowed_apply, hh]
      refine BeyondFrom.andFinally (P := fun _ => True) ?_ fun e' he' => .leaveShadow he' _ _ _
      exact (beyond_runCallback hp (hbeyond callback hcallback) arg).after (h₀.trans hentered)

theorem beyond_invokeHandler (hp : b.Bounds p) {id : HandlerId} (arg : HandlerArg)
    (h₀ : b.Leads e₀ e) (hholds : e.Holds id (ShadowHandler.Beyond b)) :
    BeyondFrom b e₀ (fun _ => True) (invokeHandler (runCallback Host.idle p) id arg) e := by
  obtain ⟨h, hh, hbeyond⟩ := hholds
  refine .congr (invokeHandler_apply hh _ arg) ?_
  rw [hbeyond.start, hbeyond.done]
  refine .next rfl (.bind h₀ (beyond_callback hp arg (.refl h₀.admits) hh hbeyond.callback)
    fun _ e₁ h₁ _ => .ofOk rfl (h₀.trans h₁) trivial)

theorem beyond_startFirst (hp : b.Bounds p) (hstarts : b.starts = true) :
    Beyond b (Builtin.startFirst p) := by
  intro e he
  refine .next (Builtin.firstText_apply e) ?_
  cases htexts : e.texts with
  | nil => exact .ofOk rfl (.refl he) trivial
  | cons job rest =>
      refine hp.invoke .nothing (.refl he) (he.queued hstarts job ?_)
      rw [htexts]
      exact List.mem_cons_self

/-! ### Listeners -/

theorem beyond_runListener (hp : b.Bounds p) (hstarts : b.starts = true) (detail : String)
    {action : ListenerAction Empty} (hkey : action.event = .keydown → b.typings = 0) :
    Beyond b (runListener Host.idle p detail action) := by
  cases action with
  | clearRepeats => exact Builtin.beyond_clearRepeats
  | clearTimed => exact Builtin.beyond_clearTimed
  | dropTyping => exact Builtin.beyond_dropTyping
  | startTyping => exact hp.startTyping hstarts
  | skipTyping typing =>
      exact Builtin.beyond_skipTyping (Nat.le_trans (Nat.le_of_eq (hkey rfl)) (Nat.zero_le _)) detail
  | nextTyping => exact Builtin.beyond_nextTyping hp hstarts
  | host procedure => exact procedure.elim

theorem beyond_callListeners (hp : b.Bounds p) (hstarts : b.starts = true) (detail : String)
    {actions : List (ListenerAction Empty)}
    (hkeys : ∀ action ∈ actions, action.event = .keydown → b.typings = 0) :
    Beyond b (callListeners Host.idle p detail actions) := by
  induction actions with
  | nil => exact .pure trivial
  | cons action rest ih =>
      refine .seq (beyond_runListener hp hstarts detail (hkeys action List.mem_cons_self)).reporting
        fun _ => ih fun other hother => hkeys other (.tail _ hother)

/-- Those who listen do what is right for the event. -/
theorem beyond_trigger (hp : b.Bounds p) (hstarts : b.starts = true) {event : Event}
    (hkey : event = .keydown → b.typings = 0) (detail : String) :
    Beyond b (trigger Host.idle p event detail) := by
  refine .get fun e he => ?_
  have hactions : ∀ action ∈ (Listener.take e.listeners event).1, action.event = event := by
    intro action haction
    obtain ⟨l, hl, rfl⟩ := List.mem_map.mp haction
    obtain ⟨hmem, hevent⟩ := List.mem_filter.mp hl
    exact (he.listeners l hmem).symm.trans (of_decide_eq_true hevent)
  refine .seq (.modify fun e₁ he₁ => .listening he₁ fun l hl => .inl (List.mem_filter.mp hl).1)
    fun _ => beyond_callListeners hp hstarts detail fun action haction hevent => hkey ?_
  rw [← hactions action haction]
  exact hevent

/-! ### All tasks -/

/-- What an engine is asked to do beyond a border stays beyond it. -/
theorem Border.bounds (b : Border) (n : Nat) : b.Bounds (perform (σ := σ) Host.idle n) := by
  induction n with
  | zero =>
      exact ⟨fun _ _ => .outOfFuel, fun _ => .outOfFuel, fun _ _ _ => .outOfFuel,
        fun _ h _ => BeyondTo.outOfFuel.after h⟩
  | succ n ih =>
      exact ⟨fun source hout => beyond_render ih hout source,
        fun hstarts => beyond_startFirst ih hstarts,
        fun detail hstarts hkey => beyond_trigger ih hstarts hkey detail,
        fun arg h hholds => beyond_invokeHandler ih arg h hholds⟩

/-! ### Timers

All that is done when time passes is beyond the border that remembers nothing. -/

theorem beyond_takeItem (chain : Nat) (id : TimerId) :
    Beyond b (Builtin.takeItem chain id : Run Empty σ (Option (HandlerId × TimedItem))) := by
  refine .seq (.still fun _ => ⟨rfl, rfl⟩) fun _ => .get fun e _ => ?_
  split
  · exact .pure trivial
  · refine .seq (.isStale _) fun isStale => ?_
    split
    · exact .pure trivial
    · split
      · exact .pure trivial
      · rename_i item rest _
        refine .seq (.modify fun e he => .chains he fun k hk => ?_) fun _ => ?_
        · rcases exists_of_mem_modify hk with ⟨k₀, hk₀, rfl | ⟨-, rfl⟩⟩
          · exact .inl ⟨k, hk₀, rfl⟩
          · exact .inl ⟨k₀, hk₀, rfl⟩
        · dsimp only
          split
          · exact .seq (Builtin.beyond_scheduleChain _ _) fun _ => .pure trivial
          · exact .pure trivial

section Timers

variable (hp : ({} : Border).Bounds p)

include hp

/-- An interval invokes its handler as a tick. -/
theorem beyond_runRepeatTick {handler : HandlerId} {moment : Moment} (id : TimerId)
    (h₀ : ({} : Border).Leads e₀ e) (hholds : e.Holds handler (ShadowHandler.Beyond {})) :
    BeyondFrom {} e₀ (fun _ => True) (Builtin.runRepeatTick p handler moment id) e := by
  refine .next rfl ?_
  split
  · have hforgotten : Beyond ({} : Border) (do
        Run.changeClock fun c => c.clearTimer id
        Builtin.forgetRepeat id : Run Empty σ Unit) :=
      .seq (.changeClock (.clearTimer · _)) fun _ => Builtin.beyond_forgetRepeat id
    exact hforgotten.after h₀
  · refine .next rfl (.next rfl (.andFinally ?_ fun e' he' => .still he' (.of_eq rfl) rfl))
    have hticking : ({} : Border).Leads e { e with loopBreak := none, repeatTimer := some id } :=
      .still h₀.admits (.of_eq rfl) rfl
    exact hp.invoke .nothing (h₀.trans hticking) hholds

theorem beyond_runTimedStep (chain : Nat) (id : TimerId) :
    Beyond {} (Builtin.runTimedStep p chain id) := by
  intro e he
  refine .follow (.refl he) (beyond_takeItem chain id e he) fun found e₁ htake h₁ _ => ?_
  split
  · rename_i handler item
    obtain ⟨k, hk, hhandler, -⟩ := Builtin.chain_of_takeItem htake
    obtain rfl : k.handler = handler := hhandler
    exact hp.invoke _ h₁ (h₁.admits.chains k (Array.mem_of_getElem? hk))
  · exact .ofOk rfl h₁ trivial

theorem beyond_runTimer {timer : Timer (TimerAction Empty)} (h₀ : ({} : Border).Leads e₀ e)
    (hticks : ∀ id m, timer.action = .repeatTick id m → e.Holds id (ShadowHandler.Beyond {})) :
    BeyondFrom {} e₀ (fun _ => True) (runTimer Host.idle p timer) e := by
  unfold runTimer
  split
  · rename_i handler moment haction
    exact beyond_runRepeatTick hp timer.id h₀ (hticks _ _ haction)
  · exact (beyond_runTimedStep hp _ _).after h₀
  · exact (BeyondTo.changeTree fun _ _ => .removeClass (Nat.zero_le _) _).after h₀
  · exact (Builtin.beyond_beginTyping hp rfl (Nat.zero_le _)).after h₀
  · exact (Builtin.beyond_typeLetter hp rfl (Nat.zero_le _) _).after h₀
  · rename_i procedure _
    exact procedure.elim

theorem beyond_fireDue (limit fuel : Nat) : Beyond {} (fireDue Host.idle p limit fuel) := by
  induction fuel with
  | zero => exact .outOfFuel
  | succ fuel ih =>
      intro e he
      cases hdue : e.clock.takeDue limit with
      | none =>
          have htake : takeTimer limit e = (.ok none, e) := by
            rw [takeTimer, Run.get_bind_apply, hdue]
            rfl
          exact .next htake (.ofOk rfl (.refl he) trivial)
      | some found =>
          obtain ⟨timer, clock⟩ := found
          have htake : takeTimer limit e = (.ok (some timer), { e with clock := clock }) := by
            rw [takeTimer, Run.get_bind_apply, hdue]
            rfl
          have htaken : ({} : Border).Leads e { e with clock := clock } :=
            .lasts he (.takeDue hdue)
          refine .next htake (.bind htaken (.reporting (.refl htaken.admits) ?_) fun _ e₁ h₁ _ =>
            ih.after (htaken.trans h₁))
          exact beyond_runTimer hp (.refl htaken.admits)
            (he.ticks timer (Clock.mem_of_takeDue hdue))

theorem beyond_advance (fuel ms : Nat) : Beyond {} (advance Host.idle p fuel ms) :=
  .get fun _ _ => .seq (beyond_fireDue hp _ fuel) fun _ => .changeClock (.setNow · _)

/-! ### Turns -/

theorem beyond_showPassage (source : String) : Beyond {} (showPassage p source) := by
  refine .seq (.modify fun e he => ?_) fun _ => .get fun e _ => ?_
  · have hcleared := Border.Leads.display_tree he (.clear (Nat.zero_le e.display.index))
    exact hcleared.trans (.still hcleared.admits (.of_eq rfl) rfl)
  · exact .seq (hp.render _ (Nat.zero_le _)) fun _ => .still fun _ => ⟨rfl, rfl⟩

end Timers

/-- When a turn begins, nothing can be clicked and no text waits. -/
theorem Border.Admits.beginTurn (he : ({} : Border).Admits e) (title : String) :
    ({} : Border).Admits (e.beginTurn title) :=
  { he with
    nodup := List.nodup_nil
    made := nofun
    links := nofun
    queued := nofun
    waiting := nofun }

end StoryEngine
