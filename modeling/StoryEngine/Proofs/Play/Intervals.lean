import StoryEngine.Proofs.Builtin.Clauses
import StoryEngine.Proofs.Play.Pending
/-!
# StoryEngine.Proofs.Play.Intervals

What becomes of the intervals that calls of `repeat` set. As long as the timer of an interval is pending
it is set for the same ticks, and the handler that these invoke renders the same body, however the
engine goes on (`Builtin.runRepeat_sets`). An interval that has been cancelled is neither pending nor
tracked, and remains so (`GoesOn.cancelled`).
-/

namespace StoryEngine

variable {η σ : Type} {id : TimerId}

/-! ### Intervals that are cancelled -/

/-- The interval is over: it is neither pending nor tracked. -/
structure Engine.Cancelled (id : TimerId) (e : Engine η σ) : Prop where
  lacks : e.Lacks id
  untracked : id ∉ e.repeatTimers

theorem TimerStep.cancelled {terms : Terms η σ} {e e' : Engine η σ} (h : TimerStep terms e e')
    (he : e.Cancelled id) : e'.Cancelled id := by
  refine ⟨h.lacks he.lacks, ?_⟩
  have huntracked := he.untracked
  cases h with
  | still h => exact (Engine.agenda_eq_iff.mp h).1.2.2.1 ▸ huntracked
  | interval handler moment delay =>
      intro hid
      rcases List.mem_append.mp hid with hold | hnew
      · exact huntracked hold
      · exact Nat.ne_of_lt he.lacks.1 (List.mem_singleton.mp hnew)
  | forgetRepeat other => exact fun hid => huntracked (List.mem_filter.mp hid).1
  | clearRepeats => exact List.not_mem_nil
  | _ => exact huntracked

theorem Engine.Cancelled.stays (id : TimerId) : Engine.Stays (σ := σ) (Engine.Cancelled id) where
  step h he := h.cancelled he
  taken _ he := ⟨he.lacks, he.untracked⟩
  clause {e} chain other he := by
    refine ⟨he.lacks.takeItem chain other, ?_⟩
    rcases takeItem_cases chain other e with ⟨htake, -⟩ | ⟨k, item, rest, -, -, htake⟩
    · rw [htake]
      exact he.untracked
    · rw [htake]
      cases rest <;> exact he.untracked
  lasts h he := ⟨he.lacks.lasts h, he.untracked⟩
  report _ he := ⟨he.lacks, he.untracked⟩

/-- An interval that is cancelled remains so, and never ticks again. -/
theorem GoesOn.cancelled {watched : Timer (TimerAction Empty) → Bool} {e₀ e : Engine Empty σ}
    {log : List (Firing σ)} (h : GoesOn watched e₀ log e) (he₀ : e₀.Cancelled id) :
    e.Cancelled id ∧ ∀ f ∈ log, f.id ≠ id :=
  ⟨(Engine.Cancelled.stays id).goesOn h he₀, h.lacks he₀.lacks⟩

/-! ### Intervals that are set -/

/-- The identity is that of the interval: as long as a timer with it is pending, that is set for ticks in
the moment, and the handler that these invoke renders the body. -/
structure Engine.HasInterval (id : TimerId) (handler : HandlerId) (m : Moment) (body : Callback η)
    (e : Engine η σ) : Prop where
  known : id < e.clock.nextId
  action : ∀ timer ∈ e.clock.timers, timer.id = id → timer.action = .repeatTick handler m
  parts : (e.handlers.map ShadowHandler.parts)[handler.index]? = some (none, some body, none)

namespace Engine.HasInterval

variable {handler : HandlerId} {m : Moment} {body : Callback η} {e e' : Engine η σ}

theorem lasts (he : e.HasInterval id handler m body) {clock : Clock (TimerAction η)}
    (h : e.clock.Lasts clock) : HasInterval id handler m body { e with clock := clock } where
  known := h.nextId.symm ▸ he.known
  action timer' htimer' hid := by
    obtain ⟨timer, htimer, hsame, -, haction⟩ := h.timers timer' htimer'
    rw [haction]
    exact he.action timer htimer (hsame.symm.trans hid)
  parts := he.parts

theorem addTimer (he : e.HasInterval id handler m body) (delay : Nat) (period : Option Nat)
    (action : TimerAction η) :
    HasInterval id handler m body { e with clock := (e.clock.addTimer delay period action).2 } where
  known := Nat.lt_succ_of_lt he.known
  action timer htimer hid := by
    rcases Clock.Sound.mem_addTimer.mp htimer with hold | rfl
    · exact he.action timer hold hid
    · exact (Nat.ne_of_gt he.known hid).elim
  parts := he.parts

/-- Only the clock and what handlers run matter. -/
theorem congr (he : e.HasInterval id handler m body) (hclock : e'.clock = e.clock)
    (hparts : e'.handlers.map ShadowHandler.parts = e.handlers.map ShadowHandler.parts) :
    e'.HasInterval id handler m body where
  known := hclock ▸ he.known
  action := hclock ▸ he.action
  parts := hparts ▸ he.parts

end Engine.HasInterval

theorem TimerStep.hasInterval {handler : HandlerId} {m : Moment} {body : Callback η}
    {terms : Terms η σ} {e e' : Engine η σ} (h : TimerStep terms e e')
    (he : e.HasInterval id handler m body) : e'.HasInterval id handler m body := by
  cases h with
  | still h =>
      obtain ⟨⟨hclock, -⟩, -, hparts, -⟩ := Engine.agenda_eq_iff.mp h
      exact he.congr hclock hparts
  | timeout delay action => exact he.addTimer delay none action
  | pulse period action => exact he.addTimer _ _ action
  | interval handler moment delay =>
      exact (he.addTimer _ _ (.repeatTick handler moment)).congr rfl rfl
  | @chain k first => exact (he.addTimer first.delay none (.timedStep e.chains.size)).congr rfl rfl
  | clear other => exact he.lasts (.clearTimer e.clock other)
  | clearRepeats => exact (he.lasts (.clearTimers e.clock e.repeatTimers)).congr rfl rfl
  | clearTimed => exact (he.lasts (.clearTimers e.clock e.timedTimers)).congr rfl rfl
  | handler h => exact { he with parts := ShadowHandler.parts_push h he.parts }
  | _ => exact he.congr rfl rfl

theorem Engine.HasInterval.stays (id : TimerId) (handler : HandlerId) (m : Moment)
    (body : Callback Empty) : Engine.Stays (σ := σ) (Engine.HasInterval id handler m body) where
  step h he := h.hasInterval he
  taken _ he := he.congr rfl rfl
  clause {e} chain other he := by
    rcases takeItem_cases chain other e with ⟨htake, -⟩ | ⟨k, item, rest, -, -, htake⟩
    · rw [htake]
      exact he.congr rfl rfl
    · rw [htake]
      cases rest with
      | nil => exact he.congr rfl rfl
      | cons next rest => exact (he.addTimer next.delay none (.timedStep chain)).congr rfl rfl
  lasts h he := he.lasts h
  report _ he := he.congr rfl rfl

namespace Builtin

/-- An interval is set. The first one comes with a listener. -/
theorem startInterval_apply (handler : HandlerId) (delay : Nat) (e : Engine η σ) :
    startInterval handler delay e = (.ok (), { e with
      clock := (e.clock.setInterval delay
        (.repeatTick handler ⟨e.state.passage, e.state.turns⟩)).2
      repeatTimers := e.repeatTimers ++ [e.clock.nextId]
      listeners := if e.repeatTimers = [] then e.listeners ++ [repeatsCleaner] else e.listeners }) := by
  let tracked : Engine η σ := { e with
    clock := (e.clock.setInterval delay (.repeatTick handler ⟨e.state.passage, e.state.turns⟩)).2
    repeatTimers := e.repeatTimers ++ [e.clock.nextId] }
  show (if e.repeatTimers.isEmpty then Run.listen repeatsCleaner else pure () : Run η σ Unit)
    tracked = _
  by_cases hfirst : e.repeatTimers = []
  · rw [if_pos (List.isEmpty_iff.mpr hfirst), if_pos hfirst]
    rfl
  · rw [if_neg (mt List.isEmpty_iff.mp hfirst), if_neg hfirst]
    rfl

/-- A call with a time value makes a span and a handler that renders the contents there, and sets an
interval. -/
theorem runRepeat_of_delay {context : Context Empty} {e made : Engine Empty σ} {time : String}
    {delay : Nat} {wrapper : ElementId} (htime : context.call.args.text? 0 = some time)
    (hdelay : delayOf time e.config.domDelayMs = .ok delay)
    (hspan : context.call.MakesSpan e wrapper made) :
    ∃ store, runRepeat context e = startInterval ⟨made.handlers.size⟩ delay { made with
      handlers := made.handlers.push ⟨context, store, none,
        some (.repeatBody wrapper context.call.contents (isTransition (context.call.args.text? 1))),
        none⟩ } := by
  obtain @⟨out, shown, ready, opened, hshow, htarget, hopen⟩ := hspan
  let made : Engine Empty σ :=
    { opened with tree := opened.tree.addClass wrapper ("macro-" ++ context.call.name) }
  let body : Callback Empty :=
    .repeatBody wrapper context.call.contents (isTransition (context.call.args.text? 1))
  obtain ⟨store, hmake⟩ := ShadowHandler.make_apply context none (some body) none made
  refine ⟨store, ?_⟩
  unfold runRepeat
  simp only [htime]
  rw [Run.get_bind_apply, hdelay]
  dsimp only
  rw [Run.bind_of_ok hshow, Run.bind_of_ok htarget, Run.bind_of_ok hopen]
  show (ShadowHandler.make context none (some body) none >>= fun handler =>
    startInterval handler delay : Run Empty σ Unit) made = _
  rw [Run.bind_of_ok hmake]

/-- A call without a time value, or with one that is not valid, shows an error. -/
theorem runRepeat_of_invalid {context : Context Empty} {e : Engine Empty σ}
    (h : ∀ time, context.call.args.text? 0 = some time →
      ∃ error, delayOf time e.config.domDelayMs = .error error) :
    ∃ message, runRepeat context e = (.ok (), e.afterError context.call message) := by
  unfold runRepeat
  cases htime : context.call.args.text? 0 with
  | none => exact ⟨_, rfl⟩
  | some time =>
      obtain ⟨error, herror⟩ := h time htime
      refine ⟨error.message, ?_⟩
      dsimp only
      rw [Run.get_bind_apply, herror]
      rfl

/-- An interval of the present moment is set, of which the handler renders the body. -/
structure SetsInterval (e e₁ : Engine Empty σ) (handler : HandlerId) (delay : Nat)
    (body : Callback Empty) : Prop where
  clock : e₁.clock = (e.clock.setInterval delay (.repeatTick handler e.moment)).2
  tracked : e₁.repeatTimers = e.repeatTimers ++ [e.clock.nextId]
  /-- The new timer remains that of the interval, however the engine goes on. -/
  remains : ∀ watched log e', GoesOn watched e₁ log e' →
    e'.HasInterval e.clock.nextId handler e.moment body

/-- A call of `repeat` shows an error and does nothing else, or it sets an interval that renders the
contents of the call into a new span. -/
theorem runRepeat_sets (context : Context Empty) {e : Engine Empty σ} (he : e.Regular) :
    (∃ message, runRepeat context e = (.ok (), e.afterError context.call message)) ∨
      ∃ e₁ handler delay wrapper, runRepeat context e = (.ok (), e₁) ∧
        SetsInterval e e₁ handler delay
          (.repeatBody wrapper context.call.contents (isTransition (context.call.args.text? 1))) := by
  by_cases hvalid : ∃ time delay, context.call.args.text? 0 = some time ∧
      delayOf time e.config.domDelayMs = .ok delay
  · obtain ⟨time, delay, htime, hdelay⟩ := hvalid
    obtain ⟨wrapper, made, hspan, hmade⟩ := context.call.exists_makesSpan e
    obtain ⟨store, hrun⟩ := runRepeat_of_delay htime hdelay hspan
    obtain ⟨calls, tree, rfl⟩ := hmade
    refine .inr ⟨_, ⟨e.handlers.size⟩, delay, wrapper, hrun.trans (startInterval_apply ..), rfl, rfl,
      fun watched log e' h => (Engine.HasInterval.stays ..).goesOn h ?_⟩
    refine ⟨Nat.lt_succ_self _, fun timer htimer hid => ?_, ?_⟩
    · rcases Clock.Sound.mem_addTimer.mp htimer with hold | rfl
      · exact (Nat.ne_of_lt (he.clock.known timer hold) hid).elim
      · rfl
    · rw [Array.getElem?_map, Array.getElem?_push_size]
      rfl
  · refine .inl (runRepeat_of_invalid fun time htime => ?_)
    cases hdelay : delayOf time e.config.domDelayMs with
    | error error => exact ⟨error, rfl⟩
    | ok delay => exact (hvalid ⟨time, delay, htime, hdelay⟩).elim

end Builtin

end StoryEngine
