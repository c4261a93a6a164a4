import StoryEngine.Proofs.Engine.Ticking
import StoryEngine.Proofs.Play.Intervals
import StoryEngine.Proofs.Play.LoopControl
/-!
# StoryEngine.Proofs.Play.Stopped

The macro `stop` cancels the interval whose body is being rendered, and no other timer
(`stop_cancels_ticking`). That a tick executes it means that it matters to the tick what `stop` is
(`Engine.ExecutesStop`, `executesStop_iff`). If it is made to come to no end while the interval ticks,
then either the interval is cancelled, or the tick does what it does otherwise (`perform_cancelsOr`);
and if a tick comes to its end like that, then it is the same for any other `stop`
(`stopping_ticksAlike`).

Outside of ticks it is all the same whether the macro ends intervals or is refused
(`HostCall.refuse_alike`).
-/

namespace StoryEngine

variable {σ α β : Type} {id : TimerId}

/-! ### Cancelling or agreeing -/

/-- Where the first computation returns, the second one does the same, or the interval is cancelled.
An interval that was cancelled before remains so. -/
structure CancelsOr (id : TimerId) (x y : Run Empty σ α) : Prop where
  knows : x.Preserves fun e => id < e.clock.nextId
  keeps : x.Preserves (Engine.Cancelled id)
  agrees : ∀ e : Engine Empty σ, id < e.clock.nextId → Returned (x e).1 →
    y e = x e ∨ (x e).2.Cancelled id

theorem TimerStep.knows {terms : Terms Empty σ} {e e' : Engine Empty σ} (h : TimerStep terms e e')
    (he : id < e.clock.nextId) : id < e'.clock.nextId :=
  Nat.lt_of_lt_of_le he h.nextId_le

namespace CancelsOr

/-- What is the same for both only has to keep what is cancelled. -/
theorem own {x : Run Empty σ α} {terms : Terms Empty σ} (hx : x.Steps terms) : CancelsOr id x x where
  knows := .own fun e he => (hx e).keeps (fun _ _ hstep => hstep.knows) he
  keeps := .own fun e he => (hx e).keeps (fun _ _ hstep => hstep.cancelled) he
  agrees _ _ _ := .inl rfl

theorem bind {x y : Run Empty σ α} {f g : α → Run Empty σ β} (hx : CancelsOr id x y)
    (hf : ∀ a, CancelsOr id (f a) (g a)) : CancelsOr id (x >>= f) (y >>= g) where
  knows := .bind hx.knows fun a => (hf a).knows
  keeps := .bind hx.keeps fun a => (hf a).keeps
  agrees e he hr := by
    have hfirst := hx.agrees e he
    have hknown := (hx.knows e he).2
    rcases hrun : x e with ⟨(failure | _) | a, e₁⟩
    · rw [hrun] at hfirst
      rw [Run.bind_of_error hrun]
      exact (hfirst (returned_failure failure)).imp Run.bind_of_error fun hcancelled => hcancelled
    · rw [Run.bind_of_error hrun] at hr
      exact (hr rfl).elim
    · rw [hrun] at hfirst hknown
      rw [Run.bind_of_ok hrun] at hr ⊢
      rcases hfirst (returned_ok a) with hsame | hcancelled
      · rw [Run.bind_of_ok hsame]
        exact (hf a).agrees e₁ (hknown (returned_ok a)) hr
      · exact .inr (((hf a).keeps e₁ hcancelled).2 hr)

theorem attempt {x y : Run Empty σ α} (hx : CancelsOr id x y) :
    CancelsOr id (Run.attempt x) (Run.attempt y) where
  knows e he := (hx.knows e he).attempt
  keeps e he := (hx.keeps e he).attempt
  agrees e he hr := by
    obtain ⟨r, hrun, hreturned⟩ := Run.attempt_returned (Prod.eta (Run.attempt x e)).symm hr
    have hfirst := hx.agrees e he
    rw [hrun] at hfirst
    refine (hfirst hreturned).imp (fun hsame => ?_) fun hcancelled => ?_
    · unfold Run.attempt
      rw [hsame, hrun, Run.attempt_snd]
    · exact hcancelled

theorem congruence (σ : Type) (id : TimerId) :
    SteadyCongruence fun {α} (x y : Run Empty σ α) => CancelsOr id x y where
  own := own
  take _ := ⟨.own fun _ he => he, .own fun _ he => ⟨he.lacks, he.untracked⟩, fun _ _ _ => .inl rfl⟩
  bind := bind
  attempt := attempt

end CancelsOr

/-- By its name `repeat` is still the macro that sets intervals. -/
def Engine.namesRepeat (e : Engine Empty σ) : Bool :=
  match (e.registry.get? "repeat").bind fun entry => entry.definition.handler with
  | some (.builtin .«repeat») => true
  | _ => false

theorem forgetAmongRepeats_apply {e : Engine Empty σ} (h : e.namesRepeat = true) (id : TimerId) :
    Builtin.forgetAmongRepeats id e =
      (.ok (), { e with repeatTimers := e.repeatTimers.filter (· ≠ id) }) := by
  unfold Engine.namesRepeat at h
  rw [Builtin.forgetAmongRepeats, Run.get_bind_apply]
  split at h
  case h_1 hrepeat => simp only [hrepeat]; rfl
  case h_2 => cases h

/-- Do not come to an end. -/
def neverStop (_ : MacroCall Empty) : Run Empty σ Unit :=
  throw .outOfFuel

/-- Do not come to an end if the interval is ticking and `stop` would cancel it. -/
def haltTicking (id : TimerId) (call : MacroCall Empty) : Run Empty σ Unit := do
  let e ← get
  if e.repeatTimer = some id ∧ e.namesRepeat = true then throw .outOfFuel else Builtin.runStop call

/-- Either `stop` cancels the interval, or it comes to its end in any case. -/
theorem runStop_cancelsOr (call : MacroCall Empty) :
    CancelsOr id (Builtin.runStop call : Run Empty σ Unit) (haltTicking id call) := by
  have hstop : CancelsOr id (Builtin.runStop call : Run Empty σ Unit) (Builtin.runStop call) :=
    (CancelsOr.congruence σ id).same (Builtin.steady_runStop call)
  have hmodes : CancelsOr id (call.showModes ["hidden"] : Run Empty σ Unit)
      (call.showModes ["hidden"]) :=
    (CancelsOr.congruence σ id).same (call.steady_showModes ["hidden"])
  refine ⟨hstop.knows, hstop.keeps, fun e he hr => ?_⟩
  by_cases hends : e.repeatTimer = some id ∧ e.namesRepeat = true
  · obtain ⟨hticking, hnames⟩ := hends
    let cleared : Engine Empty σ := { e with clock := e.clock.clearTimer id }
    let cancelled : Engine Empty σ := { cleared with
      repeatTimers := e.repeatTimers.filter (· ≠ id)
      loopBreak := some .«break» }
    have hcancelled : cancelled.Cancelled id := by
      refine ⟨⟨he, fun timer htimer => ?_⟩, fun hid => ?_⟩
      · simpa using (List.mem_filter.mp htimer).2
      · simpa using (List.mem_filter.mp hid).2
    have hforget := forgetAmongRepeats_apply (e := cleared) hnames id
    have hrun : Builtin.runStop call e = call.showModes ["hidden"] cancelled := by
      rw [Builtin.runStop, Run.get_bind_apply, hticking]
      exact Run.bind_of_ok hforget
    rw [hrun] at hr ⊢
    exact .inr ((hmodes.keeps cancelled hcancelled).2 hr)
  · rw [haltTicking, Run.get_bind_apply, if_neg hends]
    exact .inl rfl

/-- Either an interval is cancelled, or the task does the same if it does not come to an end where the
interval is ended. -/
theorem perform_cancelsOr (n : Nat) {t : Task} (ht : ∀ ms, t ≠ .advance ms) :
    CancelsOr id (perform Host.idle n t : Run Empty σ Unit) (stopping (haltTicking id) n t) :=
  (CancelsOr.congruence σ id).stopping runStop_cancelsOr n ht

/-! ### Ticks -/

/-- Whatever the timer runs executes `stop`: it matters what that is. -/
def Engine.ExecutesStop (n : Nat) (timer : Timer (TimerAction Empty)) (e : Engine Empty σ) : Prop :=
  ∃ stop, runTimer Host.idle (stopping stop n) timer e ≠
    runTimer Host.idle (perform Host.idle n) timer e

section Ticks

variable {timer : Timer (TimerAction Empty)} {handler : HandlerId} {wrapper : ElementId}
  {contents : String} {transition : Bool} {e : Engine Empty σ} {n : Nat}

/-- The engine in which the body of an interval is rendered. -/
def Engine.beginTick (e : Engine Empty σ) (id : TimerId) : Engine Empty σ :=
  { e with loopBreak := none, repeatTimer := some id }

/-- An interval of the present moment invokes its handler. -/
theorem runTimer_tick (haction : timer.action = .repeatTick handler e.moment) (p : Perform Empty σ) :
    runTimer Host.idle p timer e =
      Run.andFinally (p (.invoke handler .nothing))
        (fun e' => { e' with repeatTimer := e.repeatTimer, loopBreak := none })
        (e.beginTick timer.id) := by
  rw [runTimer, haction]
  dsimp only
  rw [Builtin.runRepeatTick, Run.isStale_bind_apply, if_neg]
  · rfl
  · simp [Engine.moment]

theorem Engine.HasInterval.isBody {id : TimerId} {m : Moment}
    (h : e.HasInterval id handler m (.repeatBody wrapper contents transition)) :
    e.Holds handler ShadowHandler.IsBody := by
  have hparts := h.parts
  rw [Array.getElem?_map] at hparts
  obtain ⟨found, hfound, hsame⟩ := Option.map_eq_some_iff.mp hparts
  simp only [ShadowHandler.parts, Prod.mk.injEq] at hsame
  exact ⟨found, hfound, hsame.1, .inl ⟨_, _, _, hsame.2.1⟩, hsame.2.2⟩

/-- While an interval ticks, its body is rendered in a place of its own. -/
theorem Engine.StandsIn.ticks {place : Place} (he : e.StandsIn place) (hsound : e.Sound)
    (id : TimerId) : (e.beginTick id).Ticks place id e.moment :=
  ⟨he.beginTick id, hsound.congr rfl, rfl, rfl⟩

theorem namesRepeat_of_registry (h : e.registry = Registry.ofBuiltins .builtin) :
    e.namesRepeat = true := by
  have hnames : (match ((Registry.ofBuiltins (@Handler.builtin Empty)).get? "repeat").bind
      fun entry => entry.definition.handler with
      | some (.builtin .«repeat») => true
      | _ => false) = true := by
    decide +kernel
  rw [Engine.namesRepeat, h]
  exact hnames

/-- While the interval ticks, what does not come to an end there agrees with anything else. -/
theorem haltTicking_ticksAlike (place : Place) (m : Moment) (call : MacroCall Empty)
    (y : Run Empty σ Unit) : TicksAlike place id m (haltTicking id call) y := by
  intro e he hr
  have hhalt : (haltTicking id call : Run Empty σ Unit) e = (.error .outOfFuel, e) := by
    rw [haltTicking, Run.get_bind_apply,
      if_pos ⟨he.ticking, namesRepeat_of_registry he.standsIn.registry⟩]
    rfl
  rw [hhalt] at hr
  exact (hr rfl).elim

/-- What never comes to an end agrees with anything else. -/
theorem neverStop_ticksAlike (place : Place) (m : Moment) (call : MacroCall Empty)
    (y : Run Empty σ Unit) : TicksAlike place id m (neverStop call) y :=
  fun _ _ hr => (hr rfl).elim

/-- What the body of an interval asks for. -/
theorem invoke_ticksAlike {place : Place} (he : e.StandsIn place) (hsound : e.Sound)
    (hinterval : e.HasInterval timer.id handler e.moment (.repeatBody wrapper contents transition))
    {stop stop' : MacroCall Empty → Run Empty σ Unit}
    (hstop : ∀ place call, TicksAlike place timer.id e.moment (stop call) (stop' call)) (n : Nat) :
    (stopping stop n (.invoke handler .nothing)).AgreesAt
      (Engine.Ticks place timer.id e.moment) (stopping stop' n (.invoke handler .nothing))
      (e.beginTick timer.id) :=
  stopping_ticksAlike hstop n (he.ticks hsound timer.id) (Engine.HasInterval.isBody (e := e) hinterval)

/-- What a tick leaves: the player has not moved on, no interval is ticking but the one that was before,
and no loop is being left. If the tick executes `stop` then the interval is cancelled. -/
theorem runTimer_interval {place : Place} (he : e.StandsIn place) (hsound : e.Sound)
    (hinterval : e.HasInterval timer.id handler e.moment (.repeatBody wrapper contents transition))
    (haction : timer.action = .repeatTick handler e.moment) {r : Except Halt Unit}
    {e' : Engine Empty σ} (hrun : runTimer Host.idle (perform Host.idle n) timer e = (r, e'))
    (hr : Returned r) :
    (e'.moment = e.moment ∧ e'.repeatTimer = e.repeatTimer ∧ e'.loopBreak = none) ∧
      (e.ExecutesStop n timer → e'.Cancelled timer.id) := by
  have hagree (stop stop' : MacroCall Empty → Run Empty σ Unit)
      (hstop : ∀ place call, TicksAlike place timer.id e.moment (stop call) (stop' call)) :=
    invoke_ticksAlike he hsound hinterval hstop n
  rw [runTimer_tick haction] at hrun
  obtain ⟨e₁, hinvoke, rfl⟩ := Run.andFinally_returned hrun hr
  have hticks : e₁.Ticks place timer.id e.moment := by
    have hown := hagree Builtin.runStop Builtin.runStop fun place call =>
      .quick (Builtin.quick_runStop call)
    rw [stopping_runStop] at hown
    exact (hown.of_run hinvoke hr).2
  refine ⟨⟨hticks.present, rfl, rfl⟩, fun hexecutes => ?_⟩
  obtain ⟨stop, hdiffers⟩ := hexecutes
  have hcancelsOr := (perform_cancelsOr n (t := .invoke handler .nothing) nofun).agrees
    (e.beginTick timer.id) hinterval.known
  rw [hinvoke] at hcancelsOr
  rcases hcancelsOr hr with hsame | hcancelled
  · -- it was not ended, and so it is the same with any `stop`
    have hother := hagree (haltTicking timer.id) stop fun place call =>
      haltTicking_ticksAlike place e.moment call (stop call)
    obtain ⟨hinvoke', -⟩ := hother.of_run hsame hr
    refine (hdiffers ?_).elim
    rw [runTimer_tick haction, runTimer_tick haction, Run.andFinally_of_returned _ hinvoke hr,
      Run.andFinally_of_returned _ hinvoke' hr]
  · exact ⟨hcancelled.lacks, hcancelled.untracked⟩

/-- A tick that comes to its end executes `stop` just if it comes to no end where `stop` does not. -/
theorem executesStop_iff {place : Place} (he : e.StandsIn place) (hsound : e.Sound)
    (hinterval : e.HasInterval timer.id handler e.moment (.repeatBody wrapper contents transition))
    (haction : timer.action = .repeatTick handler e.moment)
    (hr : Returned (runTimer Host.idle (perform Host.idle n) timer e).1) :
    e.ExecutesStop n timer ↔ ¬ Returned (runTimer Host.idle (stopping neverStop n) timer e).1 := by
  have hsame (stop : MacroCall Empty → Run Empty σ Unit)
      (hends : Returned (runTimer Host.idle (stopping neverStop n) timer e).1) :
      runTimer Host.idle (stopping stop n) timer e =
        runTimer Host.idle (stopping neverStop n) timer e := by
    have halike (place : Place) (call : MacroCall Empty) :
        TicksAlike place timer.id e.moment (neverStop call) (stop call) :=
      neverStop_ticksAlike place e.moment call (stop call)
    have hinvoke := invoke_ticksAlike he hsound hinterval halike n
    rw [runTimer_tick haction] at hends ⊢
    rw [runTimer_tick haction]
    exact (hinvoke.andFinally (J := fun _ => True) (fun _ _ => trivial) hends).1
  constructor
  · rintro ⟨stop, hdiffers⟩ hends
    have hown := hsame Builtin.runStop hends
    rw [stopping_runStop] at hown
    exact hdiffers ((hsame stop hends).trans hown.symm)
  · exact fun hhalts => ⟨neverStop, fun heq => hhalts (heq ▸ hr)⟩

end Ticks

/-! ### Timers that fire -/

/-- A computation of which a failure is noted has returned. -/
theorem Run.reporting_returned {x : Run Empty σ Unit} {e e' : Engine Empty σ}
    (h : Run.reporting x e = (.ok (), e')) :
    ∃ r e₁, x e = (r, e₁) ∧ Returned r ∧ (e' = e₁ ∨ ∃ f, e' = (Run.report f e₁).2) := by
  obtain ⟨outcome, e₁, hattempt, hnoted⟩ := Run.bind_eq_ok h
  obtain ⟨r, hrun, hr⟩ := Run.attempt_returned hattempt (returned_ok outcome)
  refine ⟨r, e₁, hrun, hr, ?_⟩
  cases outcome with
  | ok u => cases hnoted; exact .inl rfl
  | error f => cases hnoted; exact .inr ⟨f, rfl⟩

/-- What an engine is when the next timer can fire: its host has called it, and timers have fired since
then. -/
inductive Poised (config : Config) (host : σ) : Engine Empty σ → Prop
  | played {e : Engine Empty σ} (h : Played config host e) : Poised config host e
  | fired {e e' : Engine Empty σ} (before : Poised config host e) {limit n : Nat}
      {timer : Timer (TimerAction Empty)} {clock : Clock (TimerAction Empty)}
      (hdue : e.clock.takeDue limit = some (timer, clock))
      (hrun : Run.reporting (runTimer Host.idle (perform Host.idle n) timer) { e with clock := clock } =
        (.ok (), e')) : Poised config host e'

/-- Of the timers that have been set in the first engine, those that are pending in the second one are
the same, each with the same time, but for the one with the identity. -/
structure Engine.KeepsOthers (id : TimerId) (e e' : Engine Empty σ) : Prop where
  kept : ∀ other ∈ e.clock.timers, other.id ≠ id → other ∈ e'.clock.timers
  only : ∀ other ∈ e'.clock.timers, other.id ≠ id → other.id < e.clock.nextId →
    other ∈ e.clock.timers

namespace Poised

variable {config : Config} {host : σ} {e e' : Engine Empty σ} {limit n : Nat}
  {timer : Timer (TimerAction Empty)} {clock : Clock (TimerAction Empty)}

theorem confined (hregistry : e.registry = Registry.ofBuiltins .builtin)
    (hdue : e.clock.takeDue limit = some (timer, clock))
    (hrun : Run.reporting (runTimer Host.idle (perform Host.idle n) timer) { e with clock := clock } =
      (.ok (), e')) : Engine.Confined { context := e.current } { e with clock := clock } e' := by
  have hstands : e.StandsIn { context := e.current } := .ofRegistry hregistry
  have htaken : Change { context := e.current } e { e with clock := clock } :=
    .clock clock (.takeDue hdue)
  have hobeys := hstands.parted.timers timer (Clock.mem_of_takeDue hdue)
  have hmade : Made .any { context := e.current } fun p : Perform Empty σ =>
      Run.reporting (runTimer Host.idle p timer) := made_reporting (made_runTimer hobeys)
  exact (Engine.Confined.carried.made (Engine.Confined.carried.performs n) hmade
    (htaken.standsIn hstands) hrun (returned_ok ())).2

/-- Nothing is under way between two timers that fire. -/
theorem between (h : Poised config host e) :
    e.registry = Registry.ofBuiltins .builtin ∧ e.Sound ∧ e.repeatTimer = none := by
  induction h with
  | played h => exact ⟨h.registry, h.sound, h.atRest.repeatTimer⟩
  | fired before hdue hrun ih =>
      obtain ⟨hregistry, hsound, hnone⟩ := ih
      have hconfined := confined hregistry hdue hrun
      refine ⟨hconfined.frame.registry.trans hregistry, hconfined.sound (hsound.congr rfl), ?_⟩
      rcases hconfined.frame.repeatTimer with hsame | hnone'
      · exact hsame.trans hnone
      · exact hnone'

theorem regular (h : Poised config host e) : e.Regular := by
  induction h with
  | played h => exact h.regular
  | fired before hdue hrun ih => exact ih.fire hdue hrun

/-- As time passes the timers fire one after another, each in a poised engine, until none is due. -/
theorem fireDue {fuel : Nat} (h : Poised config host e)
    (hrun : StoryEngine.fireDue Host.idle (perform Host.idle n) limit fuel e = (.ok (), e')) :
    Poised config host e' ∧ e'.clock.takeDue limit = none := by
  induction fuel generalizing e with
  | zero => cases hrun
  | succ fuel ih =>
      rw [fireDue_succ] at hrun
      cases hdue : e.clock.takeDue limit with
      | none =>
          rw [hdue] at hrun
          cases hrun
          exact ⟨h, hdue⟩
      | some due =>
          rw [hdue] at hrun
          obtain ⟨u, e₁, hfired, hrest⟩ := Run.bind_eq_ok hrun
          exact ih (h.fired hdue hfired) hrest

/-- When a timer fires, none that has been set before is pending afterwards unless it was so before. -/
theorem pending_before (hdue : e.clock.takeDue limit = some (timer, clock))
    (hrun : Run.reporting (runTimer Host.idle (perform Host.idle n) timer) { e with clock := clock } =
      (.ok (), e')) {other : Timer (TimerAction Empty)} (hother : other ∈ e'.clock.timers)
    (hset : other.id < e.clock.nextId) : ∃ before ∈ e.clock.timers, before.id = other.id := by
  by_contra hnone
  have hlacks : e.Lacks other.id := ⟨hset, fun before hbefore hid => hnone ⟨before, hbefore, hid⟩⟩
  exact (hlacks.fire hdue hrun).2.2 other hother rfl

/-- An interval of the present moment ticks. Afterwards no interval is ticking and no loop is being left,
and of the other timers that had been set the same ones are pending, each for the same time. If the tick
executes `stop`, the interval is cancelled. -/
theorem tick (h : Poised config host e) {handler : HandlerId} {wrapper : ElementId}
    {contents : String} {transition : Bool}
    (hinterval : e.HasInterval timer.id handler e.moment (.repeatBody wrapper contents transition))
    (hdue : e.clock.takeDue limit = some (timer, clock))
    (hrun : Run.reporting (runTimer Host.idle (perform Host.idle n) timer) { e with clock := clock } =
      (.ok (), e')) :
    (e'.repeatTimer = none ∧ e'.loopBreak = none) ∧ e.KeepsOthers timer.id e' ∧
      (Engine.ExecutesStop n timer { e with clock := clock } → e'.Cancelled timer.id) := by
  obtain ⟨hregistry, hsound, hnone⟩ := h.between
  have haction := hinterval.action timer (Clock.mem_of_takeDue hdue) rfl
  have hstands : e.StandsIn { context := e.current } := .ofRegistry hregistry
  have htaken : Change { context := e.current } e { e with clock := clock } :=
    .clock clock (.takeDue hdue)
  obtain ⟨r, e₁, hfired, hr, hnoted⟩ := Run.reporting_returned hrun
  obtain ⟨⟨hmoment, hticking, hleaving⟩, hcancels⟩ := runTimer_interval (htaken.standsIn hstands)
    (hsound.congr rfl) (hinterval.lasts (.takeDue hdue)) haction hfired hr
  have hsame : e'.moment = e.moment ∧ e'.repeatTimer = none ∧ e'.loopBreak = none ∧
      (e₁.Cancelled timer.id → e'.Cancelled timer.id) := by
    rcases hnoted with rfl | ⟨f, rfl⟩
    · exact ⟨hmoment, hticking.trans hnone, hleaving, fun h => h⟩
    · exact ⟨hmoment, hticking.trans hnone, hleaving, (Engine.Cancelled.stays timer.id).report f⟩
  have hkept (other : Timer (TimerAction Empty)) (hother : other ∈ e.clock.timers)
      (hid : other.id ≠ timer.id) : other ∈ e'.clock.timers := by
    have hexpects : e.Expects (fun _ => False) other e.moment :=
      ⟨h.regular, hother, rfl, fun _ => False.elim, hnone ▸ nofun, fun hfalse => hfalse⟩
    rcases hexpects.fireOther hdue hid.symm hrun with hpast | hafter
    · -- the player has not moved on
      rw [Engine.Past, ← hsame.1] at hpast
      exact absurd hpast (Nat.lt_irrefl _)
    · exact hafter.pending
  refine ⟨⟨hsame.2.1, hsame.2.2.1⟩, ⟨hkept, fun other hother hid hset => ?_⟩,
    fun hexecutes => hsame.2.2.2 (hcancels hexecutes)⟩
  obtain ⟨before, hbefore, hbeforeId⟩ := pending_before hdue hrun hother hset
  have hafter := hkept before hbefore (hbeforeId.symm ▸ hid)
  exact (h.fired hdue hrun).regular.clock.eq_of_id hafter hother hbeforeId ▸ hbefore

end Poised

/-! ### Outside of ticks -/

/-- Refuse to stop: show an error. -/
def refuseStop (call : MacroCall Empty) : Run Empty σ Unit :=
  call.error "must only be used in conjunction with its parent macro <<repeat>>"

/-- No interval is ticking. -/
def Engine.Idles (e : Engine Empty σ) : Prop :=
  e.repeatTimer = none

theorem TimerStep.idles {e e' : Engine Empty σ}
    (h : TimerStep (.idle (fun _ => False) True) e e') (he : e.Idles) : e'.Idles := by
  cases h with
  | still h => exact (Engine.agenda_eq_iff.mp h).2.2.2.1.trans he
  | tick timer h =>
      cases timer with
      | none => rfl
      | some id => exact (h id rfl).elim
  | turn title => rfl
  | _ => exact he

/-- Work that is the same for both performers where no interval is ticking is so as a whole. -/
theorem idles_congruence (σ : Type) :
    SteadyCongruence fun {α} (x y : Run Empty σ α) => x.AlikeIn Engine.Idles y where
  own hx := .own fun e he => (hx e).keeps (fun _ _ hstep => hstep.idles) he
  take _ := .own fun _ he => he
  bind := .bind
  attempt hx e he := (hx e he).attempt

theorem runStop_alike (call : MacroCall Empty) :
    (Builtin.runStop call : Run Empty σ Unit).AlikeIn Engine.Idles (refuseStop call) := by
  intro e he
  have hrun : Builtin.runStop call e = (refuseStop call : Run Empty σ Unit) e := by
    rw [Builtin.runStop, Run.get_bind_apply, he]
    rfl
  exact ⟨hrun.symm, fun _ => hrun ▸ he⟩

section Refusing

variable {p p' : Perform Empty σ}
  (hp : ∀ t, (∀ ms, t ≠ .advance ms) → (p t).AlikeIn Engine.Idles (p' t))
include hp

theorem Steady.idle_alike {X : Perform Empty σ → Run Empty σ α}
    (hX : Steady (.idle (fun _ => False) True) X) : (X p).AlikeIn Engine.Idles (X p') :=
  (idles_congruence σ).steady hX hp

/-- A letter is typed, and the timer may cancel itself. -/
theorem Builtin.typeLetter_alike (typing : Nat) (id : TimerId) :
    (typeLetter p typing id).AlikeIn Engine.Idles (typeLetter p' typing id) := by
  have hown {α : Type} {x : Run Empty σ α} (hx : ∀ e, (x e).2.repeatTimer = e.repeatTimer) :
      x.AlikeIn Engine.Idles x := .own fun e he => (hx e).trans he
  refine .bind (hown fun _ => rfl) fun e => ?_
  cases e.typings[typing]? with
  | none => exact hown fun _ => rfl
  | some t =>
      dsimp only
      split
      · exact hown fun _ => rfl
      · refine .bind (hown fun _ => rfl) fun stale => ?_
        split
        · exact hown fun _ => rfl
        · refine .bind (hown fun _ => rfl) fun typed => ?_
          split
          · exact hown fun _ => rfl
          · exact .bind (hown fun _ => rfl) fun _ => (steady_stopTyping typing t).idle_alike hp

/-- A timer fires that is not that of an interval. -/
theorem runTimer_alike {timer : Timer (TimerAction Empty)} (htick : timer.action.isTick = false) :
    (runTimer Host.idle p timer).AlikeIn Engine.Idles (runTimer Host.idle p' timer) := by
  obtain ⟨id, due, period, action⟩ := timer
  cases action with
  | repeatTick handler moment => cases htick
  | timedStep chain =>
      refine .bind (.own fun e he => ?_) fun found => ?_
      · rcases takeItem_cases chain id e with ⟨htake, -⟩ | ⟨k, item, rest, -, -, htake⟩
        · rw [htake]
          exact he
        · rw [htake]
          cases rest <;> exact he
      · cases found with
        | none => exact .own fun _ he => he
        | some taken => exact hp _ nofun
  | settle element className => exact .own fun _ he => he
  | beginTyping typing => exact (Builtin.steady_beginTyping typing).idle_alike hp
  | typeLetter typing => exact Builtin.typeLetter_alike hp typing id
  | host procedure => exact procedure.elim

end Refusing

/-- When an interval has ticked none is ticking, if none was before. -/
theorem runTimer_idles (p : Perform Empty σ) {timer : Timer (TimerAction Empty)}
    (htick : timer.action.isTick = true) : (runTimer Host.idle p timer).Preserves Engine.Idles := by
  obtain ⟨id, due, period, action⟩ := timer
  cases action with
  | repeatTick handler moment =>
      intro e he
      refine ⟨rfl, fun hr => ?_⟩
      have hrun : runTimer Host.idle p ⟨id, due, period, .repeatTick handler moment⟩ e =
          Builtin.runRepeatTick p handler moment id e := rfl
      rw [hrun, Builtin.runRepeatTick, Run.isStale_bind_apply] at hr ⊢
      split at hr
      · rename_i hstale
        rw [if_pos hstale]
        exact he
      · rename_i hfresh
        rw [if_neg hfresh]
        obtain ⟨e₁, -, hclosed⟩ := Run.andFinally_returned (Prod.eta _).symm hr
        exact (congrArg Engine.repeatTimer hclosed).trans he
  | _ => cases htick

/-- Where no interval is ticking, it makes no difference if `stop` is refused outside of ticks. -/
theorem perform_refuse_alike (n : Nat) (t : Task) :
    (perform Host.idle n t : Run Empty σ Unit).AlikeIn Engine.Idles (stopping refuseStop n t) := by
  have htask (n : Nat) (t : Task) (ht : ∀ ms, t ≠ .advance ms) :
      (perform Host.idle n t : Run Empty σ Unit).AlikeIn Engine.Idles (stopping refuseStop n t) :=
    (idles_congruence σ).stopping runStop_alike n ht
  cases t with
  | advance ms =>
      cases n with
      | zero => exact .own fun _ he => he
      | succ n =>
          have hfires (limit fuel : Nat) :
              (fireDue Host.idle (perform Host.idle n) limit fuel : Run Empty σ Unit).AlikeIn
                Engine.Idles (fireStopping (stopping refuseStop n) (perform Host.idle n) limit fuel) := by
            induction fuel with
            | zero => exact .own fun _ he => he
            | succ fuel ih =>
                rw [fireDue, fireStopping]
                refine .bind (.own fun e he => ?_) fun timer? => ?_
                · rw [takeTimer, Run.get_bind_apply]
                  cases e.clock.takeDue limit <;> exact he
                · cases timer? with
                  | none => exact .own fun _ he => he
                  | some timer =>
                      refine .bind (fun e he => .reporting (fun _ _ he => he) ?_) fun _ => ih
                      cases htick : timer.action.isTick with
                      | true => exact runTimer_idles _ htick e he
                      | false => exact runTimer_alike (htask n) htick e he
          refine .bind (.own fun _ he => he) fun e => .bind (hfires _ n) fun _ => ?_
          exact .own fun _ he => he
  | _ => exact htask n _ fun _ hadvance => by cases hadvance

/-- It makes no difference to a call of the host. -/
theorem HostCall.refuse_alike (call : HostCall) (n : Nat) :
    (call.run (perform Host.idle n) : Run Empty σ Unit).AlikeIn Engine.Idles
      (call.run (stopping refuseStop n)) := by
  have htask := perform_refuse_alike (σ := σ) n
  cases call with
  | addPassage title source => exact .own fun _ he => he
  | render out source => exact htask _
  | navigate title => exact htask _
  | click element =>
      exact .bind ((steady_click element).idle_alike fun t _ => htask t) fun _ => .own fun _ he => he
  | pressKey key => exact htask _
  | advance ms => exact htask _
  | set name value =>
      have hset : Steady (.idle (fun _ => False) True) fun _ : Perform Empty σ =>
          Run.changingState fun s => s.set name value :=
        .changingState fun _ _ => State.reassigned_of_set
      exact hset.idle_alike fun t _ => htask t
  | newOutput => exact .own fun _ he => he
  | takeErrors => exact .own fun _ he => he

/-! ### Stopping -/

/-- The macro `stop` cancels exactly the interval that is ticking.

A call of `repeat` sets an interval, or shows an error; the interval remains the same however the engine
goes on. The work under way and whatever the host asks for are ways to go on.

Whenever an interval of the present moment ticks, then after the tick no interval is ticking and no loop
is being left, and of all other timers that had been set those are pending that were so before, for the
same times. If the body executes `stop`, wherever in it, then from that tick on the interval is neither
pending nor tracked, and it never ticks again.

All that a host asks for is the same if outside of ticks, which means in passages, and later in what ticks
have put off, every `stop` does nothing but to show one error. -/
theorem stop_cancels_ticking (config : Config) (host : σ) :
    (∀ (context : Context Empty) (e : Engine Empty σ), e.Regular →
      (∃ message, Builtin.runRepeat context e = (.ok (), e.afterError context.call message)) ∨
        ∃ e₁ handler delay wrapper, Builtin.runRepeat context e = (.ok (), e₁) ∧
          Builtin.SetsInterval e e₁ handler delay (.repeatBody wrapper context.call.contents
            (Builtin.isTransition (context.call.args.text? 1)))) ∧
    (∀ watched (e₀ e : Engine Empty σ) log, GoesOn watched e₀ log e →
      (∀ (X : Perform Empty σ → Run Empty σ Unit), Steady (.idle (fun _ => False) False) X →
        ∀ n r e', X (perform Host.idle n) e = (r, e') → Returned r →
          ∃ more, GoesOn watched e₀ (log ++ more) e') ∧
      ∀ (call : HostCall) n r e', call.run (perform Host.idle n) e = (r, e') → Returned r →
        ∃ more, GoesOn watched e₀ (log ++ more) e') ∧
    (∀ (e e' : Engine Empty σ) (limit n : Nat) (timer : Timer (TimerAction Empty))
        (clock : Clock (TimerAction Empty)) (handler : HandlerId) (wrapper : ElementId)
        (contents : String) (transition : Bool),
      Poised config host e → e.clock.takeDue limit = some (timer, clock) →
      e.HasInterval timer.id handler e.moment (.repeatBody wrapper contents transition) →
      Run.reporting (runTimer Host.idle (perform Host.idle n) timer) { e with clock := clock } =
        (.ok (), e') →
      (e'.repeatTimer = none ∧ e'.loopBreak = none) ∧ e.KeepsOthers timer.id e' ∧
      (Engine.ExecutesStop n timer { e with clock := clock } →
        ∀ watched log e'', GoesOn watched e' log e'' →
          e''.clock.isPending timer.id = false ∧ timer.id ∉ e''.repeatTimers ∧
            ∀ f ∈ log, f.id ≠ timer.id)) ∧
    (∀ e : Engine Empty σ, Played config host e → ∀ (call : HostCall) (n : Nat),
      call.run (stopping refuseStop n) e = call.run (perform Host.idle n) e) ∧
    ∀ (call : MacroCall Empty) (e : Engine Empty σ), refuseStop call e = (.ok (), e.afterError call
      "must only be used in conjunction with its parent macro <<repeat>>") := by
  refine ⟨fun context e he => Builtin.runRepeat_sets context he, fun watched e₀ e log h =>
    ⟨fun X hX n r e' hrun hr => h.work hX hrun hr, fun call n r e' hrun hr => h.hostCall hrun hr⟩,
    ?ticks, ?outside, fun _ _ => rfl⟩
  case ticks =>
    intro e e' limit n timer clock handler wrapper contents transition he hdue hinterval hrun
    obtain ⟨hidle, hothers, hcancels⟩ := he.tick hinterval hdue hrun
    refine ⟨hidle, hothers, fun hexecutes watched log e'' h => ?_⟩
    obtain ⟨hcancelled, hnever⟩ := h.cancelled (hcancels hexecutes)
    have hgone : e''.clock.isPending timer.id = false :=
      List.any_eq_false.mpr fun other hother => by simpa using hcancelled.lacks.2 other hother
    exact ⟨hgone, hcancelled.untracked, hnever⟩
  case outside =>
    intro e he call n
    exact (call.refuse_alike n e he.atRest.repeatTimer).1

/-- What can be told about an interval by looking at the engine. -/
def Engine.showsInterval (e : Engine Empty σ) (id : TimerId) (handler : HandlerId) (m : Moment) :
    Bool :=
  decide (id < e.clock.nextId) &&
    (e.clock.timers.all fun timer => timer.id != id ||
      match timer.action with
      | .repeatTick other moment => other == handler && moment == m
      | _ => false) &&
    match (e.handlers.map ShadowHandler.parts)[handler.index]? with
    | some (none, some (.repeatBody _ _ _), none) => true
    | _ => false

theorem Engine.hasInterval_of_shows {e : Engine Empty σ} {id : TimerId} {handler : HandlerId}
    {m : Moment} (h : e.showsInterval id handler m = true) :
    ∃ wrapper contents transition,
      e.HasInterval id handler m (.repeatBody wrapper contents transition) := by
  simp only [showsInterval, Bool.and_eq_true, decide_eq_true_eq, List.all_eq_true] at h
  obtain ⟨⟨hknown, htimers⟩, hparts⟩ := h
  split at hparts
  case h_2 => cases hparts
  case h_1 wrapper contents transition hbody =>
    refine ⟨wrapper, contents, transition, hknown, fun timer htimer hid => ?_, hbody⟩
    have htick := htimers timer htimer
    rw [hid] at htick
    cases haction : timer.action with
    | repeatTick other moment =>
        simp [haction] at htick
        rw [htick.1, htick.2]
    | _ => simp [haction] at htick

/-- An interval that ends itself in the midst of other macros, and one that goes on. -/
def endingInterval : String :=
  "<<repeat 50ms>><<if true>><<stop>><</if>><</repeat>><<repeat 70ms>>x<</repeat>>"

/-- The first interval is cancelled by its first tick, and the second one is not. -/
theorem endingInterval_cancelled : ∃ (e e' : Engine Empty Unit) (timer : Timer (TimerAction Empty))
    (clock : Clock (TimerAction Empty)) (n : Nat), Played {} () e ∧
      e.clock.takeDue 100 = some (timer, clock) ∧ timer.id = 1 ∧
      Run.reporting (runTimer Host.idle (perform Host.idle n) timer) { e with clock := clock } =
        (.ok (), e') ∧
      e'.clock.isPending 2 = true ∧ ∀ watched log e'', GoesOn watched e' log e'' →
        e''.clock.isPending 1 = false ∧ 1 ∉ e''.repeatTimers ∧ ∀ f ∈ log, f.id ≠ 1 := by
  let due (e : Engine Empty Unit) := (e.clock.takeDue 100).getD (⟨0, 0, none, .beginTyping 0⟩, {})
  let taken (e : Engine Empty Unit) : Engine Empty Unit := { e with clock := (due e).2 }
  let ran (p : Perform Empty Unit) (e : Engine Empty Unit) := runTimer Host.idle p (due e).1 (taken e)
  obtain ⟨e, n, hplayed, hdue, hid, hinterval, hends, hhalts, hother⟩ :
      ∃ (e : Engine Empty Unit) (n : Nat), Played {} () e ∧
        (e.clock.takeDue 100).isSome = true ∧ (due e).1.id = 1 ∧
        e.showsInterval (due e).1.id ⟨0⟩ e.moment = true ∧ Returned (ran (perform Host.idle n) e).1 ∧
        ¬ Returned (ran (stopping neverStop n) e).1 ∧ e.clock.isPending 2 = true := by
    let given : Engine Empty Unit := (Engine.ofConfig {} ()).addPassage "P" endingInterval
    let shown := perform Host.idle 20 (.navigate "P") given
    obtain ⟨hreturned, hrest⟩ : Returned shown.1 ∧ (shown.2.clock.takeDue 100).isSome = true ∧
        (due shown.2).1.id = 1 ∧ shown.2.showsInterval (due shown.2).1.id ⟨0⟩ shown.2.moment = true ∧
        Returned (ran (perform Host.idle 20) shown.2).1 ∧
        ¬ Returned (ran (stopping neverStop 20) shown.2).1 ∧ shown.2.clock.isPending 2 = true := by
      decide +kernel
    have hgiven : Played {} () given :=
      .call .start (.addPassage "P" endingInterval) (n := 0) rfl (returned_ok ())
    exact ⟨shown.2, 20, .call hgiven (.navigate "P") (n := 20) rfl hreturned, hrest⟩
  have htake : e.clock.takeDue 100 = some (due e) := by
    obtain ⟨found, hfound⟩ := Option.isSome_iff_exists.mp hdue
    simp only [due, hfound, Option.getD_some]
  obtain ⟨e', hrun⟩ : ∃ e', Run.reporting (runTimer Host.idle (perform Host.idle n) (due e).1)
      (taken e) = (.ok (), e') := by
    obtain ⟨outcome, hattempt⟩ :=
      Run.attempt_of_returned (Prod.eta (ran (perform Host.idle n) e)).symm hends
    cases outcome with
    | ok u => exact ⟨_, Run.bind_of_ok hattempt⟩
    | error f => exact ⟨_, Run.bind_of_ok hattempt⟩
  obtain ⟨wrapper, contents, transition, hbody⟩ := Engine.hasInterval_of_shows hinterval
  have hexecutes : Engine.ExecutesStop n (due e).1 (taken e) := ⟨neverStop, fun hsame => by
    have hsame : ran (stopping neverStop n) e = ran (perform Host.idle n) e := hsame
    exact hhalts (hsame ▸ hends)⟩
  obtain ⟨-, hothers, hcancels⟩ := (stop_cancels_ticking {} ()).2.2.1 e e' 100 n (due e).1 (due e).2
    ⟨0⟩ wrapper contents transition (.played hplayed) htake hbody hrun
  have hnever := hcancels hexecutes
  rw [hid] at hnever hothers
  obtain ⟨second, hsecond, hsecondId⟩ := List.any_eq_true.mp hother
  have hne : second.id ≠ 1 := by
    rw [beq_iff_eq.mp hsecondId]
    decide
  exact ⟨e, e', (due e).1, (due e).2, n, hplayed, htake, hid, hrun,
    List.any_eq_true.mpr ⟨second, hothers.kept second hsecond hne, hsecondId⟩, hnever⟩

end StoryEngine
