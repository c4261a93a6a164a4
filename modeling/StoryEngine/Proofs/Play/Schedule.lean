import StoryEngine.Proofs.Builtin.Clauses
import StoryEngine.Proofs.Play.Onward
/-!
# StoryEngine.Proofs.Play.Schedule

Clauses that are rendered one after another keep to their schedule (`timed_on_schedule`). The first is
rendered its delay after the call, and every other one its delay after the one in front of it, no matter
how the host slices time, what else happens, and what goes wrong in a clause: when a clause is due the
timer of the next one is set before it is rendered. Only when the player moves on the chain ends early.

What is pending has to be in order when the call is made (`Engine.Regular`). It always is when a story is
played, between the calls of the host (`Played.regular`) and in the middle of them
(`Steady.regularWith`).
-/

namespace StoryEngine

variable {σ : Type} {chain : Nat}

/-! ### Which clauses are due -/

/-- The clauses are due between the start and the end. -/
theorem mem_dueTimes {start : Nat} {items : List TimedItem} {entry : Nat × TimedItem}
    (h : entry ∈ dueTimes start items) :
    start ≤ entry.1 ∧ entry.1 ≤ start + timeTaken items := by
  induction items generalizing start with
  | nil => cases h
  | cons item rest ih =>
      rw [timeTaken_cons]
      rcases List.mem_cons.mp h with rfl | hrest
      · dsimp only
        omega
      · have := ih hrest
        omega

/-- If nothing is due, then the clauses that are done are those that have been due. -/
theorem Engine.OnSchedule.fired_all {k : TimedChain} {wrapper : ElementId} {transition : Bool}
    {start : Nat} {log : List (Firing σ)} {done left : List TimedItem} {e : Engine Empty σ}
    (h : e.OnSchedule chain k wrapper transition start log done left)
    (hlast : start + timeTaken k.items ≤ lastTime) (hdue : e.clock.takeDue e.clock.now = none) :
    log.Forall₂ (Firing.Shows chain wrapper transition)
      ((dueTimes start k.items).filter fun entry => entry.1 ≤ e.clock.now) := by
  have hdone : (dueTimes start done).filter (fun entry => entry.1 ≤ e.clock.now) =
      dueTimes start done :=
    List.filter_eq_self.mpr fun entry hentry =>
      decide_eq_true (Nat.le_trans (mem_dueTimes hentry).2 h.reached)
  have hleft : (dueTimes (start + timeTaken done) left).filter (fun entry => entry.1 ≤ e.clock.now) =
      [] := by
    cases left with
    | nil => rfl
    | cons next rest =>
        -- the timer of the next clause is pending, so this is due later, and all others after it
        obtain ⟨id, htimers⟩ := h.waits.timers
        rw [awaited, h.dueAfter_eq hlast] at htimers
        have hmem : _ ∈ e.stepTimers chain := htimers ▸ List.mem_singleton_self _
        have hlater := Clock.takeDue_eq_none_iff.mp hdue _ (List.mem_filter.mp hmem).1
        refine List.filter_eq_nil_iff.mpr fun entry hentry => ?_
        have hafter : start + timeTaken done + next.delay ≤ entry.1 := by
          rcases List.mem_cons.mp hentry with rfl | hrest
          · exact Nat.le_refl _
          · exact (mem_dueTimes hrest).1
        simpa using Nat.lt_of_lt_of_le hlater hafter
  rw [← h.items, dueTimes_append, List.filter_append, hdone, hleft, List.append_nil]
  exact h.fired

/-! ### The beginning of a chain -/

/-- A chain that begins waits for its first clause. -/
theorem Engine.Regular.beginChain {e : Engine Empty σ} (he : e.Regular) {handler : HandlerId}
    {wrapper : ElementId} {transition : Bool}
    (hhandler : (e.handlers.map ShadowHandler.parts)[handler.index]? =
      some (none, some (.timedBody wrapper transition), none)) (first : TimedItem)
    (others : List TimedItem) :
    (Builtin.beginChain handler first others e).2.OnSchedule e.chains.size
      ⟨handler, first :: others, ⟨e.state.passage, e.state.turns⟩⟩ wrapper transition e.clock.now [] []
      (first :: others) := by
  let k : TimedChain := ⟨handler, first :: others, ⟨e.state.passage, e.state.turns⟩⟩
  let pushed : Engine Empty σ := { e with chains := e.chains.push k }
  have hstep : TimerStep (.idle (fun _ => False) False) e
      (Builtin.beginChain handler first others e).2 := by
    rw [Builtin.beginChain_apply]
    exact .chain k rfl rfl
  have hsize : e.chains.size ≤ (e.chains.push k).size := by
    rw [Array.size_push]
    exact Nat.le_succ _
  -- no timer is set for a chain that has not been made
  have hnone : pushed.stepTimers e.chains.size = [] :=
    List.filter_eq_nil_iff.mpr fun timer htimer hown =>
      Nat.lt_irrefl _ (he.chains timer htimer _ (TimerAction.isStepOf_iff.mp hown))
  have hwaits := Engine.Waits.arm (he.addChains hsize) Array.getElem?_push_size rfl hhandler hnone
    (fun _ => False.elim) rfl
  refine ⟨rfl, .nil, ?_, ?_⟩
  · rw [Builtin.beginChain_apply]
    exact Nat.le_refl _
  · have hregular := hstep.regular nofun he
    rw [Builtin.beginChain_apply] at hregular ⊢
    exact hwaits.keep hregular rfl rfl (fun _ _ h => h) rfl (Nat.le_refl _) fun _ => .inl

/-! ### Calls -/

/-- A call with valid time values begins a chain that waits for its first clause, with a handler that
renders into a new span. -/
theorem Builtin.runTimed_onSchedule {context : Context Empty} {e made : Engine Empty σ}
    (he : e.Regular) {first : TimedItem} {others : List TimedItem} {wrapper : ElementId}
    (hitems : timedItems context.call e.config.domDelayMs = .ok (first, others))
    (hspan : context.call.MakesSpan e wrapper made) (hmade : e.Redisplayed made) :
    ∃ k e₁, runTimed context e = (.ok (), e₁) ∧ e₁.tree = made.tree ∧
      k.items = first :: others ∧ k.moment.turn = e.state.turns ∧
      e₁.OnSchedule e.chains.size k wrapper (isTransition (context.call.args.text? 1)) e.clock.now
        [] [] (first :: others) := by
  obtain ⟨store, hrun⟩ := runTimed_of_items hitems hspan
  obtain ⟨calls, tree, rfl⟩ := hmade
  let handler : ShadowHandler Empty := ⟨context, store, none,
    some (.timedBody wrapper (isTransition (context.call.args.text? 1))), none⟩
  let ready : Engine Empty σ :=
    { e with calls := calls, tree := tree, handlers := e.handlers.push handler }
  have hhandler : (ready.handlers.map ShadowHandler.parts)[e.handlers.size]? =
      some (handler.start, handler.callback, handler.done) := by
    rw [Array.getElem?_map, Array.getElem?_push_size]
    rfl
  have hregular : ready.Regular := { he with }
  refine ⟨⟨⟨e.handlers.size⟩, first :: others, ⟨e.state.passage, e.state.turns⟩⟩, _,
    hrun.trans (beginChain_apply _ first others ready), rfl, rfl, rfl, ?_⟩
  have hbegun := hregular.beginChain hhandler first others
  rw [beginChain_apply] at hbegun
  exact hbegun

/-- So far a chain, which began to wait at the start, has kept to its schedule. -/
structure Engine.KeepsTo (chain : Nat) (wrapper : ElementId) (transition : Bool) (start : Nat)
    (items : List TimedItem) (log : List (Firing σ)) (e : Engine Empty σ) : Prop where
  /-- In the firings of the chain the first clauses have been rendered, in order, each once and at the
  time at which it is due. One timer is set for the next clause, none if there is no other. -/
  soFar : ∃ done left id, done ++ left = items ∧
    log.Forall₂ (Firing.Shows chain wrapper transition) (dueTimes start done) ∧
    e.stepTimers chain = awaited chain left id (dueAfter (start + timeTaken done) left)
  /-- If nothing is due, these clauses are all that have been due. -/
  all : e.clock.takeDue e.clock.now = none → log.Forall₂ (Firing.Shows chain wrapper transition)
    ((dueTimes start items).filter fun entry => entry.1 ≤ e.clock.now)

/-- If a time value of a call is not valid, the call shows an error and does nothing else. If they are
all valid, it makes a span and begins a chain of its clauses with their delays. The chain keeps to its
schedule however the engine then goes on, as long as the player does not move on and the clauses do not
take longer than time lasts. Whatever work is under way and whatever the host asks for are ways to go
on, and when the host has let time pass, nothing is due. -/
theorem timed_on_schedule {e : Engine Empty σ} (he : e.Regular) (context : Context Empty) :
    (¬ context.call.TimesValid e.config.domDelayMs →
      ∃ message, Builtin.runTimed context e = (.ok (), e.afterError context.call message)) ∧
    (context.call.TimesValid e.config.domDelayMs →
      ∃ first others wrapper made e₁,
        context.call.HasClauses e.config.domDelayMs first others ∧
        (∀ item ∈ first :: others, e.config.domDelayMs ≤ item.delay) ∧
        context.call.MakesSpan e wrapper made ∧ e₁.tree = made.tree ∧
        Builtin.runTimed context e = (.ok (), e₁) ∧
        ∀ log e', Onward e.chains.size e₁ log e' →
          (e'.state.turns = e.state.turns → e.clock.now + timeTaken (first :: others) ≤ lastTime →
            e'.KeepsTo e.chains.size wrapper (Builtin.isTransition (context.call.args.text? 1))
              e.clock.now (first :: others) log) ∧
          (∀ (X : Perform Empty σ → Run Empty σ Unit), Steady (.idle (fun _ => False) False) X →
            ∀ n r e'', X (perform Host.idle n) e' = (r, e'') → Returned r →
              Onward e.chains.size e₁ log e'') ∧
          (∀ (call : HostCall) n r e'', call.run (perform Host.idle n) e' = (r, e'') → Returned r →
            ∃ more, Onward e.chains.size e₁ (log ++ more) e'' ∧
              ((∃ ms, call = .advance ms) → e''.clock.takeDue e''.clock.now = none))) := by
  refine ⟨Builtin.runTimed_of_invalid, fun hvalid => ?_⟩
  obtain ⟨first, others, hitems, hclauses⟩ := Builtin.timedItems_of_valid hvalid
  obtain ⟨wrapper, made, hspan, hmade⟩ := context.call.exists_makesSpan e
  obtain ⟨k, e₁, hrun, htree, hk, hturn, h₁⟩ := Builtin.runTimed_onSchedule he hitems hspan hmade
  refine ⟨first, others, wrapper, made, e₁, hclauses, hclauses.floor_le, hspan, htree, hrun,
    fun log e' honward => ⟨fun hsame hlast => ?keeps, fun X hX n r e'' h hr => hX.onward honward h hr,
      fun call n r e'' h hr => ?calls⟩⟩
  case keeps =>
    rw [← hk] at h₁ hlast ⊢
    rcases honward.onSchedule h₁ hlast with hpast | ⟨done, left, hschedule⟩
    · -- the player has moved on
      rw [Engine.Past, hturn, hsame] at hpast
      exact absurd hpast (Nat.lt_irrefl _)
    · obtain ⟨id, htimers⟩ := hschedule.waits.timers
      exact ⟨⟨done, left, id, hschedule.items, hschedule.fired, htimers⟩, hschedule.fired_all hlast⟩
  case calls =>
    obtain ⟨more, hmore⟩ := HostCall.onward honward h hr
    refine ⟨more, hmore, ?_⟩
    rintro ⟨ms, rfl⟩
    exact takeDue_of_advance (honward.regular h₁.waits.regular).clock.now_le h hr

/-! ### Three clauses -/

/-- A call with three clauses, of which the second has the delay of the first. -/
def threeClauses : MacroCall Empty where
  id := 0
  definition := Builtin.timed.definition (.builtin .timed)
  name := "timed"
  displayName := "timed"
  args := ⟨[.string "100ms"], "100ms"⟩
  payload := [
    ⟨"timed", ⟨[.string "100ms"], "100ms"⟩, "a", "<<timed 100ms>>"⟩,
    ⟨"next", {}, "b", "<<next>>"⟩,
    ⟨"next", ⟨[.string "1s"], "1s"⟩, "c", "<<next 1s>>"⟩]
  source := "<<timed 100ms>>a<<next>>b<<next 1s>>c<</timed>>"
  output := ⟨0⟩

/-- Its clauses with their delays. -/
def threeItems : List TimedItem :=
  [⟨"timed", "<<timed 100ms>>a<<next>>b<<next 1s>>c<</timed>>", 100, "a"⟩,
    ⟨"next", "<<next>>", 100, "b"⟩, ⟨"next", "<<next 1s>>", 1000, "c"⟩]

theorem delayOf_threeClauses :
    delayOf "100ms" 40 = .ok 100 ∧ delayOf "1s" 40 = .ok 1000 := by
  decide +kernel

theorem threeClauses_timesValid : threeClauses.TimesValid 40 := by
  obtain ⟨hfirst, hthird⟩ := delayOf_threeClauses
  refine ⟨⟨"100ms", 100, rfl, hfirst⟩, ?_⟩
  refine List.forall_mem_cons.mpr ⟨?_, List.forall_mem_singleton.mpr ?_⟩
  · intro time (htime : none = some time)
    cases htime
  · intro time (htime : some "1s" = some time)
    cases htime
    exact ⟨1000, hthird⟩

theorem threeClauses_hasClauses {first : TimedItem} {others : List TimedItem}
    (h : threeClauses.HasClauses 40 first others) : first :: others = threeItems := by
  obtain ⟨hfirst, hthird⟩ := delayOf_threeClauses
  obtain @⟨time, delay, others, htime, hdelay, hothers⟩ := h
  change some "100ms" = some time at htime
  cases htime
  cases hfirst.symm.trans hdelay
  change Delayed 40 100 [⟨"next", {}, "b", "<<next>>"⟩,
    ⟨"next", ⟨[.string "1s"], "1s"⟩, "c", "<<next 1s>>"⟩] others at hothers
  obtain - | ⟨htime, -, -⟩ | ⟨-, hlast⟩ := hothers
  · change none = some _ at htime
    cases htime
  · obtain - | ⟨htime, hdelay, hrest⟩ | ⟨htime, -⟩ := hlast
    · change some "1s" = some _ at htime
      cases htime
      cases hthird.symm.trans hdelay
      cases hrest
      rfl
    · change some "1s" = none at htime
      cases htime

/-- When 250 milliseconds have passed since the call, the first two clauses have been rendered. -/
theorem threeClauses_on_schedule :
    (Engine.ofConfig {} () : Engine Empty Unit).Regular ∧ threeClauses.TimesValid 40 ∧
    ∃ wrapper e₁, Builtin.runTimed ⟨threeClauses, []⟩ (Engine.ofConfig {} ()) = (.ok (), e₁) ∧
      ∀ log e', Onward 0 e₁ log e' → e'.state.turns = 0 → e'.clock.now = 250 →
        e'.clock.takeDue e'.clock.now = none →
        log.Forall₂ (Firing.Shows 0 wrapper false) ((dueTimes 0 threeItems).take 2) := by
  have hregular : (Engine.ofConfig {} () : Engine Empty Unit).Regular := .start {} _ ()
  obtain ⟨first, others, wrapper, made, e₁, hclauses, -, -, -, hrun, honward⟩ :=
    (timed_on_schedule hregular ⟨threeClauses, []⟩).2 threeClauses_timesValid
  have hitems := threeClauses_hasClauses hclauses
  refine ⟨hregular, threeClauses_timesValid, wrapper, e₁, hrun, fun log e' h hturns hnow hdue => ?_⟩
  rw [hitems] at honward
  have hkeeps := (honward log e' h).1 hturns (by decide +kernel)
  have hall := hkeeps.all hdue
  have hdone : (dueTimes 0 threeItems).filter (fun entry => entry.1 ≤ 250) =
      (dueTimes 0 threeItems).take 2 := by
    decide +kernel
  rw [hnow] at hall
  rw [← hdone]
  exact hall

end StoryEngine
