import StoryEngine.Proofs.Play.Advances
import StoryEngine.Proofs.Play.NextClause
import StoryEngine.Proofs.Play.Tracked
/-!
# StoryEngine.Proofs.Play.Onward

How an engine goes on from any point of what it does, with the firings of the timers of one chain of
clauses (`Onward`): in the middle of a render as well as between the calls of its host. It goes on by
steps of the work under way, by tasks that this asks for, by timers that fire, and by the clock moving
to a time by which nothing is due. Whatever work is under way is made up of these (`Steady.onward`),
and so is whatever the host asks for (`HostCall.onward`), in particular every way of letting time pass.

As long as the player does not move on, a chain that waits keeps to its schedule (`Onward.onSchedule`).
-/

namespace StoryEngine

variable {σ α : Type}

/-! ### Going on -/

/-- A timer of a chain of clauses fires. -/
structure Firing (σ : Type) where
  id : TimerId
  /-- The engine that the timer has been taken from, of which the clock shows the time. -/
  taken : Engine Empty σ
  /-- What the engine becomes. -/
  after : Engine Empty σ

/-- The firing of a timer, if it belongs to the chain. -/
def chainFiring (chain : Nat) (timer : Timer (TimerAction Empty)) (taken after : Engine Empty σ) :
    List (Firing σ) :=
  if timer.action.isStepOf chain then [⟨timer.id, taken, after⟩] else []

/-- What an engine can become, with the firings of the chain's timers meanwhile. -/
inductive Onward (chain : Nat) (e₀ : Engine Empty σ) : List (Firing σ) → Engine Empty σ → Prop
  | start : Onward chain e₀ [] e₀
  /-- A step of the work under way. -/
  | step {log : List (Firing σ)} {e e' : Engine Empty σ} (before : Onward chain e₀ log e)
      (h : TimerStep (.idle (fun _ => False) False) e e') : Onward chain e₀ log e'
  /-- A task that the host or the work under way asks for. -/
  | task {log : List (Firing σ)} {e e' : Engine Empty σ} (before : Onward chain e₀ log e) {t : Task}
      (ht : (Terms.idle (σ := σ) (fun _ => False) False).Asks t) {n : Nat} {r : Except Halt Unit}
      (h : perform Host.idle n t e = (r, e')) (hr : Returned r) : Onward chain e₀ log e'
  /-- The next timer that is due by a time fires. -/
  | fire {log : List (Firing σ)} {e e' : Engine Empty σ} (before : Onward chain e₀ log e)
      {limit n : Nat} {timer : Timer (TimerAction Empty)} {clock : Clock (TimerAction Empty)}
      (hdue : e.clock.takeDue limit = some (timer, clock))
      (hrun : Run.reporting (runTimer Host.idle (perform Host.idle n) timer)
        { e with clock := clock } = (.ok (), e')) :
      Onward chain e₀ (log ++ chainFiring chain timer { e with clock := clock } e') e'
  /-- The clock moves on to a time by which nothing is due. -/
  | arrive {log : List (Firing σ)} {e : Engine Empty σ} (before : Onward chain e₀ log e)
      {limit : Nat} (hdue : e.clock.takeDue limit = none) (hlast : limit ≤ lastTime) :
      Onward chain e₀ log (e.arrive limit)

variable {chain : Nat} {e₀ e e' : Engine Empty σ} {log : List (Firing σ)}

theorem Onward.steps (before : Onward chain e₀ log e)
    (h : TimerSteps (.idle (fun _ => False) False) e e') : Onward chain e₀ log e' := by
  induction h with
  | refl => exact before
  | tail _ hstep ih => exact ih.step hstep

/-- The work under way goes on, in whatever way it is made up. -/
theorem Steady.onward {X : Perform Empty σ → Run Empty σ α}
    (hX : Steady (.idle (fun _ => False) False) X) {n : Nat} {r : Except Halt α}
    (before : Onward chain e₀ log e) (h : X (perform Host.idle n) e = (r, e')) (hr : Returned r) :
    Onward chain e₀ log e' := by
  induction hX generalizing e e' with
  | own hx =>
      have hsteps := hx e
      dsimp only at h
      rw [h] at hsteps
      exact before.steps hsteps
  | bind _ _ ihX ihF =>
      rcases Run.bind_returned h hr with ⟨a, e₁, h₁, h₂⟩ | ⟨failure, h₁, -⟩
      · exact ihF a (ihX before h₁ (returned_ok a)) h₂ hr
      · exact ihX before h₁ (returned_failure failure)
  | attempt _ ihX =>
      obtain ⟨r₁, h₁, hr₁⟩ := Run.attempt_returned h hr
      exact ihX before h₁ hr₁
  | procedure procedure => exact procedure.elim
  | task ht => exact before.task ht h hr

/-- Timers fire one after another. -/
theorem Onward.fires {limit : Nat} {events : ClockLog} (before : Onward chain e₀ log e)
    (h : Fires Host.idle limit e events e') : ∃ more, Onward chain e₀ (log ++ more) e' := by
  induction h generalizing log with
  | done hdue => exact ⟨[], (List.append_nil log).symm ▸ before⟩
  | fire hdue hrun hcalls rest ih =>
      obtain ⟨more, hmore⟩ := ih (before.fire hdue hrun)
      exact ⟨_, (List.append_assoc ..) ▸ hmore⟩

/-- Time passes: timers fire one after another, and the clock moves on. -/
theorem Onward.advance (before : Onward chain e₀ log e) {ms n : Nat} {r : Except Halt Unit}
    (h : perform Host.idle n (.advance ms) e = (r, e')) (hr : Returned r) :
    ∃ more, Onward chain e₀ (log ++ more) e' := by
  obtain rfl := perform_advance_eq_ok h hr
  obtain ⟨events, e₁, hfires, rfl⟩ := (passes_iff Host.isTimeless_idle).mp ⟨n, h⟩
  obtain ⟨more, hmore⟩ := before.fires hfires
  exact ⟨more, hmore.arrive hfires.takeDue_eq_none (Clock.later_le_lastTime _ _)⟩

/-- Whatever the host asks for and returns goes on, and so does all that happens while time passes. -/
theorem HostCall.onward (before : Onward chain e₀ log e) {call : HostCall} {n : Nat}
    {r : Except Halt Unit} (h : call.run (perform Host.idle n) e = (r, e')) (hr : Returned r) :
    ∃ more, Onward chain e₀ (log ++ more) e' := by
  have hquiet {e' : Engine Empty σ} (h : Onward chain e₀ log e') :
      ∃ more, Onward chain e₀ (log ++ more) e' := ⟨[], (List.append_nil log).symm ▸ h⟩
  have hwork {X : Perform Empty σ → Run Empty σ Unit}
      (hX : Steady (.idle (fun _ => False) False) X) (h : X (perform Host.idle n) e = (r, e')) :
      ∃ more, Onward chain e₀ (log ++ more) e' := hquiet (hX.onward before h hr)
  have htask {t : Task} (ht : (Terms.idle (σ := σ) (fun _ => False) False).Asks t)
      (h : perform Host.idle n t e = (r, e')) : ∃ more, Onward chain e₀ (log ++ more) e' :=
    hquiet (before.task ht h hr)
  cases call with
  | addPassage title source => exact hwork (.still fun _ => rfl) h
  | render out source => exact htask (t := .render out source) trivial h
  | navigate title => exact htask (t := .navigate title) trivial h
  | click element => exact hwork (.bind (steady_click element) fun _ => .pure ()) h
  | pressKey key => exact htask (t := .trigger .keydown key) trivial h
  | set name value => exact hwork (.changingState fun _ _ => State.reassigned_of_set) h
  | newOutput => exact hwork (.next (fun _ => rfl) fun _ => .pure ()) h
  | takeErrors => exact hwork (.still fun _ => rfl) h
  | advance ms => exact before.advance h hr

/-- When time has passed, nothing is due. -/
theorem takeDue_of_advance (hnow : e.clock.now ≤ lastTime) {ms n : Nat} {r : Except Halt Unit}
    (h : perform Host.idle n (.advance ms) e = (r, e')) (hr : Returned r) :
    e'.clock.takeDue e'.clock.now = none := by
  obtain rfl := perform_advance_eq_ok h hr
  obtain ⟨events, e₁, hfires, rfl⟩ := (passes_iff Host.isTimeless_idle).mp ⟨n, h⟩
  have hlater : e.clock.now ≤ Clock.later e.clock.now ms :=
    Nat.le_min.mpr ⟨Nat.le_add_right _ _, hnow⟩
  have harrived : (e₁.arrive (Clock.later e.clock.now ms)).clock.now = Clock.later e.clock.now ms :=
    Nat.max_eq_right (Nat.le_trans hfires.now_le.2 (Nat.max_le.mpr ⟨hlater, Nat.le_refl _⟩))
  have hdue := hfires.takeDue_eq_none
  rw [harrived]
  exact (Clock.takeDue_setNow hdue _).trans hdue

/-! ### What is pending -/

theorem Engine.Regular.arrive (he : e.Regular) {limit : Nat} (hdue : e.clock.takeDue limit = none)
    (hlast : limit ≤ lastTime) : (e.arrive limit).Regular := by
  have hsound : (e.clock.setNow limit).Sound := by
    rcases Nat.le_total e.clock.now limit with hle | hle
    · exact he.clock.arrive hle hlast hdue
    · -- the clock does not go back
      have hsame : e.clock.setNow limit = e.clock := by
        rw [Clock.setNow, Nat.max_eq_left hle]
      exact hsame.symm ▸ he.clock
  exact ⟨hsound, he.chains, he.listeners, he.ticking⟩

/-- What is pending is in order, and the timers have been set. -/
def Engine.RegularWith (clears : TimerId → Prop) (e : Engine Empty σ) : Prop :=
  e.Regular ∧ ∀ id, clears id → id < e.clock.nextId

theorem TimerStep.regularWith {clears : TimerId → Prop} {ends : Prop}
    (h : TimerStep (.idle clears ends) e e') (he : e.RegularWith clears) : e'.RegularWith clears :=
  ⟨h.regular he.2 he.1, fun id hid => Nat.lt_of_lt_of_le (he.2 id hid) h.nextId_le⟩

/-- Tasks leave what is pending in order. -/
theorem perform_regularWith {clears : TimerId → Prop} (n : Nat) {t : Task}
    (ht : ∀ ms, t ≠ .advance ms) :
    (perform (Host.idle : Host Empty σ) n t).Preserves (Engine.RegularWith clears) := by
  refine perform_preserves (fun _ _ hstep => hstep.regularWith) (fun event e he => ⟨?_, he.2⟩) n ht
  exact he.1.withListeners fun l hl => .inl (List.mem_filter.mp hl).1

/-- So does all work, and hence every part of it: macros are called in engines in which what is pending
is in order. -/
theorem Steady.regularWith {clears : TimerId → Prop} {X : Perform Empty σ → Run Empty σ α}
    (hX : Steady (.idle clears True) X) (n : Nat) :
    (X (perform Host.idle n)).Preserves (Engine.RegularWith clears) :=
  hX.keeps (fun _ _ hstep => hstep.regularWith) fun _ ht => perform_regularWith n ht.ne_advance

/-- Timers that fire leave what is pending in order. -/
theorem Engine.Regular.fire (he : e.Regular) {limit n : Nat} {timer : Timer (TimerAction Empty)}
    {clock : Clock (TimerAction Empty)} (hdue : e.clock.takeDue limit = some (timer, clock))
    (hrun : Run.reporting (runTimer Host.idle (perform Host.idle n) timer)
      { e with clock := clock } = (.ok (), e')) : e'.Regular := by
  have htaken : RegularWith (e.MayCancel timer) { e with clock := clock } := he.take hdue
  have hclause (chain : Nat) : (Builtin.takeItem chain timer.id { e with clock := clock }).2.RegularWith
      (e.MayCancel timer) := by
    obtain ⟨hregular, hle⟩ := htaken.1.takeItem chain timer.id
    exact ⟨hregular, fun id hid => Nat.lt_of_lt_of_le (htaken.2 id hid) hle⟩
  have hsteps (e₁ e₂ : Engine Empty σ) (h : TimerStep (.idle (e.MayCancel timer) True) e₁ e₂)
      (he : e₁.RegularWith (e.MayCancel timer)) : e₂.RegularWith (e.MayCancel timer) :=
    h.regularWith he
  have hticking (id : TimerId) (h : Engine.repeatTimer { e with clock := clock } = some id) :
      e.MayCancel timer id := .inr h
  have hran := runTimer_preserves hsteps (fun t ht => perform_regularWith n ht.ne_advance)
    (fun handler item => perform_regularWith n nofun) (.inl rfl) hticking
    (fun chain _ => hclause chain) htaken
  have hreport (f : Failure) (e₁ : Engine Empty σ) (he : e₁.RegularWith (e.MayCancel timer)) :
      (Run.report f e₁).2.RegularWith (e.MayCancel timer) := ⟨{ he.1 with }, he.2⟩
  have hkept := hran.reporting hreport
  rw [Run.AlikeAt, hrun] at hkept
  exact (hkept.2 (returned_ok ())).1

/-- What is pending stays in order. -/
theorem Onward.regular (he₀ : e₀.Regular) (h : Onward chain e₀ log e) : e.Regular := by
  induction h with
  | start => exact he₀
  | step before h ih => exact h.regular nofun ih
  | @task log e e' before t ht n r h hr ih =>
      have hkept := perform_regularWith n ht.ne_advance e
        (⟨ih, nofun⟩ : e.RegularWith fun _ => False)
      rw [Run.AlikeAt, h] at hkept
      exact (hkept.2 hr).1
  | fire before hdue hrun ih => exact ih.fire hdue hrun
  | arrive before hdue hlast ih => exact ih.arrive hdue hlast

/-- In an engine that the story is played with, what is pending is in order. -/
theorem Played.regular {config : Config} {host : σ} (h : Played config host e) : e.Regular := by
  induction h with
  | start => exact .start config _ host
  | call before call hrun hr ih =>
      obtain ⟨more, hmore⟩ := HostCall.onward (.start : Onward 0 _ [] _) hrun hr
      exact hmore.regular ih

/-! ### The schedule of a chain -/

/-- How long some clauses take, one after another. -/
def timeTaken (items : List TimedItem) : Nat :=
  (items.map TimedItem.delay).sum

theorem timeTaken_append (items items' : List TimedItem) :
    timeTaken (items ++ items') = timeTaken items + timeTaken items' := by
  rw [timeTaken, List.map_append, List.sum_append_nat, timeTaken, timeTaken]

theorem timeTaken_cons (item : TimedItem) (rest : List TimedItem) :
    timeTaken (item :: rest) = item.delay + timeTaken rest := by
  rw [timeTaken, List.map_cons, List.sum_cons, timeTaken]

/-- When each of some clauses is due, if a chain begins to wait for the first at a time. -/
def dueTimes (start : Nat) : List TimedItem → List (Nat × TimedItem)
  | [] => []
  | item :: rest => (start + item.delay, item) :: dueTimes (start + item.delay) rest

theorem dueTimes_append (start : Nat) (items items' : List TimedItem) :
    dueTimes start (items ++ items') =
      dueTimes start items ++ dueTimes (start + timeTaken items) items' := by
  induction items generalizing start with
  | nil => rfl
  | cons item rest ih =>
      rw [List.cons_append, dueTimes, ih, timeTaken_cons, ← Nat.add_assoc, dueTimes, List.cons_append]

/-- The clause is rendered in the firing, at the time. -/
def Firing.Shows (chain : Nat) (wrapper : ElementId) (transition : Bool) (f : Firing σ)
    (entry : Nat × TimedItem) : Prop :=
  f.taken.clock.now = entry.1 ∧
    Engine.ShowsClause chain f.id wrapper transition entry.2 f.taken f.after

/-- The chain, which began to wait at the start, has kept to its schedule: the clauses that are done
have been rendered in its firings, each at its time, and the chain waits for the others. -/
structure Engine.OnSchedule (chain : Nat) (k : TimedChain) (wrapper : ElementId) (transition : Bool)
    (start : Nat) (log : List (Firing σ)) (done left : List TimedItem) (e : Engine Empty σ) :
    Prop where
  items : done ++ left = k.items
  fired : log.Forall₂ (Firing.Shows chain wrapper transition) (dueTimes start done)
  reached : start + timeTaken done ≤ e.clock.now
  waits : e.Waits (fun _ => False) chain { k with items := left } (.timedBody wrapper transition)
    (dueAfter (start + timeTaken done) left)

namespace Engine.OnSchedule

variable {k : TimedChain} {wrapper : ElementId} {transition : Bool} {start : Nat}
variable {done left : List TimedItem}

/-- Something else happens. -/
theorem keep (h : e.OnSchedule chain k wrapper transition start log done left)
    (hnow : e.clock.now ≤ e'.clock.now)
    (hwaits : e'.WaitsOrPast (fun _ => False) chain { k with items := left }
      (.timedBody wrapper transition) (dueAfter (start + timeTaken done) left)) :
    e'.Past k.moment.turn ∨ e'.OnSchedule chain k wrapper transition start log done left :=
  hwaits.imp id fun hwaits => ⟨h.items, h.fired, Nat.le_trans h.reached hnow, hwaits⟩

/-- The next clause is due its delay after those that are done. -/
theorem dueAfter_eq {next : TimedItem} {rest : List TimedItem}
    (h : e.OnSchedule chain k wrapper transition start log done (next :: rest))
    (hlast : start + timeTaken k.items ≤ lastTime) :
    dueAfter (start + timeTaken done) (next :: rest) = start + timeTaken done + next.delay := by
  rw [← h.items, timeTaken_append, timeTaken_cons] at hlast
  exact Nat.min_eq_left (by omega)

theorem step (h : e.OnSchedule chain k wrapper transition start log done left)
    (hstep : TimerStep (.idle (fun _ => False) False) e e') :
    e'.Past k.moment.turn ∨ e'.OnSchedule chain k wrapper transition start log done left :=
  h.keep (Nat.le_of_eq hstep.tends.now_eq.symm) (hstep.waits id h.waits)

theorem task (h : e.OnSchedule chain k wrapper transition start log done left) {t : Task}
    (ht : (Terms.idle (σ := σ) (fun _ => False) False).Asks t) {n : Nat} {r : Except Halt Unit}
    (hrun : perform Host.idle n t e = (r, e')) (hr : Returned r) :
    e'.Past k.moment.turn ∨ e'.OnSchedule chain k wrapper transition start log done left := by
  have htends := perform_tends Host.isTimeless_idle n ht.ne_advance e
  have hkept := perform_waits n ht.ne_advance (fun title heq => by subst heq; exact ht) e
    (.inr h.waits)
  rw [hrun] at htends
  rw [Run.AlikeAt, hrun] at hkept
  exact h.keep (Nat.le_of_eq htends.now_eq.symm) (hkept.2 hr)

theorem arrive (h : e.OnSchedule chain k wrapper transition start log done left) {limit : Nat}
    (hdue : e.clock.takeDue limit = none) (hlast : limit ≤ lastTime) :
    (e.arrive limit).OnSchedule chain k wrapper transition start log done left where
  items := h.items
  fired := h.fired
  reached := Nat.le_trans h.reached (Nat.le_max_left _ _)
  waits := h.waits.keep (h.waits.regular.arrive hdue hlast) rfl rfl (fun _ _ h => h) rfl (Nat.le_refl _)
    fun _ => .inl

/-- A timer fires. If it is the chain's, the next clause is rendered, at its time. -/
theorem fire (h : e.OnSchedule chain k wrapper transition start log done left)
    (hlast : start + timeTaken k.items ≤ lastTime) {limit n : Nat} {timer : Timer (TimerAction Empty)}
    {clock : Clock (TimerAction Empty)} (hdue : e.clock.takeDue limit = some (timer, clock))
    (hrun : Run.reporting (runTimer Host.idle (perform Host.idle n) timer)
      { e with clock := clock } = (.ok (), e')) :
    e'.Past k.moment.turn ∨ ∃ done left, e'.OnSchedule chain k wrapper transition start
      (log ++ chainFiring chain timer { e with clock := clock } e') done left := by
  -- the time is that of the firing throughout
  have hnow : e'.clock.now = clock.now := by
    have htends := (timeless_runTimer Host.isTimeless_idle timer).reporting.tends
      (fun t ht => perform_tends Host.isTimeless_idle n ht) { e with clock := clock }
    rw [hrun] at htends
    exact htends.now_eq
  cases hown : timer.action.isStepOf chain with
  | false =>
      have hquiet : chainFiring chain timer { e with clock := clock } e' = [] :=
        if_neg (Bool.not_eq_true _ ▸ hown)
      have hle : e.clock.now ≤ e'.clock.now := hnow ▸ Clock.now_le_of_takeDue hdue
      rw [hquiet, List.append_nil]
      exact (h.keep hle (h.waits.fireOther hdue hown hrun)).imp id fun hsame => ⟨done, left, hsame⟩
  | true =>
      obtain ⟨item, rest, hleft, hat, hshows, hwaits⟩ := h.waits.fireOwn hdue hown hrun
      dsimp only at hleft
      subst hleft
      have hitems : (done ++ [item]) ++ rest = k.items := by
        rw [List.append_assoc, List.singleton_append, h.items]
      have htaken : start + timeTaken (done ++ [item]) = start + timeTaken done + item.delay := by
        rw [timeTaken_append, timeTaken_cons, Nat.add_assoc]
        rfl
      rw [h.dueAfter_eq hlast] at hat hwaits
      have hlog : chainFiring chain timer { e with clock := clock } e' =
          [⟨timer.id, { e with clock := clock }, e'⟩] := if_pos hown
      refine hwaits.imp id fun hwaits => ⟨done ++ [item], rest, hitems, ?_, ?_, htaken.symm ▸ hwaits⟩
      · rw [hlog, dueTimes_append]
        have hfires : Firing.Shows chain wrapper transition ⟨timer.id, { e with clock := clock }, e'⟩
            (start + timeTaken done + item.delay, item) :=
          ⟨hat, hshows⟩
        exact List.rel_append h.fired (.cons hfires .nil)
      · rw [hnow, hat, htaken]

end Engine.OnSchedule

/-- However an engine goes on, as long as the player does not move on, a chain keeps to its
schedule. -/
theorem Onward.onSchedule {k : TimedChain} {wrapper : ElementId} {transition : Bool} {start : Nat}
    (h₀ : e₀.OnSchedule chain k wrapper transition start [] [] k.items)
    (hlast : start + timeTaken k.items ≤ lastTime) (h : Onward chain e₀ log e) :
    e.Past k.moment.turn ∨
      ∃ done left, e.OnSchedule chain k wrapper transition start log done left := by
  induction h with
  | start => exact .inr ⟨[], k.items, h₀⟩
  | step before hstep ih =>
      obtain hpast | ⟨done, left, hbefore⟩ := ih
      · exact .inl (hstep.past hpast)
      · exact (hbefore.step hstep).imp id fun hafter => ⟨done, left, hafter⟩
  | @task log e e' before t ht n r hrun hr ih =>
      obtain hpast | ⟨done, left, hbefore⟩ := ih
      · exact .inl ((Engine.Past.stays k.moment.turn).task ht.ne_advance hrun hr hpast)
      · exact (hbefore.task ht hrun hr).imp id fun hafter => ⟨done, left, hafter⟩
  | @fire log e e' before limit n timer clock hdue hrun ih =>
      obtain hpast | ⟨done, left, hbefore⟩ := ih
      · exact .inl ((Engine.Past.stays k.moment.turn).fire hdue hrun hpast)
      · exact hbefore.fire hlast hdue hrun
  | arrive before hdue hlast ih =>
      obtain hpast | ⟨done, left, hbefore⟩ := ih
      · exact .inl hpast
      · exact .inr ⟨done, left, hbefore.arrive hdue hlast⟩

end StoryEngine
