import Mathlib
import StoryEngine.Proofs.Engine.Carried
import StoryEngine.Proofs.Play.Advances
import StoryEngine.Proofs.Play.Onward
/-!
# StoryEngine.Proofs.Play.Ending

Time that passes comes to its end (`advance_ends`), however many timers each callback sets, if the
callbacks come to theirs and set no timer without a delay. A timer that fires is one less of those
that are due at its time, and its callback only adds to those that are due later (`Clock.dueAt_lt`); so
the timers that are due at one time are used up by finitely many firings, and there are only finitely
many times up to the one at which the clock is to arrive (`firesOut`).

What built-in macros put off is put off until later (`Engine.Postpones`), so that with them time
passes if only what the timers run comes to its end. Each timer that they set has a delay: intervals and the letters of texts because no period is zero, a text that starts later by
what its call says, transitions and clauses by the least delay of the settings, if that is not zero.
A chain only loses clauses, so all of them have a delay when their time comes (`Engine.Unhurried`).
-/

namespace StoryEngine

/-! ### What is put off -/

section Postponing

variable {σ : Type}

theorem Clock.later_mono {time time' : Nat} (h : time ≤ time') (ms : Nat) :
    Clock.later time ms ≤ Clock.later time' ms := by
  unfold Clock.later
  omega

/-- What has a delay is not due before what has the least. -/
theorem Clock.later_one_le {time delay : Nat} (h : 0 < delay) :
    Clock.later time 1 ≤ Clock.later time delay := by
  unfold Clock.later
  omega

/-- No timer that was pending before is due earlier, and all others are due later than the clock
showed, unless that was the last time. -/
structure Engine.Postpones (e e' : Engine Empty σ) : Prop where
  unhurried : e.Unhurried → e'.Unhurried
  now_le : e.clock.now ≤ e'.clock.now
  timers : e.Unhurried → ∀ timer' ∈ e'.clock.timers,
    (∃ timer ∈ e.clock.timers, timer'.id = timer.id ∧ timer.due ≤ timer'.due) ∨
      Clock.later e.clock.now 1 ≤ timer'.due

namespace Engine.Postpones

variable {e e₁ e' : Engine Empty σ} {place : Place}

/-- Only the chains and the clock matter. -/
theorem of_eq (hconfig : e'.config = e.config) (hchains : e'.chains = e.chains)
    (hclock : e'.clock = e.clock) : e.Postpones e' where
  unhurried h := by
    rw [Engine.Unhurried, hconfig, hchains]
    exact h
  now_le := Nat.le_of_eq (congrArg Clock.now hclock.symm)
  timers _ timer' htimer' := .inl ⟨timer', hclock ▸ htimer', rfl, Nat.le_refl _⟩

theorem refl (e : Engine Empty σ) : e.Postpones e :=
  of_eq rfl rfl rfl

theorem trans (h : e.Postpones e₁) (h₁ : e₁.Postpones e') : e.Postpones e' where
  unhurried hunhurried := h₁.unhurried (h.unhurried hunhurried)
  now_le := Nat.le_trans h.now_le h₁.now_le
  timers hunhurried timer' htimer' := by
    rcases h₁.timers (h.unhurried hunhurried) timer' htimer' with ⟨timer₁, htimer₁, hid₁, hdue₁⟩ | hlater
    · rcases h.timers hunhurried timer₁ htimer₁ with ⟨timer, htimer, hid, hdue⟩ | hlater
      · exact .inl ⟨timer, htimer, hid₁.trans hid, Nat.le_trans hdue hdue₁⟩
      · exact .inr (Nat.le_trans hlater hdue₁)
    · exact .inr (Nat.le_trans (Clock.later_mono h.now_le 1) hlater)

/-- The clock only loses timers. -/
theorem of_clock {clock : Clock (TimerAction Empty)} (h : e.clock.Lasts clock) :
    e.Postpones { e with clock := clock } :=
  { refl e with
    now_le := h.now_le
    timers := fun _ timer' htimer' => .inl (h.due_le timer' htimer') }

theorem ofChange (h : Change place e e') : e.Postpones e' := by
  cases h with
  | chain k h hhandler hnow hwait =>
      refine { refl e with unhurried := fun hunhurried => ⟨hunhurried.1, fun other hother => ?_⟩ }
      rcases Array.mem_push.mp hother with hold | rfl
      · exact hunhurried.2 other hold
      · exact hwait hunhurried.1
  | chainItems index items h =>
      refine { refl e with unhurried := fun hunhurried => ⟨hunhurried.1, fun other hother => ?_⟩ }
      change other ∈ e.chains.modify index fun k => { k with items := items } at hother
      rcases exists_of_mem_modify hother with ⟨k, hk, rfl | ⟨hindex, rfl⟩⟩
      · exact hunhurried.2 other hk
      · exact fun item hitem => hunhurried.2 k hk item (h k hindex hitem)
  | timer delay period action h hdelay =>
      refine { refl e with timers := fun hunhurried timer' htimer' => ?_ }
      rcases List.mem_append.mp htimer' with hold | hnew
      · exact .inl ⟨timer', hold, rfl, Nat.le_refl _⟩
      · rw [List.mem_singleton.mp hnew]
        exact .inr (Clock.later_one_le (hdelay hunhurried))
  | clock clock h => exact of_clock h
  | _ => exact of_eq rfl rfl rfl

theorem ofMove (h : Move e e') : e.Postpones e' := by
  cases h <;> exact of_eq rfl rfl rfl

theorem leaveShadow {h : ShadowHandler Empty} (hinner : (e.enterShadow h).Postpones e')
    (id : HandlerId) (depth : Nat) (previous : Option (Context Empty)) :
    e.Postpones (e'.leaveShadow id depth previous) := by
  obtain ⟨state, handlers, heq⟩ := e'.leaveShadow_eq_with id depth previous
  rw [heq]
  exact { hinner with }

/-- All work of the built-in macros postpones what it puts off. -/
theorem carried : @Carried σ (fun _ => Engine.Postpones) (fun _ _ => True) where
  refl _ := refl
  trans := trans
  change := ofChange
  move := ofMove
  forget := id
  call _ _ h := { h with }
  overlay _ h := { h with }
  deeper _ h := { h with }
  tick _ h := { h with }
  shown h := { h with }
  shadow _ _ hfirst _ h := hfirst.trans (leaveShadow h _ _ _)
  due _ := trivial
  ticking _ := trivial

end Engine.Postpones

end Postponing

/-! ### Timers that are set later -/

/-- No timeout is set without a delay. -/
def ClockLog.Delays (log : ClockLog) : Prop :=
  ∀ id now delay, .timeout id now delay ∈ log → 0 < delay

theorem ClockLog.Delays.left {log more : ClockLog} (h : (log ++ more).Delays) : log.Delays :=
  fun id now delay hmem => h id now delay (List.mem_append_left more hmem)

/-- Fewer members of a list satisfy a condition if one satisfies only the other. -/
theorem countP_lt_countP {α : Type} {p q : α → Bool} {xs : List α} {a : α}
    (h : ∀ b ∈ xs, p b = true → q b = true) (ha : a ∈ xs) (hp : p a = false) (hq : q a = true) :
    xs.countP p < xs.countP q := by
  obtain ⟨before, after, rfl⟩ := List.append_of_mem ha
  obtain ⟨hbefore, hafter⟩ := List.forall_mem_append.mp h
  have hleft := List.countP_mono_left hbefore
  have hright := List.countP_mono_left (List.forall_mem_cons.mp hafter).2
  rw [List.countP_append, List.countP_append, List.countP_cons, List.countP_cons, hp, hq]
  simp only [Bool.false_eq_true, if_false, if_true]
  omega

theorem Timer.lt_of_next? {κ : Type} {timer : Timer κ} {due : Nat} (hperiod : timer.period ≠ some 0)
    (h : timer.next? = some due) : timer.due < due := by
  unfold next? at h
  cases hp : timer.period with
  | none => rw [hp] at h; cases h
  | some period =>
      rw [hp] at h hperiod
      have hpos : period ≠ 0 := fun hzero => hperiod (congrArg some hzero)
      simp only [Option.ite_none_right_eq_some, Option.some.injEq] at h
      omega

namespace Clock

variable {κ : Type} {c c₁ d : Clock κ} {limit : Nat} {timer : Timer κ}

/-- The number of timers that are due at a time. -/
def dueAt (c : Clock κ) (time : Nat) : Nat :=
  c.timers.countP (·.due = time)

/-- Every timer that fires again is due later then. -/
def MovesOn (c : Clock κ) : Prop :=
  ∀ timer ∈ c.timers, timer.period ≠ some 0

/-- Some timers are cancelled, and those that are set have a delay, unless it is the last time. -/
def SetsLater (c d : Clock κ) : Prop :=
  ∃ kept added, d.timers = kept ++ added ∧ kept.Sublist c.timers ∧
    ∀ timer ∈ added, later c.now 1 ≤ timer.due ∧ timer.period ≠ some 0

/-- What the calls of a log leave of the timers that were pending, and what they add. -/
structure Called (c : Clock κ) (log : ClockLog) (d : Clock κ) : Prop where
  now : d.now = c.now
  nextId : c.nextId ≤ d.nextId
  timers : ∃ kept added, d.timers = kept ++ added ∧ kept.Sublist c.timers ∧ ∀ timer ∈ added,
    c.nextId ≤ timer.id ∧ timer.period ≠ some 0 ∧ (log.Delays → later c.now 1 ≤ timer.due)

theorem Called.addTimer {log : ClockLog} {event : ClockEvent} (h : Called c log c₁) {delay : Nat}
    {period : Option Nat} {action : κ} (hperiod : period ≠ some 0)
    (hdelay : (log ++ [event]).Delays → 0 < delay) :
    Called c (log ++ [event]) (c₁.addTimer delay period action).2 where
  now := h.now
  nextId := Nat.le_succ_of_le h.nextId
  timers := by
    obtain ⟨kept, added, htimers, hkept, hadded⟩ := h.timers
    refine ⟨kept, added ++ [⟨c₁.nextId, later c₁.now delay, period, action⟩], ?_, hkept,
      List.forall_mem_append.mpr ⟨fun timer htimer => ?_, List.forall_mem_singleton.mpr ?_⟩⟩
    · rw [← List.append_assoc, ← htimers]
      rfl
    · obtain ⟨hid, hnonzero, hlater⟩ := hadded timer htimer
      exact ⟨hid, hnonzero, fun hdelays => hlater hdelays.left⟩
    · refine ⟨h.nextId, hperiod, fun hdelays => ?_⟩
      rw [h.now]
      exact later_one_le (hdelay hdelays)

theorem Called.step {log : ClockLog} {event : ClockEvent} (h : Called c log c₁)
    (hstep : Step c₁ event d) (hcall : event.IsCall) : Called c (log ++ [event]) d := by
  cases hstep with
  | timeout delay action =>
      refine h.addTimer nofun fun hdelays => hdelays c₁.nextId c₁.now delay ?_
      exact List.mem_append_right _ List.mem_cons_self
  | interval period action =>
      refine h.addTimer ?_ fun _ => Nat.le_max_right period 1
      simp
  | clear id =>
      obtain ⟨kept, added, htimers, hkept, hadded⟩ := h.timers
      refine ⟨h.now, h.nextId, kept.filter (·.id != id), added.filter (·.id != id), ?_,
        List.filter_sublist.trans hkept, fun timer htimer => ?_⟩
      · rw [← List.filter_append, ← htimers]
        rfl
      · obtain ⟨hid, hperiod, hlater⟩ := hadded timer (List.mem_filter.mp htimer).1
        exact ⟨hid, hperiod, fun hdelays => hlater hdelays.left⟩
  | fire hdue => exact hcall.elim
  | arrive hnow hlast hdue => exact hcall.elim

theorem Calls.called {log : ClockLog} (h : c.Calls log d) : Called c log d := by
  obtain ⟨hsteps, hcalls⟩ := h
  refine hsteps.induct (motive := fun log d => (∀ event ∈ log, event.IsCall) → Called c log d)
    (fun _ => ?_) (fun log c₁ event c₂ _ ih hstep hcalls => ?_) hcalls
  · exact ⟨rfl, Nat.le_refl _, c.timers, [], (List.append_nil _).symm, List.Sublist.refl _, by simp⟩
  · obtain ⟨hlog, hevent⟩ := List.forall_mem_append.mp hcalls
    exact (ih hlog).step hstep (List.forall_mem_singleton.mp hevent)

theorem Calls.setsLater {log : ClockLog} (h : c.Calls log d) (hdelays : log.Delays) :
    c.SetsLater d := by
  obtain ⟨kept, added, htimers, hkept, hadded⟩ := h.called.timers
  refine ⟨kept, added, htimers, hkept, fun timer htimer => ?_⟩
  obtain ⟨-, hperiod, hlater⟩ := hadded timer htimer
  exact ⟨hlater hdelays, hperiod⟩

/-! ### One firing -/

/-- Every timer that is pending after a firing is due no earlier, and still moves on. -/
theorem pending_takeDue (hmoves : c.MovesOn) (h : c.takeDue limit = some (timer, d)) :
    (∀ other ∈ d.timers, timer.due ≤ other.due) ∧ d.MovesOn := by
  rw [takeDue_eq] at h
  obtain ⟨first, hfirst, heq⟩ := Option.map_eq_some_iff.mp h
  cases heq
  unfold MovesOn
  cases hnext : timer.next? with
  | none =>
      exact ⟨fun other hother => firstDue?_due_le hfirst (List.mem_filter.mp hother).1,
        fun other hother => hmoves other (List.mem_filter.mp hother).1⟩
  | some due =>
      refine ⟨List.forall_mem_map.mpr fun other hother => ?_,
        List.forall_mem_map.mpr fun other hother => ?_⟩
      · split
        · have hperiod := hmoves timer (mem_of_firstDue? hfirst)
          exact Nat.le_of_lt (Timer.lt_of_next? hperiod hnext)
        · exact firstDue?_due_le hfirst hother
      · split <;> exact hmoves other hother

/-- A timer that fires is not due at its time any more. -/
theorem dueAt_takeDue_lt (hmoves : c.MovesOn) (h : c.takeDue limit = some (timer, d)) :
    d.dueAt timer.due < c.dueAt timer.due := by
  rw [takeDue_eq] at h
  obtain ⟨first, hfirst, heq⟩ := Option.map_eq_some_iff.mp h
  cases heq
  have hmem := mem_of_firstDue? hfirst
  unfold dueAt
  cases hnext : timer.next? with
  | none =>
      dsimp only
      rw [List.countP_filter]
      refine countP_lt_countP (fun other _ hother => ?_) hmem (by simp) (by simp)
      exact (Bool.and_eq_true_iff.mp hother).1
  | some due =>
      have hlater := Timer.lt_of_next? (hmoves timer hmem) hnext
      dsimp only
      rw [List.countP_map]
      refine countP_lt_countP (fun other _ hother => ?_) hmem ?_ (by simp)
      · simp only [Function.comp_apply, decide_eq_true_eq] at hother ⊢
        split at hother
        · exact absurd hother (Nat.ne_of_gt hlater)
        · exact hother
      · simp only [Function.comp_apply, if_true, decide_eq_false_iff_not]
        exact Nat.ne_of_gt hlater

/-- When a timer has fired and its callback has set timers with a delay, fewer are due at its time
and none is due earlier. -/
theorem SetsLater.fire (hmoves : c.MovesOn) (h : c.takeDue limit = some (timer, c₁))
    (hlast : limit < lastTime) (hlater : c₁.SetsLater d) :
    d.dueAt timer.due < c.dueAt timer.due ∧ (∀ other ∈ d.timers, timer.due ≤ other.due) ∧
      d.MovesOn := by
  obtain ⟨hdue, hpending⟩ := pending_takeDue hmoves h
  obtain ⟨hnow, -, hlimit⟩ := now_of_takeDue h
  obtain ⟨kept, added, htimers, hkept, hadded⟩ := hlater
  have hbehind (other : Timer κ) (hother : other ∈ added) : timer.due < other.due := by
    have hsoon := (hadded other hother).1
    unfold later at hsoon
    omega
  refine ⟨?count, ?due, ?moves⟩
  case count =>
    have hnone : added.countP (·.due = timer.due) = 0 := by
      refine List.countP_eq_zero.mpr fun other hother => ?_
      simpa using Nat.ne_of_gt (hbehind other hother)
    have hless := dueAt_takeDue_lt hmoves h
    have hfewer : kept.countP (·.due = timer.due) ≤ c₁.dueAt timer.due := hkept.countP_le
    rw [dueAt, htimers, List.countP_append, hnone]
    omega
  case due =>
    rw [htimers]
    exact List.forall_mem_append.mpr ⟨fun other hother => hdue other (hkept.subset hother),
      fun other hother => Nat.le_of_lt (hbehind other hother)⟩
  case moves =>
    unfold MovesOn
    rw [htimers]
    exact List.forall_mem_append.mpr ⟨fun other hother => hpending other (hkept.subset hother),
      fun other hother => (hadded other hother).2⟩

end Clock

/-! ### All firings -/

variable {η σ : Type} {host : Host η σ} {limit : Nat} {timer : Timer (TimerAction η)}
  {e e₁ e₂ e' : Engine η σ}

/-- The callback of the timer comes to its end in the engine and leaves another, with however much
fuel if it is enough. -/
def CallbackEnds (host : Host η σ) (timer : Timer (TimerAction η)) (e e' : Engine η σ) : Prop :=
  ∃ N, ∀ n, N ≤ n → Run.reporting (runTimer host (perform host n) timer) e = (.ok (), e')

theorem CallbackEnds.unique (h : CallbackEnds host timer e e₁) (h₁ : CallbackEnds host timer e e₂) :
    e₁ = e₂ := by
  obtain ⟨N, hrun⟩ := h
  obtain ⟨N₁, hrun₁⟩ := h₁
  have hboth := (hrun (max N N₁) (Nat.le_max_left N N₁)).symm.trans
    (hrun₁ (max N N₁) (Nat.le_max_right N N₁))
  exact (Prod.mk.inj hboth).2

/-- What an engine becomes while the timers that are due by a time fire one after another. -/
inductive Underway (host : Host η σ) (limit : Nat) (e : Engine η σ) : Engine η σ → Prop
  | start : Underway host limit e e
  | fire {e₁ e₂ : Engine η σ} {timer : Timer (TimerAction η)} {clock : Clock (TimerAction η)}
      (before : Underway host limit e e₁) (hdue : e₁.clock.takeDue limit = some (timer, clock))
      (hends : CallbackEnds host timer { e₁ with clock := clock } e₂) : Underway host limit e e₂

/-- The timers that are due by the time fire one after another, until none is due any more. -/
def FiresOut (host : Host η σ) (limit : Nat) (e : Engine η σ) : Prop :=
  ∃ log e', Fires host limit e log e' ∧ ∃ N, ∀ n fuel, N ≤ n → N ≤ fuel →
    fireDue host (perform host n) limit fuel e = (.ok (), e')

theorem FiresOut.done (hdue : e.clock.takeDue limit = none) : FiresOut host limit e := by
  refine ⟨[], e, .done hdue, 1, fun n fuel _ hfuel => ?_⟩
  obtain ⟨fuel, rfl⟩ := Nat.exists_eq_add_of_le' hfuel
  rw [fireDue_succ, hdue]

theorem FiresOut.fire {clock : Clock (TimerAction η)}
    (hdue : e.clock.takeDue limit = some (timer, clock))
    (hends : CallbackEnds host timer { e with clock := clock } e₁)
    (hcalls : clock.Tends e₁.clock) (h : FiresOut host limit e₁) : FiresOut host limit e := by
  obtain ⟨calls, hcalls⟩ := hcalls
  obtain ⟨N, hrun⟩ := hends
  obtain ⟨log, e', hfires, N', hrest⟩ := h
  refine ⟨_, e', .fire hdue (hrun N (Nat.le_refl N)) hcalls hfires, max N (N' + 1), ?_⟩
  intro n fuel hn hfuel
  obtain ⟨fuel, rfl⟩ : ∃ k, fuel = k + 1 := Nat.exists_eq_add_of_le' (by omega)
  rw [fireDue_succ, hdue]
  dsimp only
  rw [Run.bind_of_ok (hrun n (by omega))]
  exact hrest n fuel (by omega) (by omega)

/-- Callbacks that come to their end, and only set timers that are due later, are called finitely many
times. -/
theorem firesOut (hlast : limit < lastTime) (hmoves : e.clock.MovesOn)
    (hcallbacks : ∀ e₁ timer clock, Underway host limit e e₁ →
      e₁.clock.takeDue limit = some (timer, clock) →
        ∃ e₂, CallbackEnds host timer { e₁ with clock := clock } e₂ ∧ clock.Tends e₂.clock ∧
          clock.SetsLater e₂.clock) :
    FiresOut host limit e := by
  -- the first induction is on the times that are left, the second on the timers due at the next one
  suffices hall : ∀ left time, time + left = limit + 1 → ∀ count e₁, Underway host limit e e₁ →
      e₁.clock.MovesOn → (∀ timer ∈ e₁.clock.timers, time ≤ timer.due) →
      e₁.clock.dueAt time ≤ count → FiresOut host limit e₁ from
    hall (limit + 1) 0 (Nat.zero_add _) _ e .start hmoves (fun _ _ => Nat.zero_le _) (Nat.le_refl _)
  intro left
  induction left with
  | zero =>
      intro time htime count e₁ _ _ hdue _
      refine .done (Clock.takeDue_eq_none_iff.mpr fun timer htimer => ?_)
      have := hdue timer htimer
      omega
  | succ left ih =>
      intro time htime count
      induction count with
      | zero =>
          intro e₁ hway hmoves hdue hcount
          refine ih (time + 1) (by omega) _ e₁ hway hmoves (fun timer htimer => ?_) (Nat.le_refl _)
          have hnot := List.countP_eq_zero.mp (Nat.le_zero.mp hcount) timer htimer
          rw [decide_eq_true_eq] at hnot
          have := hdue timer htimer
          omega
      | succ count ihcount =>
          intro e₁ hway hmoves hdue hcount
          cases htake : e₁.clock.takeDue limit with
          | none => exact .done htake
          | some taken =>
              obtain ⟨timer, clock⟩ := taken
              obtain ⟨-, hmem, -⟩ := Clock.now_of_takeDue htake
              obtain ⟨e₂, hends, htends, hlater⟩ := hcallbacks e₁ timer clock hway htake
              obtain ⟨hless, hdue₂, hmoves₂⟩ := Clock.SetsLater.fire hmoves htake hlast hlater
              refine .fire htake hends htends ?_
              have hway₂ := Underway.fire hway htake hends
              rcases Nat.eq_or_lt_of_le (hdue timer hmem) with rfl | hlt
              · exact ihcount e₂ hway₂ hmoves₂ hdue₂ (by omega)
              · refine ih (time + 1) (by omega) _ e₂ hway₂ hmoves₂ (fun other hother => ?_)
                  (Nat.le_refl _)
                exact Nat.le_trans hlt (hdue₂ other hother)

/-! ### Time that passes -/

/-- Some time passes: the timers that are due by then fire, finitely many times, and the clock arrives
with no timer due any more. -/
def AdvanceEnds (host : Host η σ) (ms : Nat) (e : Engine η σ) : Prop :=
  ∃ e', FiresUntil host (e.clock.now + ms) e e' ∧
    (∃ N, ∀ n, N ≤ n → perform host n (.advance ms) e = (.ok (), e')) ∧
    e'.clock.now = e.clock.now + ms ∧ ∀ timer ∈ e'.clock.timers, e.clock.now + ms < timer.due

theorem FiresOut.advanceEnds {ms : Nat} (hlast : e.clock.now + ms < lastTime)
    (h : FiresOut host (e.clock.now + ms) e) : AdvanceEnds host ms e := by
  obtain ⟨log, e₁, hfires, N, hrun⟩ := h
  have hlimit : Clock.later e.clock.now ms = e.clock.now + ms :=
    Nat.min_eq_left (Nat.le_of_lt hlast)
  refine ⟨e₁.arrive (e.clock.now + ms), ⟨log, e₁, hfires, rfl⟩, ⟨N + 1, fun n hn => ?_⟩, ?_, ?_⟩
  · obtain ⟨n, rfl⟩ : ∃ k, n = k + 1 := Nat.exists_eq_add_of_le' (by omega)
    show advance host (perform host n) n ms e = _
    rw [advance, Run.get_bind_apply, hlimit,
      Run.bind_of_ok (hrun n n (by omega) (by omega))]
    rfl
  · have hnow := hfires.now_le
    show max e₁.clock.now (e.clock.now + ms) = _
    omega
  · have hdue := Clock.takeDue_eq_none_iff.mp hfires.takeDue_eq_none
    exact fun timer htimer => hdue timer htimer

/-! ### The built-in macros -/

theorem Clock.Sound.steps {κ : Type} {c d : Clock κ} {log : ClockLog} (hc : c.Sound)
    (h : Steps c log d) : d.Sound := by
  induction h with
  | refl => exact hc
  | cons first rest ih => exact ih (hc.step first)

theorem Clock.Sound.movesOn {κ : Type} {c : Clock κ} (hc : c.Sound) : c.MovesOn :=
  fun timer htimer hzero => absurd (hc.period_pos timer htimer 0 hzero) (Nat.lt_irrefl 0)

/-- The engine has the built-in macros, its timers are in order, and its chains wait between their
clauses. -/
structure Engine.Orderly (e : Engine Empty σ) (place : Place) : Prop where
  standsIn : e.StandsIn place
  sound : e.clock.Sound
  unhurried : e.Unhurried

theorem Played.orderly {config : Config} {host : σ} {e : Engine Empty σ} (h : Played config host e)
    (hdelay : 1 ≤ config.domDelayMs) : e.Orderly { context := e.current } := by
  refine ⟨h.standsIn, h.regular.clock, ?_⟩
  induction h with
  | start => exact ⟨hdelay, by simp [Engine.ofConfig, Engine.ofRegistry]⟩
  | call before call hrun hr ih =>
      have hleads := Engine.Postpones.carried.hostCall before.standsIn (fun _ _ _ => trivial) hrun hr
      exact hleads.2.unhurried ih

section Builtin

variable {place : Place} {timer : Timer (TimerAction Empty)} {clock : Clock (TimerAction Empty)}
  {e e₁ e₂ : Engine Empty σ}

/-- What the callback of a timer does with the clock. -/
theorem Engine.Orderly.fire (he : e.Orderly place) (hdue : e.clock.takeDue limit = some (timer, clock))
    {n : Nat} (hrun : Run.reporting (runTimer Host.idle (perform Host.idle n) timer)
      { e with clock := clock } = (.ok (), e₁)) :
    e₁.Orderly place ∧ clock.Tends e₁.clock ∧ clock.SetsLater e₁.clock := by
  have hhost := Host.isTimeless_idle (σ := σ)
  have htends : clock.Tends e₁.clock := by
    have hwork := (timeless_runTimer hhost timer).reporting.tends
      (fun t ht => perform_tends hhost n ht) { e with clock := clock }
    rwa [hrun] at hwork
  obtain ⟨calls, hcalls⟩ := htends
  have hsound : clock.Sound := he.sound.takeDue hdue
  have hstands : Engine.StandsIn { e with clock := clock } place :=
    (Change.clock clock (.takeDue hdue)).standsIn he.standsIn
  have hobeys := he.standsIn.parted.timers timer (Clock.mem_of_takeDue hdue)
  have hpostpones := @Engine.Postpones.carried σ
  have hleads := hpostpones.made (hpostpones.performs n) (made_reporting (made_runTimer hobeys))
    hstands hrun (returned_ok ())
  refine ⟨⟨hleads.1, hsound.steps hcalls.1, hleads.2.unhurried he.unhurried⟩, ⟨calls, hcalls⟩, ?_⟩
  obtain ⟨kept, added, htimers, hkept, hadded⟩ := hcalls.called.timers
  refine ⟨kept, added, htimers, hkept, fun timer' htimer' => ?_⟩
  obtain ⟨hid, hperiod, -⟩ := hadded timer' htimer'
  have hpending : timer' ∈ e₁.clock.timers := htimers ▸ List.mem_append_right kept htimer'
  rcases hleads.2.timers he.unhurried timer' hpending with ⟨old, hold, hsame, -⟩ | hlater
  · -- identities of timers are not used twice
    have hknown : timer'.id < clock.nextId := hsame ▸ hsound.known old hold
    exact absurd hid (Nat.not_le.mpr hknown)
  · exact ⟨hlater, hperiod⟩

theorem Engine.Orderly.underway (he : e.Orderly place) (h : Underway Host.idle limit e e₁) :
    e₁.Orderly place := by
  induction h with
  | start => exact he
  | fire before hdue hends ih =>
      obtain ⟨N, hrun⟩ := hends
      exact (ih.fire hdue (hrun N (Nat.le_refl N))).1

/-- A callback that comes to its end does so with more fuel, too. -/
theorem callbackEnds_of_returned {n : Nat}
    (h : Returned (Run.reporting (runTimer Host.idle (perform Host.idle n) timer) e).1) :
    CallbackEnds Host.idle timer e
      (Run.reporting (runTimer Host.idle (perform Host.idle n) timer) e).2 := by
  have hhost := Host.isTimeless_idle (σ := σ)
  refine ⟨n, fun m hm => ?_⟩
  rw [(timeless_runTimer hhost timer).reporting.agrees (perform_agrees hhost hm) h]
  exact Prod.ext (Run.reporting_eq_ok (Prod.eta _).symm h) rfl

end Builtin

/-! ### Every advance -/

/-- To let time pass comes to its end after finitely many firings, with no timer due any more, in every
engine of every host, as long as the clock does not reach the last time: if all callbacks that are
called on the way come to their end, do no more to the clock than to cancel timers and to set some,
and set none without a delay. With the built-in macros it is enough that the callbacks come to their
end, if the least delay of the settings is not zero. -/
theorem advance_ends :
    (∀ {η σ : Type} (host : Host η σ) (e : Engine η σ) (ms : Nat),
      (∀ timer ∈ e.clock.timers, timer.period ≠ some 0) → e.clock.now + ms < lastTime →
      (∀ e₁ timer clock, Underway host (e.clock.now + ms) e e₁ →
        e₁.clock.takeDue (e.clock.now + ms) = some (timer, clock) →
        ∃ e₂ calls, CallbackEnds host timer { e₁ with clock := clock } e₂ ∧
          clock.Calls calls e₂.clock ∧ calls.Delays) →
      AdvanceEnds host ms e) ∧
    ∀ {σ : Type} (config : Config) (host : σ) (e : Engine Empty σ) (ms : Nat),
      Played config host e → 1 ≤ config.domDelayMs → e.clock.now + ms < lastTime →
      (∀ e₁ timer clock, Underway Host.idle (e.clock.now + ms) e e₁ →
        e₁.clock.takeDue (e.clock.now + ms) = some (timer, clock) →
        ∃ n, Returned (Run.reporting (runTimer Host.idle (perform Host.idle n) timer)
          { e₁ with clock := clock }).1) →
      AdvanceEnds Host.idle ms e := by
  refine ⟨fun host e ms hmoves hlast hcallbacks => ?host, fun config host e ms hplayed hdelay hlast
    hcallbacks => ?builtin⟩
  case host =>
    refine (firesOut hlast hmoves fun e₁ timer clock hway hdue => ?_).advanceEnds hlast
    obtain ⟨e₂, calls, hends, hcalls, hdelays⟩ := hcallbacks e₁ timer clock hway hdue
    exact ⟨e₂, hends, ⟨calls, hcalls⟩, hcalls.setsLater hdelays⟩
  case builtin =>
    have horderly := hplayed.orderly hdelay
    refine (firesOut hlast horderly.sound.movesOn fun e₁ timer clock hway hdue => ?_).advanceEnds hlast
    obtain ⟨n, hreturned⟩ := hcallbacks e₁ timer clock hway hdue
    obtain ⟨N, hrun⟩ := callbackEnds_of_returned hreturned
    obtain ⟨-, htends, hlater⟩ := (horderly.underway hway).fire hdue (hrun N (Nat.le_refl N))
    exact ⟨_, ⟨N, hrun⟩, htends, hlater⟩

/-- Each timer sets two more, and an interval of a passage sets itself again. -/
theorem advance_ends_with_more_timers :
    let host : Host Unit Unit := fun _ _ occasion =>
      match occasion with
      | .timer _ => do
        let _ ← Run.withClock fun c => c.setTimeout 3 (.host ())
        let _ ← Run.withClock fun c => c.setTimeout 3 (.host ())
      | _ => pure ()
    let e : Engine Unit Unit :=
      { Engine.ofRegistry {} {} () with clock := (Clock.setTimeout {} 2 (.host ())).2 }
    AdvanceEnds host 6 e ∧ ∃ e : Engine Empty Unit, Played {} () e ∧
      (e.clock.takeDue 60).isSome = true ∧ AdvanceEnds Host.idle 60 e := by
  intro host e
  refine ⟨?host, ?builtin⟩
  case host =>
    have hhost (e₁ : Engine Unit Unit) (timer : Timer (TimerAction Unit))
        (haction : timer.action = .host ()) : ∃ e₂, CallbackEnds host timer e₁ e₂ ∧
          e₂.clock = ((e₁.clock.setTimeout 3 (.host ())).2.setTimeout 3 (.host ())).2 := by
      obtain ⟨id, due, period, action⟩ := timer
      subst haction
      exact ⟨_, ⟨0, fun n _ => rfl⟩, rfl⟩
    have hactions (e₁ : Engine Unit Unit) (hway : Underway host (e.clock.now + 6) e e₁) :
        ∀ timer ∈ e₁.clock.timers, timer.action = .host () := by
      induction hway with
      | start => simp [e, Clock.setTimeout, Clock.addTimer]
      | @fire e₁ e₂ timer clock before hdue hends ih =>
          have hlasts := Clock.Lasts.takeDue hdue
          obtain ⟨e', hends', hclock⟩ := hhost { e₁ with clock := clock } timer
            (ih timer (Clock.mem_of_takeDue hdue))
          rw [hends.unique hends', hclock]
          intro timer' htimer'
          simp only [Clock.setTimeout, Clock.addTimer, List.mem_append, List.mem_singleton] at htimer'
          rcases htimer' with (hold | rfl) | rfl
          · obtain ⟨old, hmem, -, -, hsame⟩ := hlasts.timers timer' hold
            exact hsame.trans (ih old hmem)
          · rfl
          · rfl
    refine advance_ends.1 host e 6 (by simp [e, Clock.setTimeout, Clock.addTimer]) (by decide)
      fun e₁ timer clock hway hdue => ?_
    obtain ⟨e₂, hends, hclock⟩ := hhost { e₁ with clock := clock } timer
      (hactions e₁ hway timer (Clock.mem_of_takeDue hdue))
    have hfirst := Clock.Step.timeout clock 3 (.host ())
    have hsecond := Clock.Step.timeout (clock.setTimeout 3 (.host ())).2 3 (.host ())
    have hcalls := (Clock.Calls.single hfirst trivial).append (.single hsecond trivial)
    refine ⟨e₂, _, hends, hclock ▸ hcalls, fun id now delay hmem => ?_⟩
    simp only [List.singleton_append, List.mem_cons, List.not_mem_nil, or_false,
      ClockEvent.timeout.injEq] at hmem
    omega
  case builtin =>
    let rendered := perform Host.idle 20 (.render ⟨0⟩ "<<repeat 50ms>>x<</repeat>>")
      (Engine.ofConfig {} () : Engine Empty Unit)
    let due := (rendered.2.clock.takeDue 60).getD (⟨0, 0, none, .beginTyping 0⟩, {})
    let ran := Run.reporting (runTimer Host.idle (perform Host.idle 20) due.1)
      { rendered.2 with clock := due.2 }
    obtain ⟨hrendered, hnow, hdue, hran, hnone⟩ :
        Returned rendered.1 ∧ rendered.2.clock.now = 0 ∧
          (rendered.2.clock.takeDue 60).isSome = true ∧ Returned ran.1 ∧
          (ran.2.clock.takeDue 60).isNone = true := by
      decide +kernel
    have htake : rendered.2.clock.takeDue 60 = some due := by
      obtain ⟨found, hfound⟩ := Option.isSome_iff_exists.mp hdue
      simp only [due, hfound, Option.getD_some]
    have hplayed : Played {} () rendered.2 := .call .start (.render ⟨0⟩ _) (n := 20) rfl hrendered
    have hway (e₁ : Engine Empty Unit) (h : Underway Host.idle 60 rendered.2 e₁) :
        e₁ = rendered.2 ∨ e₁.clock.takeDue 60 = none := by
      induction h with
      | start => exact .inl rfl
      | @fire e₁ e₂ timer clock before hdue hends ih =>
          rcases ih with rfl | hdone
          · obtain ⟨rfl, rfl⟩ : timer = due.1 ∧ clock = due.2 :=
              Prod.mk.inj (Option.some.inj (hdue.symm.trans htake))
            rw [hends.unique (callbackEnds_of_returned hran)]
            exact .inr (Option.isNone_iff_eq_none.mp hnone)
          · rw [hdone] at hdue
            cases hdue
    refine ⟨rendered.2, hplayed, hdue, ?_⟩
    refine advance_ends.2 {} () rendered.2 60 hplayed (by decide) (by rw [hnow]; decide)
      fun e₁ timer clock h hdue₁ => ?_
    rw [hnow, Nat.zero_add] at h hdue₁
    rcases hway e₁ h with rfl | hdone
    · obtain ⟨rfl, rfl⟩ : timer = due.1 ∧ clock = due.2 :=
        Prod.mk.inj (Option.some.inj (hdue₁.symm.trans htake))
      exact ⟨20, hran⟩
    · rw [hdone] at hdue₁
      cases hdue₁

end StoryEngine
