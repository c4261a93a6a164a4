import StoryEngine.Clock
/-!
# StoryEngine.Proofs.Clock.Log

What happens to a clock, one event at a time (`Clock.Step`), and what a log of events tells about
its timers: when they were set, when they fired and where an advance arrived. Whoever uses a clock
sets and cancels timers; the events of that kind are calls, and they leave the time as it is
(`Clock.Calls`).
-/

namespace StoryEngine

variable {κ : Type}

/-! ### Logs -/

/-- What happens to a clock. -/
inductive ClockEvent where
  /-- A timer that fires once is set at a time. -/
  | timeout (id : TimerId) (time delay : Nat)
  /-- A timer that fires again and again is set at a time. -/
  | interval (id : TimerId) (time period : Nat)
  /-- A timer is cancelled, or one that is not pending. -/
  | clear (id : TimerId)
  /-- A timer fires, when the clock shows the time. -/
  | fire (id : TimerId) (time : Nat)
  /-- An advance ends at a time. -/
  | arrive (time : Nat)
deriving Repr, DecidableEq

/-- What happened to a clock, in order. -/
abbrev ClockLog := List ClockEvent

namespace ClockEvent

/-- The event is a call by those who use the clock. -/
def IsCall : ClockEvent → Prop
  | timeout _ _ _ => True
  | interval _ _ _ => True
  | clear _ => True
  | _ => False

/-- The time that the clock shows at the event, where it is noted down. -/
def time? : ClockEvent → Option Nat
  | timeout _ time _ => some time
  | interval _ time _ => some time
  | clear _ => none
  | fire _ time => some time
  | arrive time => some time

/-- The timer that is set. -/
def set? : ClockEvent → Option TimerId
  | timeout id _ _ => some id
  | interval id _ _ => some id
  | _ => none

/-- The time of a firing and the timer that fires. -/
def firing? : ClockEvent → Option (Nat × TimerId)
  | fire id time => some (time, id)
  | _ => none

end ClockEvent

namespace ClockLog

/-- The times that the clock has shown. -/
def times (log : ClockLog) : List Nat :=
  log.filterMap ClockEvent.time?

/-- The timers that were set. -/
def identities (log : ClockLog) : List TimerId :=
  log.filterMap ClockEvent.set?

/-- The firings, each with its time and its timer. -/
def firings (log : ClockLog) : List (Nat × TimerId) :=
  log.filterMap ClockEvent.firing?

/-- The times at which a timer fired. -/
def firingsOf (log : ClockLog) (id : TimerId) : List Nat :=
  log.firings.filterMap fun firing => if firing.2 = id then some firing.1 else none

variable (log after : ClockLog) (id : TimerId) (time : Nat)

@[simp] theorem times_append : times (log ++ after) = times log ++ times after :=
  List.filterMap_append

@[simp] theorem firings_append : firings (log ++ after) = firings log ++ firings after :=
  List.filterMap_append

@[simp] theorem firingsOf_append :
    firingsOf (log ++ after) id = firingsOf log id ++ firingsOf after id := by
  simp only [firingsOf, firings_append, List.filterMap_append]

@[simp] theorem firingsOf_fire (other : TimerId) :
    firingsOf [.fire other time] id = if other = id then [time] else [] := by
  by_cases h : other = id <;> simp [firingsOf, firings, ClockEvent.firing?, h]

/-- No firing is logged where something else happens. -/
theorem firings_singleton {event : ClockEvent} (h : event.firing? = none) :
    firings [event] = [] := by
  simp [firings, h]

@[simp] theorem firingsOf_singleton {event : ClockEvent} (h : event.firing? = none) :
    firingsOf [event] id = [] := by
  simp [firingsOf, firings_singleton h]

theorem mem_firingsOf {log : ClockLog} {id : TimerId} {time : Nat} :
    time ∈ log.firingsOf id ↔ (time, id) ∈ log.firings := by
  simp only [firingsOf, List.mem_filterMap, Option.ite_none_right_eq_some, Option.some.injEq]
  constructor
  · rintro ⟨⟨t, i⟩, h, rfl, rfl⟩
    exact h
  · intro h
    exact ⟨(time, id), h, rfl, rfl⟩

/-- The time of a firing is one that the clock has shown. -/
theorem mem_times_of_firings {log : ClockLog} {firing : Nat × TimerId} (h : firing ∈ log.firings) :
    firing.1 ∈ log.times := by
  obtain ⟨event, hevent, hfiring⟩ := List.mem_filterMap.mp h
  refine List.mem_filterMap.mpr ⟨event, hevent, ?_⟩
  cases event with
  | fire id time =>
      cases hfiring
      rfl
  | _ => cases hfiring

end ClockLog

/-! ### Steps -/

namespace Clock

/-- What one event does to a clock. A timer fires when it is the next that is due by some time; an
advance arrives at a time by which none is due. -/
inductive Step : Clock κ → ClockEvent → Clock κ → Prop
  | timeout (c : Clock κ) (delay : Nat) (action : κ) :
      Step c (.timeout c.nextId c.now delay) (c.setTimeout delay action).2
  | interval (c : Clock κ) (period : Nat) (action : κ) :
      Step c (.interval c.nextId c.now period) (c.setInterval period action).2
  | clear (c : Clock κ) (id : TimerId) : Step c (.clear id) (c.clearTimer id)
  | fire {c d : Clock κ} {limit : Nat} {timer : Timer κ} (h : c.takeDue limit = some (timer, d)) :
      Step c (.fire timer.id d.now) d
  | arrive {c : Clock κ} {limit : Nat} (hnow : c.now ≤ limit) (hlast : limit ≤ lastTime)
      (hdue : c.takeDue limit = none) : Step c (.arrive limit) (c.setNow limit)

/-- What the events of a log do to a clock, one after another. -/
inductive Steps : Clock κ → ClockLog → Clock κ → Prop
  | refl (c : Clock κ) : Steps c [] c
  | cons {c c₁ d : Clock κ} {event : ClockEvent} {log : ClockLog} (first : Step c event c₁)
      (rest : Steps c₁ log d) : Steps c (event :: log) d

namespace Steps

variable {c c₁ d : Clock κ} {log before after : ClockLog} {event : ClockEvent}

theorem single (h : Step c event d) : Steps c [event] d :=
  .cons h (.refl d)

theorem append (h : Steps c before c₁) (h₁ : Steps c₁ after d) : Steps c (before ++ after) d := by
  induction h with
  | refl c => exact h₁
  | cons first rest ih => exact .cons first (ih h₁)

/-- A log that is cut in two was made in two parts. -/
theorem split (h : Steps c (before ++ after) d) : ∃ c₁, Steps c before c₁ ∧ Steps c₁ after d := by
  induction before generalizing c with
  | nil => exact ⟨c, .refl c, h⟩
  | cons event before ih =>
      cases h with
      | cons first rest =>
          obtain ⟨c₁, hbefore, hafter⟩ := ih rest
          exact ⟨c₁, .cons first hbefore, hafter⟩

/-- A log is cut in two at an event. -/
theorem split_at (h : Steps c (before ++ event :: after) d) :
    ∃ c₁ c₂, Steps c before c₁ ∧ Step c₁ event c₂ ∧ Steps c₂ after d := by
  obtain ⟨c₁, hbefore, hrest⟩ := h.split
  cases hrest with
  | cons first rest => exact ⟨c₁, _, hbefore, first, rest⟩

/-- What holds at first and is kept by every event holds in the end, of what has happened by
then. -/
theorem induct {motive : ClockLog → Clock κ → Prop} (h : Steps c log d) (start : motive [] c)
    (step : ∀ log c₁ event c₂, Steps c log c₁ → motive log c₁ → Step c₁ event c₂ →
      motive (log ++ [event]) c₂) : motive log d := by
  -- what has happened before the log grows while the log shrinks
  suffices hall : ∀ before c₁ after, Steps c before c₁ → motive before c₁ → Steps c₁ after d →
      motive (before ++ after) d from hall [] c log (.refl c) start h
  intro before c₁ after hbefore hmotive hafter
  induction hafter generalizing before with
  | refl c₁ =>
      rw [List.append_nil]
      exact hmotive
  | @cons c₁ c₂ d event rest first _ ih =>
      rw [List.append_cons]
      exact ih h _ (hbefore.append (.single first)) (step before c₁ event c₂ hbefore hmotive first)

end Steps

/-! ### Calls -/

/-- The second clock is the first one after the calls of the log. -/
def Calls (c : Clock κ) (log : ClockLog) (d : Clock κ) : Prop :=
  Steps c log d ∧ ∀ event ∈ log, event.IsCall

namespace Calls

variable {c c₁ d : Clock κ} {log log₁ : ClockLog}

theorem refl (c : Clock κ) : Calls c [] c :=
  ⟨.refl c, nofun⟩

theorem single {event : ClockEvent} (h : Step c event d) (hcall : event.IsCall) :
    Calls c [event] d :=
  ⟨.single h, fun _ hevent => List.mem_singleton.mp hevent ▸ hcall⟩

theorem append (h : Calls c log c₁) (h₁ : Calls c₁ log₁ d) : Calls c (log ++ log₁) d := by
  refine ⟨h.1.append h₁.1, fun event hevent => ?_⟩
  rcases List.mem_append.mp hevent with hevent | hevent
  · exact h.2 event hevent
  · exact h₁.2 event hevent

/-- Calls leave the time as it is. -/
theorem now_eq (h : Calls c log d) : d.now = c.now := by
  obtain ⟨hsteps, hcalls⟩ := h
  induction hsteps with
  | refl c => rfl
  | @cons c c₁ d event rest first _ ih =>
      have hrest := ih fun other hother => hcalls other (List.mem_cons_of_mem event hother)
      have hcall := hcalls event List.mem_cons_self
      rw [hrest]
      cases first with
      | fire h => exact hcall.elim
      | arrive hnow hlast hdue => exact hcall.elim
      | _ => rfl

end Calls

/-- The second clock is the first one after some calls. -/
def Tends (c d : Clock κ) : Prop :=
  ∃ log, Calls c log d

namespace Tends

variable {c c₁ d : Clock κ}

theorem refl (c : Clock κ) : Tends c c :=
  ⟨[], .refl c⟩

theorem of_eq (h : d = c) : Tends c d :=
  h ▸ refl c

theorem trans (h : Tends c c₁) (h₁ : Tends c₁ d) : Tends c d := by
  obtain ⟨log, hlog⟩ := h
  obtain ⟨log₁, hlog₁⟩ := h₁
  exact ⟨log ++ log₁, hlog.append hlog₁⟩

theorem now_eq (h : Tends c d) : d.now = c.now := by
  obtain ⟨log, hcalls⟩ := h
  exact hcalls.now_eq

theorem setTimeout (c : Clock κ) (delay : Nat) (action : κ) :
    Tends c (c.setTimeout delay action).2 :=
  ⟨_, .single (.timeout c delay action) trivial⟩

theorem setInterval (c : Clock κ) (period : Nat) (action : κ) :
    Tends c (c.setInterval period action).2 :=
  ⟨_, .single (.interval c period action) trivial⟩

theorem clearTimer (c : Clock κ) (id : TimerId) : Tends c (c.clearTimer id) :=
  ⟨_, .single (.clear c id) trivial⟩

/-- Timers are cancelled one after another. -/
theorem clearTimers (c : Clock κ) (ids : List TimerId) : Tends c (c.clearTimers ids) := by
  induction ids generalizing c with
  | nil =>
      have hnone : c.clearTimers [] = c := by
        show { c with timers := c.timers.filter fun _ => true } = c
        rw [List.filter_eq_self.mpr fun _ _ => rfl]
      exact of_eq hnone
  | cons id ids ih =>
      have hboth : c.clearTimers (id :: ids) = (c.clearTimer id).clearTimers ids := by
        simp only [Clock.clearTimers, Clock.clearTimer, List.filter_filter]
        congr 2
        funext timer
        by_cases h : timer.id = id <;> simp [h]
      rw [hboth]
      exact (clearTimer c id).trans (ih _)

end Tends

end Clock

end StoryEngine
