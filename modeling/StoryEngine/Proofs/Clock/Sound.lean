import Mathlib.Data.List.Nodup
import StoryEngine.Proofs.Clock.Log
/-!
# StoryEngine.Proofs.Clock.Sound

What pending timers have in common on a clock to which nothing but the events of a log has happened
(`Clock.Sound`): they stand in the order of their identities, and none is due before the time that the
clock shows or after the last. The timer that fires is then the first by its time and its identity,
and the clock shows its time.
-/

namespace StoryEngine

variable {κ : Type}

/-! ### Schedules -/

/-- The times of a clock from the first one on that are a number of periods apart. -/
def Clock.beats (first period : Nat) : List Nat :=
  (List.range ((lastTime + period - first) / period)).map fun i => first + i * period

theorem Clock.beats_of_lt {first period : Nat} (hperiod : 0 < period) (h : lastTime < first) :
    beats first period = [] := by
  have hnone : (lastTime + period - first) / period = 0 :=
    Nat.div_eq_of_lt (by omega)
  simp [beats, hnone]

theorem Clock.beats_of_le {first period : Nat} (hperiod : 0 < period) (h : first ≤ lastTime) :
    beats first period = first :: beats (first + period) period := by
  have hcount : (lastTime + period - first) / period
      = (lastTime + period - (first + period)) / period + 1 := by
    have hsplit : lastTime + period - first = lastTime + period - (first + period) + period := by
      omega
    rw [hsplit, Nat.add_div_right _ hperiod]
  simp only [beats, hcount, List.range_succ_eq_map, List.map_cons, List.map_map, Nat.zero_mul,
    Nat.add_zero, List.cons.injEq, true_and]
  refine List.map_congr_left fun i _ => ?_
  simp only [Function.comp_apply, Nat.succ_eq_add_one, Nat.add_mul, Nat.one_mul]
  omega

/-- The beats are all times of the clock that are reached from the first one in whole periods. -/
theorem Clock.mem_beats {first period time : Nat} (hperiod : 0 < period) :
    time ∈ beats first period ↔ time ≤ lastTime ∧ ∃ i, time = first + i * period := by
  have hcount (i : Nat) :
      i < (lastTime + period - first) / period ↔ first + i * period ≤ lastTime := by
    rw [← Nat.succ_le_iff, Nat.le_div_iff_mul_le hperiod, Nat.succ_mul]
    omega
  simp only [beats, List.mem_map, List.mem_range, hcount]
  constructor
  · rintro ⟨i, hi, rfl⟩
    exact ⟨hi, i, rfl⟩
  · rintro ⟨hlast, i, rfl⟩
    exact ⟨i, hlast, rfl⟩

/-- A third beat would be after the last time. -/
example : Clock.beats (lastTime - 7) 5 = [lastTime - 7, lastTime - 2] := by decide

/-- No beat is before the first. -/
theorem Clock.le_of_mem_beats {first period time : Nat} (h : time ∈ beats first period) :
    first ≤ time := by
  obtain ⟨i, -, rfl⟩ := List.mem_map.mp h
  exact Nat.le_add_right _ _

/-- The times at which a pending timer is going to fire. -/
def Timer.schedule (timer : Timer κ) : List Nat :=
  match timer.period with
  | none => [timer.due]
  | some period => Clock.beats timer.due period

/-- When a timer that fires is due again. -/
def Timer.next? (timer : Timer κ) : Option Nat :=
  match timer.period with
  | some period => if timer.due + period ≤ lastTime then some (timer.due + period) else none
  | none => none

theorem Timer.due_le_of_mem_schedule {timer : Timer κ} {time : Nat} (h : time ∈ timer.schedule) :
    timer.due ≤ time := by
  unfold Timer.schedule at h
  split at h
  · exact Nat.le_of_eq (List.mem_singleton.mp h).symm
  · exact Clock.le_of_mem_beats h

namespace Clock

/-! ### The next firing -/

/-- Of the timers that are due first, the one that fires is the one that was set first. -/
theorem firstDue?_id_le {limit : Nat} {timer other : Timer κ} {timers : List (Timer κ)}
    (hsorted : timers.Pairwise fun a b => a.id < b.id)
    (h : firstDue? limit timers = some timer) (hother : other ∈ timers)
    (hdue : other.due = timer.due) : timer.id ≤ other.id := by
  induction timers generalizing timer with
  | nil => cases hother
  | cons first rest ih =>
      obtain ⟨hfirst, hrest⟩ := List.pairwise_cons.mp hsorted
      simp only [firstDue?] at h
      cases hbest : firstDue? limit rest with
      | none =>
          simp only [hbest, Option.ite_none_right_eq_some, Option.some.injEq] at h
          obtain ⟨-, rfl⟩ := h
          rcases List.mem_cons.mp hother with rfl | hother
          · exact Nat.le_refl _
          · exact Nat.le_of_lt (hfirst other hother)
      | some best =>
          rw [hbest] at h
          dsimp only at h
          split at h
          · cases h
            rcases List.mem_cons.mp hother with rfl | hother
            · exact Nat.le_refl _
            · exact Nat.le_of_lt (hfirst other hother)
          · rename_i hlater
            cases h
            rcases List.mem_cons.mp hother with rfl | hother
            · -- a timer that is due at the same time would have come first
              have hlimit := due_le_of_firstDue? hbest
              simp only [Bool.and_eq_true, decide_eq_true_eq, not_and, Nat.not_le] at hlater
              have := hlater (by omega)
              omega
            · exact ih hrest hbest hother hdue

/-- What fires next by a time is what fires next by a later one. -/
theorem firstDue?_mono {limit limit' : Nat} {timer : Timer κ} {timers : List (Timer κ)}
    (hle : limit ≤ limit') (h : firstDue? limit timers = some timer) :
    firstDue? limit' timers = some timer := by
  induction timers generalizing timer with
  | nil => cases h
  | cons first rest ih =>
      simp only [firstDue?] at h ⊢
      cases hbest : firstDue? limit rest with
      | none =>
          simp only [hbest, Option.ite_none_right_eq_some, Option.some.injEq] at h
          obtain ⟨hdue, rfl⟩ := h
          cases hlater : firstDue? limit' rest with
          | none => simp [Nat.le_trans hdue hle]
          | some best =>
              -- what else is due by the later time was not by the earlier one
              have hnot := firstDue?_eq_none_iff.mp hbest best (mem_of_firstDue? hlater)
              have hboth : first.due ≤ limit' ∧ first.due ≤ best.due := by omega
              simp [hboth]
      | some best =>
          rw [ih hbest]
          rw [hbest] at h
          have hdue := due_le_of_firstDue? hbest
          have hiff : (first.due ≤ limit' ∧ first.due ≤ best.due) ↔
              (first.due ≤ limit ∧ first.due ≤ best.due) := by omega
          simpa [hiff] using h

/-- The next firing by a time, and the clock after it. -/
theorem takeDue_eq (c : Clock κ) (limit : Nat) :
    c.takeDue limit = (firstDue? limit c.timers).map fun timer =>
      (timer, { c with
        now := max c.now timer.due
        timers :=
          match timer.next? with
          | some due => c.timers.map fun t => if t.id = timer.id then { t with due := due } else t
          | none => c.timers.filter fun t => t.id != timer.id }) := by
  unfold takeDue
  cases firstDue? limit c.timers <;> rfl

theorem takeDue_mono {c : Clock κ} {limit limit' : Nat} {taken : Timer κ × Clock κ}
    (hle : limit ≤ limit') (h : c.takeDue limit = some taken) : c.takeDue limit' = some taken := by
  rw [takeDue_eq] at h ⊢
  obtain ⟨timer, htimer, rfl⟩ := Option.map_eq_some_iff.mp h
  rw [firstDue?_mono hle htimer]
  rfl

theorem takeDue_eq_none_iff {c : Clock κ} {limit : Nat} :
    c.takeDue limit = none ↔ ∀ timer ∈ c.timers, limit < timer.due := by
  rw [takeDue_eq, Option.map_eq_none_iff, firstDue?_eq_none_iff]

/-- A firing moves the clock to its time, unless that is past. -/
theorem now_of_takeDue {c d : Clock κ} {limit : Nat} {timer : Timer κ}
    (h : c.takeDue limit = some (timer, d)) :
    d.now = max c.now timer.due ∧ timer ∈ c.timers ∧ timer.due ≤ limit := by
  rw [takeDue_eq] at h
  obtain ⟨first, hfirst, heq⟩ := Option.map_eq_some_iff.mp h
  cases heq
  exact ⟨rfl, mem_of_firstDue? hfirst, due_le_of_firstDue? hfirst⟩

/-- A clock that has been moved to a time by which nothing is due goes on as before. -/
theorem takeDue_setNow {c : Clock κ} {limit : Nat} (h : c.takeDue limit = none) (limit' : Nat) :
    (c.setNow limit).takeDue limit' = c.takeDue limit' := by
  rw [takeDue_eq, takeDue_eq]
  show Option.map _ (firstDue? limit' c.timers) = _
  cases hfirst : firstDue? limit' c.timers with
  | none => rfl
  | some timer =>
      have hlater := takeDue_eq_none_iff.mp h timer (mem_of_firstDue? hfirst)
      have hnow : max (max c.now limit) timer.due = max c.now timer.due := by omega
      simp only [Option.map_some, setNow, hnow]

/-! ### Sound clocks -/

/-- What pending timers have in common. -/
structure Sound (c : Clock κ) : Prop where
  /-- They stand in the order in which they were set. -/
  ascending : c.timers.Pairwise fun a b => a.id < b.id
  known : ∀ timer ∈ c.timers, timer.id < c.nextId
  now_le : c.now ≤ lastTime
  now_le_due : ∀ timer ∈ c.timers, c.now ≤ timer.due
  due_le : ∀ timer ∈ c.timers, timer.due ≤ lastTime
  period_pos : ∀ timer ∈ c.timers, ∀ period, timer.period = some period → 0 < period

/-- No timer of the identity is pending. -/
def Gone (c : Clock κ) (id : TimerId) : Prop :=
  ∀ timer ∈ c.timers, timer.id ≠ id

namespace Sound

variable {c d : Clock κ} {limit : Nat} {timer other : Timer κ}

theorem eq_of_id (hc : c.Sound) (h : timer ∈ c.timers) (hother : other ∈ c.timers)
    (hid : timer.id = other.id) : timer = other := by
  have hnodup : (c.timers.map Timer.id).Nodup :=
    List.pairwise_map.mpr (hc.ascending.imp Nat.ne_of_lt)
  exact List.inj_on_of_nodup_map hnodup h hother hid

/-- A timer that is due again at another time goes on with its schedule. -/
theorem schedule_eq (hc : c.Sound) (h : timer ∈ c.timers) :
    timer.schedule = timer.due ::
      match timer.next? with
      | some due => { timer with due := due }.schedule
      | none => [] := by
  have hdue := hc.due_le timer h
  unfold Timer.schedule Timer.next?
  cases hp : timer.period with
  | none => rfl
  | some period =>
      have hperiod := hc.period_pos timer h period hp
      dsimp only
      rw [beats_of_le hperiod hdue]
      split
      · rename_i due hagain
        simp only [Option.ite_none_right_eq_some, Option.some.injEq] at hagain
        rw [hagain.2]
      · rename_i hagain
        simp only [ite_eq_right_iff, reduceCtorEq, imp_false, Nat.not_le] at hagain
        rw [beats_of_lt hperiod hagain]

/-- Which timers are pending after a firing: the others, and the one that fires if it is due
again. -/
theorem mem_takeDue (hc : c.Sound) (h : c.takeDue limit = some (timer, d)) :
    other ∈ d.timers ↔ (other ∈ c.timers ∧ other.id ≠ timer.id) ∨
      ∃ due, timer.next? = some due ∧ other = { timer with due := due } := by
  rw [takeDue_eq] at h
  obtain ⟨first, hfirst, heq⟩ := Option.map_eq_some_iff.mp h
  cases heq
  have hmem := mem_of_firstDue? hfirst
  cases hnext : timer.next? with
  | none => simp
  | some due =>
      simp only [List.mem_map, Option.some.injEq, exists_eq_left']
      constructor
      · rintro ⟨old, hold, rfl⟩
        by_cases hid : old.id = timer.id
        · rw [if_pos hid, hc.eq_of_id hold hmem hid]
          exact .inr rfl
        · rw [if_neg hid]
          exact .inl ⟨hold, hid⟩
      · rintro (⟨hother, hid⟩ | rfl)
        · exact ⟨other, hother, if_neg hid⟩
        · exact ⟨timer, hmem, if_pos rfl⟩

/-- A timer fires when the clock shows the time at which it is due. -/
theorem now_takeDue (hc : c.Sound) (h : c.takeDue limit = some (timer, d)) :
    d.now = timer.due ∧ d.nextId = c.nextId ∧ timer ∈ c.timers ∧ timer.due ≤ limit := by
  obtain ⟨hnow, hmem, hdue⟩ := now_of_takeDue h
  refine ⟨hnow.trans (Nat.max_eq_right (hc.now_le_due timer hmem)), ?_, hmem, hdue⟩
  rw [takeDue_eq] at h
  obtain ⟨first, hfirst, heq⟩ := Option.map_eq_some_iff.mp h
  cases heq
  rfl

/-- No other timer is before the one that fires. -/
theorem least_takeDue (hc : c.Sound) (h : c.takeDue limit = some (timer, d))
    (hother : other ∈ c.timers) :
    timer.due < other.due ∨ timer.due = other.due ∧ timer.id ≤ other.id := by
  rw [takeDue_eq] at h
  obtain ⟨first, hfirst, heq⟩ := Option.map_eq_some_iff.mp h
  cases heq
  have hdue := firstDue?_due_le hfirst hother
  rcases Nat.lt_or_eq_of_le hdue with hlt | heq
  · exact .inl hlt
  · exact .inr ⟨heq, firstDue?_id_le hc.ascending hfirst hother heq.symm⟩

theorem next?_eq_some {due : Nat} (hc : c.Sound) (h : timer ∈ c.timers)
    (hnext : timer.next? = some due) : timer.due < due ∧ due ≤ lastTime := by
  unfold Timer.next? at hnext
  cases hp : timer.period with
  | none => simp [hp] at hnext
  | some period =>
      have hperiod := hc.period_pos timer h period hp
      simp only [hp, Option.ite_none_right_eq_some, Option.some.injEq] at hnext
      omega

/-! #### What an event keeps -/

theorem start : ({} : Clock κ).Sound :=
  ⟨.nil, nofun, Nat.zero_le _, nofun, nofun, nofun⟩

theorem mem_addTimer {delay : Nat} {period : Option Nat} {action : κ} :
    other ∈ (c.addTimer delay period action).2.timers ↔
      other ∈ c.timers ∨ other = ⟨c.nextId, later c.now delay, period, action⟩ := by
  simp [Clock.addTimer]

/-- A timer is set that is due after a delay. -/
theorem addTimer (hc : c.Sound) (delay : Nat) {period : Option Nat} (action : κ)
    (hperiod : ∀ p, period = some p → 0 < p) : (c.addTimer delay period action).2.Sound where
  ascending := by
    simp only [Clock.addTimer, List.pairwise_append, List.pairwise_cons, List.not_mem_nil,
      false_imp_iff, implies_true, List.Pairwise.nil, and_self, List.mem_singleton,
      forall_eq, true_and]
    exact ⟨hc.ascending, hc.known⟩
  known := by
    intro timer htimer
    rcases mem_addTimer.mp htimer with hold | rfl
    · exact Nat.lt_succ_of_lt (hc.known timer hold)
    · exact Nat.lt_succ_self _
  now_le := hc.now_le
  now_le_due := by
    intro timer htimer
    rcases mem_addTimer.mp htimer with hold | rfl
    · exact hc.now_le_due timer hold
    · exact Nat.le_min.mpr ⟨Nat.le_add_right _ _, hc.now_le⟩
  due_le := by
    intro timer htimer
    rcases mem_addTimer.mp htimer with hold | rfl
    · exact hc.due_le timer hold
    · exact later_le_lastTime _ _
  period_pos := by
    intro timer htimer p hp
    rcases mem_addTimer.mp htimer with hold | rfl
    · exact hc.period_pos timer hold p hp
    · exact hperiod p hp

/-- Some timers are cancelled. -/
theorem filter (hc : c.Sound) (keep : Timer κ → Bool) :
    Sound { c with timers := c.timers.filter keep } where
  ascending := hc.ascending.filter _
  known timer htimer := hc.known timer (List.mem_filter.mp htimer).1
  now_le := hc.now_le
  now_le_due timer htimer := hc.now_le_due timer (List.mem_filter.mp htimer).1
  due_le timer htimer := hc.due_le timer (List.mem_filter.mp htimer).1
  period_pos timer htimer := hc.period_pos timer (List.mem_filter.mp htimer).1

theorem clearTimer (hc : c.Sound) (id : TimerId) : (c.clearTimer id).Sound :=
  hc.filter _

/-- The timers stay in the order in which they were set when one of them fires. -/
theorem ascending_takeDue (hc : c.Sound) (h : c.takeDue limit = some (timer, d)) :
    d.timers.Pairwise fun a b => a.id < b.id := by
  rw [takeDue_eq] at h
  obtain ⟨first, hfirst, heq⟩ := Option.map_eq_some_iff.mp h
  cases heq
  cases timer.next? with
  | none => exact hc.ascending.filter _
  | some due =>
      have hid (t : Timer κ) :
          (if t.id = timer.id then { t with due := due } else t).id = t.id := by
        split <;> rfl
      simp only [List.pairwise_map, hid]
      exact hc.ascending

theorem takeDue (hc : c.Sound) (h : c.takeDue limit = some (timer, d)) : d.Sound := by
  obtain ⟨hnow, hnextId, hmem, -⟩ := hc.now_takeDue h
  have htimers := fun (other : Timer κ) (hother : other ∈ d.timers) => (hc.mem_takeDue h).mp hother
  refine ⟨hc.ascending_takeDue h, ?known, ?now, ?due, ?last, ?period⟩
  case known =>
    intro other hother
    rw [hnextId]
    rcases htimers other hother with ⟨hold, -⟩ | ⟨due, -, rfl⟩
    · exact hc.known other hold
    · exact hc.known timer hmem
  case now =>
    rw [hnow]
    exact hc.due_le timer hmem
  case due =>
    intro other hother
    rw [hnow]
    rcases htimers other hother with ⟨hold, -⟩ | ⟨due, hnext, rfl⟩
    · have := hc.least_takeDue h hold
      omega
    · exact Nat.le_of_lt (hc.next?_eq_some hmem hnext).1
  case last =>
    intro other hother
    rcases htimers other hother with ⟨hold, -⟩ | ⟨due, hnext, rfl⟩
    · exact hc.due_le other hold
    · exact (hc.next?_eq_some hmem hnext).2
  case period =>
    intro other hother
    rcases htimers other hother with ⟨hold, -⟩ | ⟨due, -, rfl⟩
    · exact hc.period_pos other hold
    · exact hc.period_pos timer hmem

/-- A timer that fires changes nothing about those of another kind. -/
theorem filter_takeDue (hc : c.Sound) (h : c.takeDue limit = some (timer, d)) {kind : κ → Bool}
    (hkind : kind timer.action = false) :
    d.timers.filter (fun t => kind t.action) = c.timers.filter (fun t => kind t.action) := by
  rw [takeDue_eq] at h
  obtain ⟨first, hfirst, heq⟩ := Option.map_eq_some_iff.mp h
  cases heq
  have hne : ∀ t ∈ c.timers, kind t.action = true → t.id ≠ timer.id := by
    intro t ht hother hid
    rw [hc.eq_of_id ht (mem_of_firstDue? hfirst) hid, hkind] at hother
    cases hother
  cases timer.next? with
  | none =>
      dsimp only
      rw [List.filter_filter]
      refine List.filter_congr fun t ht => ?_
      cases hother : kind t.action with
      | false => rfl
      | true => simp [hne t ht hother]
  | some due =>
      dsimp only
      have hsame : (fun t : Timer κ => kind t.action) ∘
          (fun t => if t.id = timer.id then { t with due := due } else t) =
            fun t => kind t.action := by
        funext t
        simp only [Function.comp_apply]
        split <;> rfl
      rw [List.filter_map, hsame]
      refine (List.map_congr_left fun t ht => if_neg ?_).trans (List.map_id' _)
      exact hne t (List.mem_filter.mp ht).1 (List.mem_filter.mp ht).2

/-- A timer that fires once is the only one that is gone afterwards. -/
theorem filter_takeDue_once (h : c.takeDue limit = some (timer, d)) (honce : timer.period = none)
    (keep : Timer κ → Bool) :
    d.timers.filter keep = (c.timers.filter keep).filter (·.id != timer.id) := by
  rw [takeDue_eq] at h
  obtain ⟨first, hfirst, heq⟩ := Option.map_eq_some_iff.mp h
  cases heq
  have hnext : timer.next? = none := by
    rw [Timer.next?, honce]
  rw [hnext]
  exact List.filter_comm _ _ _

theorem arrive (hc : c.Sound) (hnow : c.now ≤ limit) (hlast : limit ≤ lastTime)
    (hdue : c.takeDue limit = none) : (c.setNow limit).Sound where
  ascending := hc.ascending
  known := hc.known
  now_le := Nat.max_le.mpr ⟨hc.now_le, hlast⟩
  now_le_due timer htimer := by
    show max c.now limit ≤ timer.due
    have := takeDue_eq_none_iff.mp hdue timer htimer
    omega
  due_le := hc.due_le
  period_pos := hc.period_pos

theorem step {event : ClockEvent} (hc : c.Sound) (h : Step c event d) : d.Sound := by
  cases h with
  | timeout delay action => exact hc.addTimer delay action nofun
  | interval period action =>
      refine hc.addTimer _ action fun p hp => ?_
      cases hp
      omega
  | clear id => exact hc.clearTimer id
  | fire h => exact hc.takeDue h
  | arrive hnow hlast hdue => exact hc.arrive hnow hlast hdue

end Sound

/-- Identities are not used twice. -/
theorem Step.nextId_le {c d : Clock κ} {event : ClockEvent} (h : Step c event d) (hc : c.Sound) :
    c.nextId ≤ d.nextId := by
  cases h with
  | timeout delay action => exact Nat.le_succ _
  | interval period action => exact Nat.le_succ _
  | clear id => exact Nat.le_refl _
  | fire h => exact Nat.le_of_eq (hc.now_takeDue h).2.1.symm
  | arrive hnow hlast hdue => exact Nat.le_refl _

end Clock

end StoryEngine
