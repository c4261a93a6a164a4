import StoryEngine.Proofs.Clock.Sound
/-!
# StoryEngine.Proofs.Clock.Delivery

When timers fire. Whatever happens to a clock, every timer fires at the times of its schedule and at
no other ones until it is cancelled, and all timers together fire in the order of their times and
their identities (`ClockLog.Delivered`, `Clock.Steps.delivered`).

One event keeps what a log tells of all timers together (`Clock.Fits`), and what it tells of a single
one: it has fired at the first times of its schedule, and is going to fire at the others
(`Clock.Tracks`).
-/

namespace StoryEngine

variable {κ : Type}

/-! ### What timers are promised -/

namespace ClockLog

/-- A timer fires at the times of a schedule and at no other ones. Unless it has been cancelled, it
has fired at all of them up to where an advance arrives, and at all of them before any other firing. -/
structure Meets (log : ClockLog) (id : TimerId) (schedule : List Nat) : Prop where
  only : log.firingsOf id <+: schedule
  arrived : ∀ (before after : ClockLog) (time : Nat), log = before ++ .arrive time :: after →
    .clear id ∉ before → before.firingsOf id = schedule.filter (· ≤ time)
  inOrder : ∀ (before after : ClockLog) (other : TimerId) (time : Nat),
    log = before ++ .fire other time :: after → .clear id ∉ before →
      before.firingsOf id = schedule.filter fun due => due < time ∨ due = time ∧ id < other

/-- How timers fire. -/
structure Delivered (log : ClockLog) : Prop where
  /-- Timers fire in the order of time; of several that fire at one time, those that were set first
  are the first. -/
  ascending : log.firings.Pairwise (Prod.Lex (· < ·) (· < ·))
  /-- The clock never goes back. -/
  forward : log.times.Pairwise (· ≤ ·)
  /-- No two timers are the same. -/
  distinct : log.identities.Nodup
  /-- Only what has been set fires. -/
  isSet : ∀ (before after : ClockLog) (id : TimerId) (time : Nat),
    log = before ++ .fire id time :: after → id ∈ before.identities
  /-- A timeout fires once, when its delay is over. -/
  timeout : ∀ (before after : ClockLog) (id : TimerId) (time delay : Nat),
    log = before ++ .timeout id time delay :: after → after.Meets id [Clock.later time delay]
  /-- An interval fires when its period is over, and again after each further one. -/
  interval : ∀ (before after : ClockLog) (id : TimerId) (time period : Nat),
    log = before ++ .interval id time period :: after →
      after.Meets id (Clock.beats (Clock.later time (max period 1)) (max period 1))
  /-- A timer that is cancelled never fires again. -/
  cleared : ∀ (before after : ClockLog) (id : TimerId), log = before ++ .clear id :: after →
    id ∈ before.identities → after.firingsOf id = []

end ClockLog

namespace Clock

variable {c d : Clock κ} {log : ClockLog} {event : ClockEvent} {id : TimerId} {schedule : List Nat}

/-! ### All timers -/

/-- What a log tells of the timers of the clock to which it has happened. -/
structure Fits (c : Clock κ) (log : ClockLog) : Prop where
  sound : c.Sound
  /-- The clock has shown no later time. -/
  shown : ∀ time ∈ log.times, time ≤ c.now
  forward : log.times.Pairwise (· ≤ ·)
  known : ∀ id ∈ log.identities, id < c.nextId
  distinct : log.identities.Nodup
  pending : ∀ timer ∈ c.timers, timer.id ∈ log.identities
  fired : ∀ firing ∈ log.firings, firing.2 ∈ log.identities
  ascending : log.firings.Pairwise (Prod.Lex (· < ·) (· < ·))
  /-- What is pending fires after all that has fired. -/
  ahead : ∀ firing ∈ log.firings, ∀ timer ∈ c.timers,
    Prod.Lex (· < ·) (· < ·) firing (timer.due, timer.id)

namespace Fits

theorem start : ({} : Clock κ).Fits [] :=
  ⟨.start, nofun, .nil, nofun, .nil, nofun, nofun, .nil, nofun⟩

/-- The clock shows a time that is noted down. -/
theorem times_concat (h : c.Fits log) (event : ClockEvent) (hnow : c.now ≤ d.now)
    (htime : ∀ time ∈ event.time?, time = d.now) :
    (∀ time ∈ ClockLog.times (log ++ [event]), time ≤ d.now) ∧
      (ClockLog.times (log ++ [event])).Pairwise (· ≤ ·) := by
  have hold (time : Nat) (hmem : time ∈ log.times) : time ≤ d.now :=
    Nat.le_trans (h.shown time hmem) hnow
  have hsingle : ClockLog.times [event] = event.time?.toList := by
    cases hevent : event.time? <;> simp [ClockLog.times, hevent]
  rw [ClockLog.times_append, hsingle]
  constructor
  · intro time hmem
    rcases List.mem_append.mp hmem with hmem | hmem
    · exact hold time hmem
    · exact Nat.le_of_eq (htime time (Option.mem_toList.mp hmem))
  · rw [List.pairwise_append]
    refine ⟨h.forward, ?_, fun time hmem last hlast => ?_⟩
    · cases event.time? <;> simp
    · rw [htime last (Option.mem_toList.mp hlast)]
      exact hold time hmem

/-- An event that neither sets a timer nor fires one leaves what is known of the others. -/
theorem quiet (h : c.Fits log) (hsound : d.Sound) (hnow : c.now ≤ d.now)
    (hnextId : d.nextId = c.nextId) (htimers : d.timers ⊆ c.timers)
    (htime : ∀ time ∈ event.time?, time = d.now) (hset : event.set? = none)
    (hfiring : event.firing? = none) : d.Fits (log ++ [event]) := by
  obtain ⟨hshown, hforward⟩ := h.times_concat event hnow htime
  have hids : ClockLog.identities (log ++ [event]) = log.identities := by
    simp [ClockLog.identities, hset]
  have hfirings : ClockLog.firings (log ++ [event]) = log.firings := by
    simp [ClockLog.firings, hfiring]
  refine ⟨hsound, hshown, hforward, ?_, ?_, ?_, ?_, ?_, ?_⟩
  all_goals simp only [hids, hfirings, hnextId]
  · exact h.known
  · exact h.distinct
  · exact fun timer htimer => h.pending timer (htimers htimer)
  · exact h.fired
  · exact h.ascending
  · exact fun firing hmem timer htimer => h.ahead firing hmem timer (htimers htimer)

/-- A timer is set, with a new identity. -/
theorem addTimer (h : c.Fits log) {delay : Nat} {period : Option Nat} {action : κ}
    (hsound : (c.addTimer delay period action).2.Sound) (htime : event.time? = some c.now)
    (hset : event.set? = some c.nextId) (hfiring : event.firing? = none) :
    (c.addTimer delay period action).2.Fits (log ++ [event]) := by
  obtain ⟨hshown, hforward⟩ := h.times_concat (d := (c.addTimer delay period action).2)
    event (Nat.le_refl _) fun time hmem => Option.some.inj (hmem.symm.trans htime)
  have hids : ClockLog.identities (log ++ [event]) = log.identities ++ [c.nextId] := by
    simp [ClockLog.identities, hset]
  have hfirings : ClockLog.firings (log ++ [event]) = log.firings := by
    simp [ClockLog.firings, hfiring]
  refine ⟨hsound, hshown, hforward, ?known, ?distinct, ?pending, ?fired, ?ascending, ?ahead⟩
  all_goals simp only [hids, hfirings]
  case known =>
    intro id hid
    rcases List.mem_append.mp hid with hold | hnew
    · exact Nat.lt_succ_of_lt (h.known id hold)
    · cases List.mem_singleton.mp hnew
      exact Nat.lt_succ_self _
  case distinct =>
    have hnew : c.nextId ∉ log.identities := fun hmem => Nat.lt_irrefl _ (h.known _ hmem)
    simpa [List.nodup_append] using ⟨h.distinct, fun id hid heq => hnew (heq ▸ hid)⟩
  case pending =>
    intro timer htimer
    rcases Sound.mem_addTimer.mp htimer with hold | rfl
    · exact List.mem_append_left _ (h.pending timer hold)
    · exact List.mem_append_right _ (List.mem_singleton.mpr rfl)
  case fired => exact fun firing hmem => List.mem_append_left _ (h.fired firing hmem)
  case ascending => exact h.ascending
  case ahead =>
    intro firing hmem timer htimer
    rcases Sound.mem_addTimer.mp htimer with hold | rfl
    · exact h.ahead firing hmem timer hold
    · -- it is due at the earliest at once, and has the largest identity
      have hlast := h.shown _ (ClockLog.mem_times_of_firings hmem)
      have hid := h.known _ (h.fired firing hmem)
      have hdue : c.now ≤ later c.now delay := Nat.le_min.mpr ⟨Nat.le_add_right _ _, h.sound.now_le⟩
      rw [Prod.lex_def]
      rcases Nat.lt_or_eq_of_le (Nat.le_trans hlast hdue) with hlt | heq
      · exact .inl hlt
      · exact .inr ⟨heq, hid⟩

/-- The next timer that is due fires. -/
theorem fire (h : c.Fits log) {limit : Nat} {timer : Timer κ}
    (hdue : c.takeDue limit = some (timer, d)) : d.Fits (log ++ [.fire timer.id d.now]) := by
  obtain ⟨hnow, hnextId, hmem, -⟩ := h.sound.now_takeDue hdue
  have htimers := fun (other : Timer κ) (hother : other ∈ d.timers) =>
    (h.sound.mem_takeDue hdue).mp hother
  have hforth : c.now ≤ d.now := hnow ▸ h.sound.now_le_due timer hmem
  obtain ⟨hshown, hforward⟩ := h.times_concat (.fire timer.id d.now) hforth
    fun time hmem => (Option.some.inj hmem).symm
  have hids : ClockLog.identities (log ++ [.fire timer.id d.now]) = log.identities := by
    simp [ClockLog.identities, ClockEvent.set?]
  have hfirings : ClockLog.firings (log ++ [.fire timer.id d.now])
      = log.firings ++ [(timer.due, timer.id)] := by
    simp [ClockLog.firings, ClockEvent.firing?, hnow]
  refine ⟨h.sound.takeDue hdue, hshown, hforward, ?known, ?distinct, ?pending, ?fired, ?ascending,
    ?ahead⟩
  all_goals simp only [hids, hfirings, hnextId]
  case known => exact h.known
  case distinct => exact h.distinct
  case pending =>
    intro other hother
    rcases htimers other hother with ⟨hold, -⟩ | ⟨due, -, rfl⟩
    · exact h.pending other hold
    · exact h.pending timer hmem
  case fired =>
    intro firing hfiring
    rcases List.mem_append.mp hfiring with hold | hnew
    · exact h.fired firing hold
    · cases List.mem_singleton.mp hnew
      exact h.pending timer hmem
  case ascending =>
    rw [List.pairwise_append]
    refine ⟨h.ascending, List.pairwise_singleton _ _, fun firing hfiring last hlast => ?_⟩
    cases List.mem_singleton.mp hlast
    exact h.ahead firing hfiring timer hmem
  case ahead =>
    intro firing hfiring other hother
    rcases htimers other hother with ⟨hold, hid⟩ | ⟨due, hnext, rfl⟩
    · rcases List.mem_append.mp hfiring with hbefore | hnew
      · exact h.ahead firing hbefore other hold
      · cases List.mem_singleton.mp hnew
        rw [Prod.lex_def]
        rcases h.sound.least_takeDue hdue hold with hlt | ⟨heq, hle⟩
        · exact .inl hlt
        · exact .inr ⟨heq, Nat.lt_of_le_of_ne hle hid.symm⟩
    · -- the timer itself is due again later
      have hlater := (h.sound.next?_eq_some hmem hnext).1
      rcases List.mem_append.mp hfiring with hbefore | hnew
      · have hahead := h.ahead firing hbefore timer hmem
        rw [Prod.lex_def] at hahead ⊢
        dsimp only at hahead ⊢
        omega
      · cases List.mem_singleton.mp hnew
        exact .left _ _ hlater

theorem step (h : c.Fits log) (hstep : Step c event d) : d.Fits (log ++ [event]) := by
  have hsound := h.sound.step hstep
  cases hstep with
  | timeout delay action => exact h.addTimer hsound rfl rfl rfl
  | interval period action => exact h.addTimer hsound rfl rfl rfl
  | clear id =>
      exact h.quiet hsound (Nat.le_refl _) rfl (List.filter_subset_self _) nofun rfl rfl
  | fire hdue => exact h.fire hdue
  | @arrive limit hnow hlast hdue =>
      refine h.quiet hsound (Nat.le_max_left _ _) rfl (List.Subset.refl _) ?_ rfl rfl
      intro time htime
      cases htime
      exact (Nat.max_eq_right hnow).symm

theorem steps {after : ClockLog} (h : c.Fits log) (hsteps : Steps c after d) :
    d.Fits (log ++ after) := by
  refine hsteps.induct (motive := fun after d => d.Fits (log ++ after)) ?_ ?_
  · rwa [List.append_nil]
  · intro after c₁ event c₂ _ hfits hstep
    rw [← List.append_assoc]
    exact hfits.step hstep

end Fits

/-! ### One timer -/

/-- What a log since a timer was set tells of it: it has fired at the first times of its schedule. -/
inductive Tracks (id : TimerId) (schedule : List Nat) (log : ClockLog) (c : Clock κ) : Prop
  /-- It is pending, and will fire at the others. -/
  | waiting (timer : Timer κ) (hmem : timer ∈ c.timers) (hid : timer.id = id)
      (hschedule : log.firingsOf id ++ timer.schedule = schedule) (hkept : .clear id ∉ log)
  /-- There are no others. -/
  | finished (hgone : c.Gone id) (hschedule : log.firingsOf id = schedule) (hkept : .clear id ∉ log)
  /-- It has been cancelled. -/
  | cancelled (hgone : c.Gone id) (hschedule : log.firingsOf id <+: schedule)
      (hclear : .clear id ∈ log)

namespace Tracks

theorem isPrefix (h : Tracks id schedule log c) : log.firingsOf id <+: schedule := by
  cases h with
  | waiting timer hmem hid hschedule hkept => exact ⟨_, hschedule⟩
  | finished hgone hschedule hkept => exact hschedule ▸ List.prefix_rfl
  | cancelled hgone hschedule hclear => exact hschedule

/-- The timer has fired at those times of its schedule that come before a point at which nothing that
is pending has come up. -/
theorem firingsOf_eq (h : Tracks id schedule log c) {P : Nat → Prop} [DecidablePred P]
    (hfired : ∀ time ∈ log.firingsOf id, P time)
    (hpending : ∀ timer ∈ c.timers, timer.id = id → ∀ time, timer.due ≤ time → ¬ P time)
    (hkept : .clear id ∉ log) : log.firingsOf id = schedule.filter P := by
  have hall : (log.firingsOf id).filter P = log.firingsOf id :=
    List.filter_eq_self.mpr fun time htime => decide_eq_true (hfired time htime)
  cases h with
  | waiting timer hmem hid hschedule _ =>
      have hrest : timer.schedule.filter P = [] := by
        simp only [List.filter_eq_nil_iff, decide_eq_true_eq]
        exact fun time htime => hpending timer hmem hid time (Timer.due_le_of_mem_schedule htime)
      rw [← hschedule, List.filter_append, hall, hrest, List.append_nil]
  | finished hgone hschedule _ => rw [← hschedule, hall]
  | cancelled hgone hschedule hclear => exact (hkept hclear).elim

/-- Something else happens, and leaves the timer as it is. -/
theorem other (h : Tracks id schedule log c) (hfiring : ClockLog.firingsOf [event] id = [])
    (hclear : event ≠ .clear id)
    (htimers : ∀ timer, timer.id = id → (timer ∈ d.timers ↔ timer ∈ c.timers)) :
    Tracks id schedule (log ++ [event]) d := by
  have hsame : ClockLog.firingsOf (log ++ [event]) id = log.firingsOf id := by
    rw [ClockLog.firingsOf_append, hfiring, List.append_nil]
  have hkeep (hkept : .clear id ∉ log) : .clear id ∉ log ++ [event] := by
    simpa [hkept] using hclear.symm
  have hgone (hgone : c.Gone id) : d.Gone id := fun timer htimer hid =>
    hgone timer ((htimers timer hid).mp htimer) hid
  cases h with
  | waiting timer hmem hid hschedule hkept =>
      exact .waiting timer ((htimers timer hid).mpr hmem) hid (by rw [hsame, hschedule]) (hkeep hkept)
  | finished hc hschedule hkept => exact .finished (hgone hc) (hsame.trans hschedule) (hkeep hkept)
  | cancelled hc hschedule hold =>
      exact .cancelled (hgone hc) (by rwa [hsame]) (List.mem_append_left _ hold)

/-- The timer is cancelled. -/
theorem clear (h : Tracks id schedule log c) :
    Tracks id schedule (log ++ [.clear id]) (c.clearTimer id) := by
  have hsame : ClockLog.firingsOf (log ++ [.clear id]) id = log.firingsOf id := by
    rw [ClockLog.firingsOf_append, ClockLog.firingsOf_singleton id rfl, List.append_nil]
  refine .cancelled (fun timer htimer hid => ?_) ?_ (by simp)
  · have hkept := (List.mem_filter.mp htimer).2
    simp [hid] at hkept
  · rw [hsame]
    exact h.isPrefix

/-- The timer fires at the next time of its schedule, and is due again at the one after it. -/
theorem fire (h : Tracks id schedule log c) (hc : c.Sound) {limit : Nat} {timer : Timer κ}
    (hdue : c.takeDue limit = some (timer, d)) (hid : timer.id = id) :
    Tracks id schedule (log ++ [.fire timer.id d.now]) d := by
  obtain ⟨hnow, -, hmem, -⟩ := hc.now_takeDue hdue
  have hfired : ClockLog.firingsOf (log ++ [.fire timer.id d.now]) id
      = log.firingsOf id ++ [timer.due] := by
    simp [hid, hnow]
  cases h with
  | waiting pending hpending hsame hschedule hkept =>
      cases hc.eq_of_id hpending hmem (hsame.trans hid.symm)
      have hkept' : .clear id ∉ log ++ [.fire timer.id d.now] := by
        simpa using hkept
      have hnext := hc.schedule_eq hmem
      cases hagain : timer.next? with
      | some due =>
          have hpending' := (hc.mem_takeDue hdue).mpr (.inr ⟨due, hagain, rfl⟩)
          refine .waiting { timer with due := due } hpending' hid ?_ hkept'
          rw [hagain] at hnext
          rw [hfired, ← hschedule, hnext, List.append_assoc]
          rfl
      | none =>
          refine .finished (fun other hother hsame => ?_) ?_ hkept'
          · rcases (hc.mem_takeDue hdue).mp hother with ⟨-, hne⟩ | ⟨due, hdue, -⟩
            · exact hne (hsame.trans hid.symm)
            · rw [hagain] at hdue
              cases hdue
          · rw [hagain] at hnext
            rw [hfired, ← hschedule, hnext]
  | finished hgone hschedule hkept => exact (hgone timer hmem hid).elim
  | cancelled hgone hschedule hclear => exact (hgone timer hmem hid).elim

theorem step (h : Tracks id schedule log c) (hc : c.Sound) (hid : id < c.nextId)
    (hstep : Step c event d) : Tracks id schedule (log ++ [event]) d := by
  -- a timer that is set has another identity
  have hadd {delay : Nat} {period : Option Nat} {action : κ} (timer : Timer κ)
      (htimer : timer.id = id) :
      timer ∈ (c.addTimer delay period action).2.timers ↔ timer ∈ c.timers := by
    rw [Sound.mem_addTimer]
    constructor
    · rintro (hold | rfl)
      · exact hold
      · exact (Nat.ne_of_gt hid htimer).elim
    · exact .inl
  cases hstep with
  | timeout delay action => exact h.other (ClockLog.firingsOf_singleton id rfl) (by simp) hadd
  | interval period action => exact h.other (ClockLog.firingsOf_singleton id rfl) (by simp) hadd
  | clear cleared =>
      by_cases hsame : cleared = id
      · subst hsame
        exact h.clear
      · refine h.other (ClockLog.firingsOf_singleton id rfl) (by simpa using hsame) fun timer htimer => ?_
        simp [clearTimer, htimer, Ne.symm hsame]
  | @fire _ limit timer hdue =>
      by_cases hsame : timer.id = id
      · exact h.fire hc hdue hsame
      · refine h.other (by simp [hsame]) (by simp) fun other hother => ?_
        rw [hc.mem_takeDue hdue]
        constructor
        · rintro (⟨hold, -⟩ | ⟨due, -, rfl⟩)
          · exact hold
          · exact (hsame hother).elim
        · exact fun hold => .inl ⟨hold, fun heq => hsame (heq.symm.trans hother)⟩
  | arrive hnow hlast hdue =>
      exact h.other (ClockLog.firingsOf_singleton id rfl) (by simp) fun _ _ => .rfl

/-- What is known of a timer when it is set stays known. -/
theorem steps (h : Tracks id schedule [] c) (hc : c.Sound) (hid : id < c.nextId)
    (hsteps : Steps c log d) : Tracks id schedule log d := by
  let motive (log : ClockLog) (d : Clock κ) : Prop :=
    Tracks id schedule log d ∧ d.Sound ∧ id < d.nextId
  have hall : motive log d := by
    refine hsteps.induct (motive := motive) ⟨h, hc, hid⟩ ?_
    intro log c₁ event c₂ _ ⟨htracks, hsound, hlt⟩ hstep
    exact ⟨htracks.step hsound hlt hstep, hsound.step hstep,
      Nat.lt_of_lt_of_le hlt (hstep.nextId_le hsound)⟩
  exact hall.1

end Tracks

/-! ### Delivery -/

/-- A timer that has just been set meets its schedule. -/
theorem Fits.meets {before after : ClockLog} (hfits : c.Fits before) (hid : id < c.nextId)
    (h : Tracks id schedule [] c) (hsteps : Steps c after d) : after.Meets id schedule := by
  refine ⟨(h.steps hfits.sound hid hsteps).isPrefix, ?arrived, ?inOrder⟩
  case arrived =>
    rintro mid rest limit rfl hkept
    obtain ⟨c₁, c₂, hmid, harrive, -⟩ := hsteps.split_at
    have hfits₁ := hfits.steps hmid
    cases harrive with
    | arrive hnow hlast hdue =>
        refine (h.steps hfits.sound hid hmid).firingsOf_eq (fun time htime => ?_) ?_ hkept
        · have hfiring := ClockLog.mem_times_of_firings (ClockLog.mem_firingsOf.mp htime)
          exact Nat.le_trans (hfits₁.shown time (by simp [hfiring])) hnow
        · intro timer htimer _ time htime
          have := takeDue_eq_none_iff.mp hdue timer htimer
          omega
  case inOrder =>
    rintro mid rest other time rfl hkept
    obtain ⟨c₁, c₂, hmid, hfire, -⟩ := hsteps.split_at
    have hfits₁ := hfits.steps hmid
    cases hfire with
    | @fire _ limit timer hdue =>
        obtain ⟨hnow, -, hmem, -⟩ := hfits₁.sound.now_takeDue hdue
        rw [hnow]
        refine (h.steps hfits.sound hid hmid).firingsOf_eq (fun time htime => ?_) ?_ hkept
        · have hahead := hfits₁.ahead (time, id)
            (by simp [ClockLog.mem_firingsOf.mp htime]) timer hmem
          simpa only [Prod.lex_def] using hahead
        · rintro pending hpending rfl time htime (hlt | ⟨rfl, hlt⟩)
          · have := hfits₁.sound.least_takeDue hdue hpending
            omega
          · rcases hfits₁.sound.least_takeDue hdue hpending with hleast | ⟨-, hle⟩
            · omega
            · exact Nat.not_lt.mpr hle hlt

/-- Whatever happens to a clock, its timers are delivered. -/
theorem Steps.delivered {c : Clock κ} (h : Steps {} log c) : log.Delivered := by
  have hall : c.Fits log := Fits.start.steps h
  refine ⟨hall.ascending, hall.forward, hall.distinct, ?isSet, ?timeout, ?interval, ?cleared⟩
  case isSet =>
    rintro before after id time rfl
    obtain ⟨c₁, c₂, hbefore, hfire, -⟩ := h.split_at
    have hfits : c₁.Fits before := Fits.start.steps hbefore
    cases hfire with
    | fire hdue => exact hfits.pending _ (hfits.sound.now_takeDue hdue).2.2.1
  case timeout =>
    rintro before after id time delay rfl
    obtain ⟨c₁, c₂, hbefore, hset, hafter⟩ := h.split_at
    have hfits := (Fits.start.steps hbefore).step hset
    cases hset with
    | timeout _ action =>
        refine hfits.meets (Nat.lt_succ_self _) ?_ hafter
        exact .waiting _ (Sound.mem_addTimer.mpr (.inr rfl)) rfl rfl nofun
  case interval =>
    rintro before after id time period rfl
    obtain ⟨c₁, c₂, hbefore, hset, hafter⟩ := h.split_at
    have hfits := (Fits.start.steps hbefore).step hset
    cases hset with
    | interval _ action =>
        refine hfits.meets (Nat.lt_succ_self _) ?_ hafter
        exact .waiting _ (Sound.mem_addTimer.mpr (.inr rfl)) rfl rfl nofun
  case cleared =>
    rintro before after id rfl hset
    obtain ⟨c₁, c₂, hbefore, hclear, hafter⟩ := h.split_at
    have hfits : c₁.Fits before := Fits.start.steps hbefore
    have hsound := hfits.sound.step hclear
    cases hclear with
    | clear =>
        -- what is gone has nothing left on its schedule
        have hgone : (c₁.clearTimer id).Gone id := fun timer htimer => by
          simpa using (List.mem_filter.mp htimer).2
        have hover : Tracks id [] [] (c₁.clearTimer id) := .finished hgone rfl nofun
        exact List.prefix_nil.mp (hover.steps hsound (hfits.known id hset) hafter).isPrefix

end Clock

end StoryEngine
