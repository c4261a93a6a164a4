import Mathlib
import StoryEngine.Play
import StoryEngine.Proofs.Clock.Sound
import StoryEngine.Proofs.Engine.Timeless
/-!
# StoryEngine.Proofs.Play.Advances

What happens while time passes, whatever the host is as long as it lets no time pass from within. The
timers that are due by a time fire one after another (`Fires`), each with the events of the clock
that its callback brings about; then the clock moves on to that time (`Arrives`). That is what the
engine does on `Task.advance`, if all that happens meanwhile comes to its end (`passes_iff`).

How the host slices time does not matter: to let some time pass and then some more leaves what it
leaves to let both pass at once (`advance_additive`).
-/

namespace StoryEngine

variable {η σ : Type} {host : Host η σ}

/-! ### Firings one after another -/

/-- What an engine becomes when the timers that are due by a time fire, and what happens to its clock
meanwhile: every firing, and after it the calls by what the timer runs. -/
inductive Fires (host : Host η σ) (limit : Nat) : Engine η σ → ClockLog → Engine η σ → Prop
  | done {e : Engine η σ} (hdue : e.clock.takeDue limit = none) : Fires host limit e [] e
  | fire {e e₁ e' : Engine η σ} {timer : Timer (TimerAction η)} {clock : Clock (TimerAction η)}
      {calls log : ClockLog} {n : Nat} (hdue : e.clock.takeDue limit = some (timer, clock))
      (hrun : Run.reporting (runTimer host (perform host n) timer) { e with clock := clock } =
        (.ok (), e₁))
      (hcalls : clock.Calls calls e₁.clock) (rest : Fires host limit e₁ log e') :
      Fires host limit e (.fire timer.id clock.now :: (calls ++ log)) e'

/-- The engine with its clock moved on to a time. -/
def Engine.arrive (e : Engine η σ) (limit : Nat) : Engine η σ :=
  { e with clock := e.clock.setNow limit }

/-- What an engine becomes when the timers that are due by a time fire and the clock moves on to
it. -/
def FiresUntil (host : Host η σ) (limit : Nat) (e e' : Engine η σ) : Prop :=
  ∃ log e₁, Fires host limit e log e₁ ∧ e' = e₁.arrive limit

/-- What an engine becomes when time passes, if all that happens meanwhile comes to its end. There is
no other way to return from it (`perform_advance_eq_ok`). -/
def Passes (host : Host η σ) (ms : Nat) (e e' : Engine η σ) : Prop :=
  ∃ n, perform host n (.advance ms) e = (.ok (), e')

namespace Fires

variable {limit limit' : Nat} {e e₁ e' : Engine η σ} {log log' : ClockLog}

/-- Nothing is due any more when the last timer has fired. -/
theorem takeDue_eq_none (h : Fires host limit e log e') : e'.clock.takeDue limit = none := by
  induction h with
  | done hdue => exact hdue
  | fire hdue hrun hcalls rest ih => exact ih

/-- The clock does not go back, and not beyond the time by which timers are due. -/
theorem now_le (h : Fires host limit e log e') :
    e.clock.now ≤ e'.clock.now ∧ e'.clock.now ≤ max e.clock.now limit := by
  induction h with
  | done hdue => exact ⟨Nat.le_refl _, Nat.le_max_left _ _⟩
  | fire hdue hrun hcalls rest ih =>
      obtain ⟨hnow, -, hlimit⟩ := Clock.now_of_takeDue hdue
      rw [hcalls.now_eq, hnow] at ih
      omega

/-- On the way to a time the engine comes by every earlier one. -/
theorem split (h : Fires host limit' e log e') (hle : limit ≤ limit') :
    ∃ e₁ before after, Fires host limit e before e₁ ∧ Fires host limit' e₁ after e' := by
  induction h with
  | @done e hdue =>
      refine ⟨e, [], [], .done ?_, .done hdue⟩
      rw [Clock.takeDue_eq_none_iff] at hdue ⊢
      exact fun timer htimer => Nat.lt_of_le_of_lt hle (hdue timer htimer)
  | @fire e e₁ e' timer clock calls log n hdue hrun hcalls rest ih =>
      cases hearly : e.clock.takeDue limit with
      | none => exact ⟨e, [], _, .done hearly, .fire hdue hrun hcalls rest⟩
      | some taken =>
          cases Option.some.inj ((Clock.takeDue_mono hle hearly).symm.trans hdue)
          obtain ⟨e₂, before, after, hbefore, hafter⟩ := ih
          exact ⟨e₂, _, after, .fire hearly hrun hcalls hbefore, hafter⟩

/-- The engine goes on from a time that is on its way. -/
theorem join (h : Fires host limit e log e₁) (hle : limit ≤ limit')
    (h₁ : Fires host limit' e₁ log' e') : ∃ both, Fires host limit' e both e' := by
  induction h with
  | done hdue => exact ⟨log', h₁⟩
  | fire hdue hrun hcalls rest ih =>
      obtain ⟨both, hboth⟩ := ih h₁
      exact ⟨_, .fire (Clock.takeDue_mono hle hdue) hrun hcalls hboth⟩

end Fires

/-- That the clock has been moved to a time by which nothing is due does not matter later. -/
theorem firesUntil_arrive {limit limit' : Nat} {e e' : Engine η σ} (hle : limit ≤ limit')
    (hdue : e.clock.takeDue limit = none) :
    FiresUntil host limit' (e.arrive limit) e' ↔ FiresUntil host limit' e e' := by
  have htake : (e.arrive limit).clock.takeDue limit' = e.clock.takeDue limit' :=
    Clock.takeDue_setNow hdue limit'
  have hset : (e.arrive limit).arrive limit' = e.arrive limit' := by
    simp [Engine.arrive, Clock.setNow, Nat.max_assoc, Nat.max_eq_right hle]
  constructor
  · rintro ⟨log, e₁, hfires, rfl⟩
    cases hfires with
    | done hnone => exact ⟨[], e, .done (htake.symm.trans hnone), hset⟩
    | fire hsome hrun hcalls rest =>
        exact ⟨_, e₁, .fire (htake.symm.trans hsome) hrun hcalls rest, rfl⟩
  · rintro ⟨log, e₁, hfires, rfl⟩
    cases hfires with
    | done hnone => exact ⟨[], _, .done (htake.trans hnone), hset.symm⟩
    | fire hsome hrun hcalls rest =>
        exact ⟨_, e₁, .fire (htake.trans hsome) hrun hcalls rest, rfl⟩

/-! ### What the engine does -/

/-- The timers that fire when the engine fires those that are due. -/
theorem fires_of_fireDue (hhost : host.IsTimeless) {n limit fuel : Nat} {e e' : Engine η σ}
    (h : fireDue host (perform host n) limit fuel e = (.ok (), e')) :
    ∃ log, Fires host limit e log e' := by
  induction fuel generalizing e with
  | zero => cases h
  | succ fuel ih =>
      rw [fireDue_succ] at h
      cases hdue : e.clock.takeDue limit with
      | none =>
          rw [hdue] at h
          cases h
          exact ⟨[], .done hdue⟩
      | some taken =>
          obtain ⟨timer, clock⟩ := taken
          rw [hdue] at h
          obtain ⟨u, e₁, hrun, hrest⟩ := Run.bind_eq_ok h
          obtain ⟨log, hlog⟩ := ih hrest
          have htends := (timeless_runTimer hhost timer).reporting.tends
            (fun t ht => perform_tends hhost n ht) { e with clock := clock }
          rw [hrun] at htends
          obtain ⟨calls, hcalls⟩ := htends
          exact ⟨_, .fire hdue hrun hcalls hlog⟩

/-- With enough fuel, the engine fires the timers that are due. -/
theorem fireDue_of_fires (hhost : host.IsTimeless) {limit : Nat} {e e' : Engine η σ}
    {log : ClockLog} (h : Fires host limit e log e') :
    ∃ n, ∀ m fuel, n ≤ m → n ≤ fuel →
      fireDue host (perform host m) limit fuel e = (.ok (), e') := by
  induction h with
  | done hdue =>
      refine ⟨1, fun m fuel _ hfuel => ?_⟩
      obtain ⟨fuel, rfl⟩ := Nat.exists_eq_add_of_le' hfuel
      rw [fireDue_succ, hdue]
  | @fire e e₁ e' timer clock calls log n hdue hrun hcalls rest ih =>
      obtain ⟨n', hrest⟩ := ih
      refine ⟨max n (n' + 1), fun m fuel hm hfuel => ?_⟩
      obtain ⟨fuel, rfl⟩ : ∃ k, fuel = k + 1 := Nat.exists_eq_add_of_le' (by omega)
      have hmore : Run.reporting (runTimer host (perform host m) timer) { e with clock := clock }
          = (.ok (), e₁) := by
        rw [← hrun]
        refine (timeless_runTimer hhost timer).reporting.agrees (perform_agrees hhost (by omega)) ?_
        rw [hrun]
        exact returned_ok ()
      rw [fireDue_succ, hdue]
      dsimp only
      rw [Run.bind_of_ok hmore]
      exact hrest m fuel (by omega) (by omega)

/-- Timers that fire do not fail: what fails meanwhile is noted. -/
theorem fireDue_eq_ok {p : Perform η σ} {limit fuel : Nat} {e e' : Engine η σ}
    {r : Except Halt Unit} (h : fireDue host p limit fuel e = (r, e')) (hr : Returned r) :
    r = .ok () := by
  induction fuel generalizing e with
  | zero =>
      cases h
      exact (hr rfl).elim
  | succ fuel ih =>
      rw [fireDue_succ] at h
      cases hdue : e.clock.takeDue limit with
      | none =>
          rw [hdue] at h
          cases h
          rfl
      | some taken =>
          rw [hdue] at h
          rcases Run.bind_returned h hr with ⟨u, e₁, -, hrest⟩ | ⟨f, hrun, -⟩
          · exact ih hrest
          · cases Run.reporting_eq_ok hrun (returned_failure f)

/-- To let time pass does not fail. -/
theorem perform_advance_eq_ok {n ms : Nat} {e e' : Engine η σ} {r : Except Halt Unit}
    (h : perform host n (.advance ms) e = (r, e')) (hr : Returned r) : r = .ok () := by
  cases n with
  | zero =>
      cases h
      exact (hr rfl).elim
  | succ n =>
      change advance host (perform host n) n ms e = (r, e') at h
      rw [advance, Run.get_bind_apply] at h
      rcases Run.bind_returned h hr with ⟨u, e₁, -, harrive⟩ | ⟨f, hfire, -⟩
      · cases harrive
        rfl
      · cases fireDue_eq_ok hfire (returned_failure f)

/-- When time passes, the timers that are due by then fire and the clock moves on. -/
theorem passes_iff (hhost : host.IsTimeless) {ms : Nat} {e e' : Engine η σ} :
    Passes host ms e e' ↔ FiresUntil host (Clock.later e.clock.now ms) e e' := by
  constructor
  · rintro ⟨n, h⟩
    cases n with
    | zero => cases h
    | succ n =>
        change advance host (perform host n) n ms e = (.ok (), e') at h
        rw [advance, Run.get_bind_apply] at h
        obtain ⟨u, e₁, hfire, harrive⟩ := Run.bind_eq_ok h
        obtain ⟨log, hlog⟩ := fires_of_fireDue hhost hfire
        cases harrive
        exact ⟨log, e₁, hlog, rfl⟩
  · rintro ⟨log, e₁, hfires, rfl⟩
    obtain ⟨n, hfire⟩ := fireDue_of_fires hhost hfires
    refine ⟨n + 1, ?_⟩
    show advance host (perform host n) n ms e = _
    rw [advance, Run.get_bind_apply, Run.bind_of_ok (hfire n n (Nat.le_refl n) (Nat.le_refl n))]
    rfl

/-! ### Slices of time -/

/-- To let time pass and then some more leaves what it leaves to let both pass at once, for every
engine and every host that lets no time pass from within: the one comes to its end exactly if the
other does, and the engines are the same. Times beyond the last are the last. -/
theorem advance_additive (hhost : host.IsTimeless) (a b : Nat) (e e' : Engine η σ) :
    (∃ e₁, Passes host a e e₁ ∧ Passes host b e₁ e') ↔
      Passes host (min (a + b) lastTime) e e' := by
  have hle : Clock.later e.clock.now a ≤ Clock.later e.clock.now (min (a + b) lastTime) := by
    unfold Clock.later
    omega
  -- wherever the first slice ends, the second one ends where both do
  have hboth {log : ClockLog} {e₁ : Engine η σ}
      (h : Fires host (Clock.later e.clock.now a) e log e₁) :
      Passes host b (e₁.arrive (Clock.later e.clock.now a)) e' ↔
        FiresUntil host (Clock.later e.clock.now (min (a + b) lastTime)) e₁ e' := by
    have hnow := h.now_le
    have hlimit : Clock.later (e₁.arrive (Clock.later e.clock.now a)).clock.now b
        = Clock.later e.clock.now (min (a + b) lastTime) := by
      show Clock.later (max e₁.clock.now (Clock.later e.clock.now a)) b = _
      unfold Clock.later at hnow ⊢
      omega
    rw [passes_iff hhost, hlimit, firesUntil_arrive hle h.takeDue_eq_none]
  constructor
  · rintro ⟨e₁, hfirst, hsecond⟩
    obtain ⟨log, e₂, hfires, rfl⟩ := (passes_iff hhost).mp hfirst
    obtain ⟨log', e₃, hfires', rfl⟩ := (hboth hfires).mp hsecond
    obtain ⟨both, hjoin⟩ := hfires.join hle hfires'
    exact (passes_iff hhost).mpr ⟨both, e₃, hjoin, rfl⟩
  · intro h
    obtain ⟨log, e₃, hfires, rfl⟩ := (passes_iff hhost).mp h
    obtain ⟨e₂, before, after, hbefore, hafter⟩ := hfires.split hle
    refine ⟨e₂.arrive (Clock.later e.clock.now a), (passes_iff hhost).mpr ⟨_, e₂, hbefore, rfl⟩, ?_⟩
    exact (hboth hbefore).mpr ⟨after, e₃, hafter, rfl⟩

/-- A timer whose procedure sets the next one: time is cut where the first of them is due. -/
theorem advance_additive_on_due_time :
    let host : Host Unit Unit := fun _ _ occasion =>
      match occasion with
      | .timer _ => do let _ ← Run.withClock fun c => c.setTimeout 3 (.host ())
      | _ => pure ()
    let e : Engine Unit Unit :=
      { Engine.ofRegistry {} {} () with clock := (Clock.setTimeout {} 2 (.host ())).2 }
    let e' : Engine Unit Unit := { e with
      clock := { now := 6, nextId := 4, timers := [⟨3, 8, none, .host ()⟩] } }
    host.IsTimeless ∧ Passes host 6 e e' ∧ ∃ e₁, Passes host 2 e e₁ ∧ Passes host 4 e₁ e' := by
  intro host e e'
  have hhost : host.IsTimeless := by
    intro procedure occasion
    cases occasion with
    | timer id => exact .bind (.setTimeout 3 _) fun _ => .pure ()
    | _ => exact .pure ()
  have hsum : min (2 + 4) lastTime = 6 := by decide
  have hsix : Passes host 6 e e' := ⟨4, by cbv⟩
  refine ⟨hhost, hsix, (advance_additive hhost 2 4 e e').mpr ?_⟩
  rw [hsum]
  exact hsix

end StoryEngine
