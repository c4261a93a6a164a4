import StoryEngine.Proofs.Clock.Delivery
import StoryEngine.Proofs.Play.Advances
/-!
# StoryEngine.Proofs.Play.Delivery

The timers of an engine are delivered (`timers_delivered`), whatever its host does and whatever its
timers run. A log tells what has happened to the clock of an engine since that was made: timers were
set and cancelled, by the host or by what a timer runs, timers fired, and advances arrived (`Logged`).
Only that a timer's callback comes to its end and does not let time pass itself is asked of it. With
a host that never does so from within, all that it can do with an engine is logged, one step after
another.
-/

namespace StoryEngine

variable {η σ : Type} {host : Host η σ}

/-- What has happened to the clock of an engine. Apart from advances anything whatsoever is done to
the engine, but to the clock no more than the calls that are logged. -/
inductive Logged (host : Host η σ) : ClockLog → Engine η σ → Prop
  | start (config : Config) (registry : Registry (Handler η)) (s : σ) :
      Logged host [] (Engine.ofRegistry config registry s)
  | act {log calls : ClockLog} {e e' : Engine η σ} (before : Logged host log e)
      (hcalls : e.clock.Calls calls e'.clock) : Logged host (log ++ calls) e'
  | advance {log fired : ClockLog} {e e' : Engine η σ} (before : Logged host log e) (ms : Nat)
      (hfires : Fires host (Clock.later e.clock.now ms) e fired e') :
      Logged host (log ++ (fired ++ [.arrive (Clock.later e.clock.now ms)]))
        (e'.arrive (Clock.later e.clock.now ms))

/-- Firings are events of the clock, one after another. -/
theorem Fires.steps {limit : Nat} {e e' : Engine η σ} {log : ClockLog}
    (h : Fires host limit e log e') : Clock.Steps e.clock log e'.clock := by
  induction h with
  | done hdue => exact .refl _
  | fire hdue hrun hcalls rest ih => exact .cons (.fire hdue) (hcalls.1.append ih)

/-- The events of a log have led to the clock of the engine. -/
theorem Logged.steps {log : ClockLog} {e : Engine η σ} (h : Logged host log e) :
    Clock.Steps {} log e.clock := by
  induction h with
  | start config registry s => exact .refl _
  | act before hcalls ih => exact ih.append hcalls.1
  | @advance log fired e e' before ms hfires ih =>
      have hlast : e.clock.now ≤ lastTime := (Clock.Fits.start.steps ih).sound.now_le
      have hnow : e'.clock.now ≤ Clock.later e.clock.now ms := by
        have := hfires.now_le
        unfold Clock.later at this ⊢
        omega
      refine ih.append (hfires.steps.append (.single (.arrive hnow ?_ hfires.takeDue_eq_none)))
      exact Clock.later_le_lastTime _ _

/-- Timers are delivered: by every log all timers fire in the order of time and identity, each at the
times of its schedule and at no other ones, which the clock then shows, and in the first advance that
reaches them, but not once it has been cancelled. The log goes on with whatever a host does next that
lets no time pass from within: with the calls that this makes, or with what happens while time
passes. -/
theorem timers_delivered {log : ClockLog} {e : Engine η σ} (h : Logged host log e) :
    log.Delivered ∧ (host.IsTimeless →
      (∀ (α : Type) (X : Perform η σ → Run η σ α) (n : Nat) (r : Except Halt α) (e' : Engine η σ),
        Timeless X → X (perform host n) e = (r, e') →
          ∃ calls, e.clock.Calls calls e'.clock ∧ Logged host (log ++ calls) e') ∧
      ∀ (ms : Nat) (e' : Engine η σ), Passes host ms e e' →
        ∃ fired e₁, Fires host (Clock.later e.clock.now ms) e fired e₁ ∧
          e' = e₁.arrive (Clock.later e.clock.now ms) ∧
          Logged host (log ++ (fired ++ [.arrive (Clock.later e.clock.now ms)])) e') := by
  refine ⟨h.steps.delivered, fun hhost => ⟨fun α X n r e' hX hrun => ?act, fun ms e' hpass => ?pass⟩⟩
  case act =>
    have htends := hX.tends (fun t ht => perform_tends hhost n ht) e
    rw [hrun] at htends
    obtain ⟨calls, hcalls⟩ := htends
    exact ⟨calls, hcalls, h.act hcalls⟩
  case pass =>
    obtain ⟨fired, e₁, hfires, harrive⟩ := (passes_iff hhost).mp hpass
    exact ⟨fired, e₁, hfires, harrive, harrive ▸ h.advance ms hfires⟩

/-- Two timers that are due at the same time, of which the first cancels the second. -/
theorem timers_delivered_at_one_time :
    let host : Host Unit Unit := fun _ _ occasion =>
      match occasion with
      | .timer id => Run.changeClock fun c => c.clearTimer (id + 1)
      | _ => pure ()
    let set : ClockLog := [.timeout 1 0 5, .timeout 2 0 5]
    let fired : ClockLog := [.fire 1 5, .clear 2, .arrive 5]
    host.IsTimeless ∧ ∃ e e', Logged host set e ∧ Passes host 5 e e' ∧
      (∃ fired, Logged host (set ++ fired) e') ∧
      Logged host (set ++ fired) e' ∧ (set ++ fired).Delivered := by
  intro host set fired
  have hhost : host.IsTimeless := by
    intro procedure occasion
    cases occasion with
    | timer id => exact .clearTimer (id + 1)
    | _ => exact .pure ()
  let e₀ : Engine Unit Unit := Engine.ofRegistry {} {} ()
  let e₁ : Engine Unit Unit := { e₀ with clock :=
    { nextId := 3, timers := [⟨1, 5, none, .host ()⟩, ⟨2, 5, none, .host ()⟩] } }
  let e₂ : Engine Unit Unit := { e₀ with clock := { now := 5, nextId := 3, timers := [] } }
  have hset : Logged host set e₁ := by
    have hfirst := Clock.Step.timeout e₀.clock 5 (.host ())
    have hsecond := Clock.Step.timeout (e₀.clock.setTimeout 5 (.host ())).2 5 (.host ())
    exact .act (.start {} {} ()) ((Clock.Calls.single hfirst trivial).append (.single hsecond trivial))
  have hfired : Logged host (set ++ fired) e₂ := by
    -- the second timer is still pending when the callback of the first one starts
    let taken : Clock (TimerAction Unit) :=
      { now := 5, nextId := 3, timers := [⟨2, 5, none, .host ()⟩] }
    have hdue : e₁.clock.takeDue 5 = some (⟨1, 5, none, .host ()⟩, taken) := rfl
    have hrun : Run.reporting (runTimer host (perform host 0) ⟨1, 5, none, .host ()⟩)
        { e₁ with clock := taken } = (.ok (), e₂) := rfl
    have hcalls : taken.Calls [.clear 2] e₂.clock := .single (.clear taken 2) trivial
    exact .advance hset 5 (.fire hdue hrun hcalls (.done rfl))
  have hpasses : Passes host 5 e₁ e₂ := ⟨3, by cbv⟩
  obtain ⟨more, -, -, -, hmore⟩ := ((timers_delivered hset).2 hhost).2 5 e₂ hpasses
  exact ⟨hhost, e₁, e₂, hset, hpasses, ⟨_, hmore⟩, hfired, (timers_delivered hfired).1⟩

end StoryEngine
