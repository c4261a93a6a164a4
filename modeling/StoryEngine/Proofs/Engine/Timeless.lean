import StoryEngine.Proofs.Clock.Log
import StoryEngine.Proofs.Engine.SteadyTasks
/-!
# StoryEngine.Proofs.Engine.Timeless

Work that lets no time pass, whatever the host is. `Timeless X` says that work `X` is made up of what
it does by itself, which sets and cancels timers but leaves the time alone, and of tasks other than
`Task.advance`. All work of the built-in macros is of this kind, and so is what a host does that does
not let time pass from within its procedures (`Host.IsTimeless`, `Steady.timeless`).

Two things follow from how such work is made up. It tends the clock if its tasks do
(`Timeless.tends`). And it finds out nothing about who performs its tasks: it does the same for
anybody who agrees with these on all tasks that return (`Timeless.agrees`).

With a host that lets no time pass from within, all tasks but `Task.advance` are timeless, and so is
what timers, listeners and handlers run. So such a task leaves the time as it is (`perform_tends`),
and what any task does once it has returned does not depend on its fuel (`perform_agrees`).
-/

namespace StoryEngine

variable {η σ α β : Type}

/-! ### What work does with the clock -/

namespace Run

/-- The computation sets and cancels timers, and does nothing else to the clock. -/
def Tends (x : Run η σ α) : Prop :=
  ∀ e : Engine η σ, e.clock.Tends (x e).2.clock

theorem Tends.bind {x : Run η σ α} {f : α → Run η σ β} (hx : Tends x) (hf : ∀ a, Tends (f a)) :
    Tends (x >>= f) := by
  intro e
  have hfirst := hx e
  rw [bind_apply]
  -- also where the first part fails, since what it has done by then is not undone
  rcases hrun : x e with ⟨halt | a, e₁⟩
  · rw [hrun] at hfirst
    exact hfirst
  · rw [hrun] at hfirst
    exact hfirst.trans (hf a e₁)

theorem Tends.attempt {x : Run η σ α} (hx : Tends x) : Tends (attempt x) := by
  intro e
  rw [attempt_snd]
  exact hx e

/-- Of two computations with the same parts, the second does what the first one does if it does so
in each part that returns. -/
theorem bind_agrees {x y : Run η σ α} {f g : α → Run η σ β} {e : Engine η σ}
    (hx : Returned (x e).1 → y e = x e) (hf : ∀ a e, Returned (f a e).1 → g a e = f a e)
    (hr : Returned ((x >>= f) e).1) : (y >>= g) e = (x >>= f) e := by
  rw [bind_apply] at hr
  rcases hrun : x e with ⟨(failure | _) | a, e₁⟩
  · rw [hrun] at hx
    rw [bind_of_error hrun, bind_of_error (hx (returned_failure failure))]
  · rw [hrun] at hr
    exact (hr rfl).elim
  · rw [hrun] at hx hr
    rw [bind_of_ok hrun, bind_of_ok (hx (returned_ok a))]
    exact hf a e₁ hr

theorem attempt_agrees {x y : Run η σ α} {e : Engine η σ} (hx : Returned (x e).1 → y e = x e)
    (hr : Returned (attempt x e).1) : attempt y e = attempt x e := by
  have hreturned : Returned (x e).1 := by
    intro hhalt
    have hrun : x e = (.error .outOfFuel, (x e).2) := Prod.ext hhalt rfl
    rw [attempt_of_halt hrun] at hr
    exact hr rfl
  unfold attempt
  rw [hx hreturned]

end Run

/-! ### Timeless work -/

/-- The second performer does what the first one does, wherever that returns. -/
def Perform.Agrees (p p' : Perform η σ) : Prop :=
  ∀ t e, Returned (p t e).1 → p' t e = p t e

/-- Work that lets no time pass, depending on who performs tasks. -/
inductive Timeless : {α : Type} → (Perform η σ → Run η σ α) → Prop
  /-- What it does by itself. -/
  | own {α : Type} {x : Run η σ α} (hx : x.Tends) : Timeless fun _ => x
  | bind {α β : Type} {X : Perform η σ → Run η σ α} {F : α → Perform η σ → Run η σ β}
      (hX : Timeless X) (hF : ∀ a, Timeless (F a)) : Timeless fun p => X p >>= fun a => F a p
  | attempt {α : Type} {X : Perform η σ → Run η σ α} (hX : Timeless X) :
      Timeless fun p => Run.attempt (X p)
  | task {t : Task} (ht : ∀ ms, t ≠ .advance ms) : Timeless fun p => p t

/-- The procedures of the host let no time pass, on whatever occasion they run. -/
def Host.IsTimeless (host : Host η σ) : Prop :=
  ∀ (procedure : η) (occasion : Occasion η), Timeless fun p => host p procedure occasion

/-- Where there are no procedures, none lets time pass. -/
theorem Host.isTimeless_idle : (Host.idle : Host Empty σ).IsTimeless :=
  fun procedure => procedure.elim

namespace Timeless

/-! ### What follows -/

variable {X : Perform η σ → Run η σ α} {p p' : Perform η σ}

/-- Timeless work tends the clock if those tasks do that it may ask for. -/
theorem tends (hX : Timeless X) (hp : ∀ t, (∀ ms, t ≠ .advance ms) → (p t).Tends) :
    (X p).Tends := by
  induction hX with
  | own hx => exact hx
  | bind _ _ ihX ihF => exact .bind ihX ihF
  | attempt _ ihX => exact .attempt ihX
  | task ht => exact hp _ ht

/-- Timeless work that returns does the same for a performer that agrees. -/
theorem agrees (hX : Timeless X) (hp : p.Agrees p') {e : Engine η σ} (hr : Returned (X p e).1) :
    X p' e = X p e := by
  induction hX generalizing e with
  | own hx => rfl
  | bind _ _ ihX ihF => exact Run.bind_agrees ihX (fun a e => ihF a) hr
  | attempt _ ihX => exact Run.attempt_agrees ihX hr
  | task ht => exact hp _ e hr

/-! ### Rules -/

/-- Work that has nothing to do with the clock. -/
theorem still {x : Run η σ α} (hx : ∀ e : Engine η σ, (x e).2.clock = e.clock) :
    Timeless fun _ => x :=
  .own fun e => .of_eq (hx e)

/-- Work that goes on after work that has nothing to do with the clock. -/
theorem next {x : Run η σ α} {F : α → Perform η σ → Run η σ β}
    (hx : ∀ e : Engine η σ, (x e).2.clock = e.clock) (hF : ∀ a, Timeless (F a)) :
    Timeless fun p => x >>= fun a => F a p :=
  .bind (still hx) hF

theorem pure (a : α) : Timeless fun _ : Perform η σ => (Pure.pure a : Run η σ α) :=
  .still fun _ => rfl

/-- Work that depends on the engine. -/
theorem get {F : Engine η σ → Perform η σ → Run η σ α} (hF : ∀ e, Timeless (F e)) :
    Timeless fun p => MonadState.get >>= fun e => F e p :=
  .next (fun _ => rfl) hF

/-- A timer is set. -/
theorem setTimeout (delay : Nat) (action : TimerAction η) :
    Timeless fun _ : Perform η σ =>
      (Run.withClock fun c => c.setTimeout delay action : Run η σ TimerId) :=
  .own fun e => .setTimeout e.clock delay action

theorem clearTimer (id : TimerId) :
    Timeless fun _ : Perform η σ => (Run.changeClock fun c => c.clearTimer id : Run η σ Unit) :=
  .own fun e => .clearTimer e.clock id

theorem reporting {X : Perform η σ → Run η σ Unit} (hX : Timeless X) :
    Timeless fun p => Run.reporting (X p) := by
  refine .bind (.attempt hX) fun outcome => ?_
  cases outcome with
  | ok u => exact .pure ()
  | error f => exact .still fun _ => rfl

end Timeless

/-! ### Steady work -/

/-- Of what can happen to what is put off, the timers are set and cancelled. -/
theorem TimerStep.tends {terms : Terms η σ} {e e' : Engine η σ} (h : TimerStep terms e e') :
    e.clock.Tends e'.clock := by
  cases h with
  | still h => exact .of_eq (congrArg (·.1.1) h)
  | timeout delay action h => exact .setTimeout e.clock delay action
  | pulse period action h => exact .setInterval e.clock period action
  | clear id h => exact .clearTimer e.clock id
  | interval handler moment delay => exact .setInterval e.clock delay _
  | chain k hitems hnow => exact .setTimeout e.clock _ _
  | clearRepeats => exact .clearTimers e.clock e.repeatTimers
  | clearTimed => exact .clearTimers e.clock e.timedTimers
  | _ => exact .refl e.clock

/-- Steady work is timeless if the procedures of the host are. -/
theorem Steady.timeless {host : Host η σ} (hhost : host.IsTimeless)
    {X : Perform η σ → Run η σ α} (hX : Steady (.unlimited host) X) : Timeless X := by
  induction hX with
  | own hx =>
      refine .own fun e => ?_
      exact (hx e).keeps (I := fun e' => e.clock.Tends e'.clock)
        (fun _ _ hstep hbefore => hbefore.trans hstep.tends) (.refl e.clock)
  | bind _ _ ihX ihF => exact .bind ihX ihF
  | attempt _ ihX => exact .attempt ihX
  | procedure procedure occasion => exact hhost procedure occasion
  | task ht => exact .task ht.ne_advance

variable {host : Host η σ}

/-! ### Timers and events -/

theorem timeless_takeItem (chain : Nat) (id : TimerId) :
    Timeless fun _ : Perform η σ =>
      (Builtin.takeItem chain id : Run η σ (Option (HandlerId × TimedItem))) := by
  refine .next (fun _ => rfl) fun _ => .get fun e => ?_
  cases e.chains[chain]? with
  | none => exact .pure none
  | some c =>
      refine .next (fun _ => rfl) fun stale => ?_
      cases stale with
      | true => exact .pure none
      | false =>
          cases c.items with
          | nil => exact .pure none
          | cons item rest =>
              refine .next (fun _ => rfl) fun _ => ?_
              cases rest with
              | nil => exact .pure _
              | cons next rest =>
                  exact .bind (.bind (.setTimeout _ _) fun _ => .still fun _ => rfl) fun _ => .pure _

theorem timeless_runTimer (hhost : host.IsTimeless) (timer : Timer (TimerAction η)) :
    Timeless fun p => runTimer host p timer := by
  obtain ⟨id, due, period, action⟩ := timer
  cases action with
  | timedStep chain =>
      refine .bind (timeless_takeItem chain id) fun found => ?_
      cases found with
      | none => exact .pure ()
      | some c => exact .task nofun
  | _ => exact Steady.timeless hhost (steady_runTimer trivial (fun _ _ _ _ => trivial) nofun)

theorem timeless_trigger (hhost : host.IsTimeless) (event : Event) (detail : String) :
    Timeless fun p => trigger host p event detail :=
  .get fun _ => .next (fun _ => rfl) fun _ => (steady_callListeners detail fun _ _ _ => trivial).timeless hhost

/-! ### Tasks -/

/-- Whatever is asked of the engine, unless it is to let time pass. -/
theorem timeless_performTask (hhost : host.IsTimeless) (fuel : Nat) {t : Task}
    (ht : ∀ ms, t ≠ .advance ms) : Timeless fun p => performTask host p fuel t := by
  cases t with
  | render out source => exact (steady_renderTask out source).timeless hhost
  | trigger event detail => exact timeless_trigger hhost event detail
  | navigate title => exact (steady_navigate trivial title).timeless hhost
  | invoke handler arg => exact (steady_invokeHandler handler arg).timeless hhost
  | startTyping => exact Builtin.steady_startFirst.timeless hhost
  | advance ms => exact (ht ms rfl).elim

/-- Tasks leave the time as it is, unless they are to let time pass. -/
theorem perform_tends (hhost : host.IsTimeless) (n : Nat) {t : Task}
    (ht : ∀ ms, t ≠ .advance ms) : (perform host n t).Tends := by
  induction n generalizing t with
  | zero => exact fun e => .refl e.clock
  | succ n ih => exact (timeless_performTask hhost n ht).tends fun _ hother => ih hother

/-! ### Firings and fuel -/

theorem fireDue_succ (host : Host η σ) (p : Perform η σ) (limit fuel : Nat)
    (e : Engine η σ) :
    fireDue host p limit (fuel + 1) e =
      match e.clock.takeDue limit with
      | none => (.ok (), e)
      | some (timer, clock) =>
        (Run.reporting (runTimer host p timer) >>= fun _ => fireDue host p limit fuel)
          { e with clock := clock } := by
  rw [fireDue, takeTimer, bind_assoc, Run.get_bind_apply]
  cases e.clock.takeDue limit with
  | none => rfl
  | some found => rfl

/-- The timers that are due fire in the same way, whoever performs what they ask for and however many
may fire. -/
theorem fireDue_agrees (hhost : host.IsTimeless) {p p' : Perform η σ} (hp : p.Agrees p')
    {limit fuel fuel' : Nat} (hfuel : fuel ≤ fuel') {e : Engine η σ}
    (hr : Returned (fireDue host p limit fuel e).1) :
    fireDue host p' limit fuel' e = fireDue host p limit fuel e := by
  induction fuel generalizing fuel' e with
  | zero => exact (hr rfl).elim
  | succ fuel ih =>
      obtain ⟨fuel', rfl⟩ := Nat.exists_eq_add_of_le' (Nat.lt_of_lt_of_le (Nat.succ_pos _) hfuel)
      refine Run.bind_agrees (fun _ => rfl) (fun found e hr => ?_) hr
      cases found with
      | none => rfl
      | some timer =>
          refine Run.bind_agrees (fun hr => ?_) (fun _ e hr => ?_) hr
          · exact (timeless_runTimer hhost timer).reporting.agrees hp hr
          · exact ih (Nat.le_of_succ_le_succ hfuel) hr

theorem advance_agrees (hhost : host.IsTimeless) {p p' : Perform η σ} (hp : p.Agrees p')
    {ms fuel fuel' : Nat} (hfuel : fuel ≤ fuel') {e : Engine η σ}
    (hr : Returned (advance host p fuel ms e).1) :
    advance host p' fuel' ms e = advance host p fuel ms e := by
  refine Run.bind_agrees (fun _ => rfl) (fun e₁ e hr => ?_) hr
  exact Run.bind_agrees (fun hr => fireDue_agrees hhost hp hfuel hr) (fun _ _ _ => rfl) hr

/-- A task that returns does the same with more fuel. -/
theorem perform_agrees (hhost : host.IsTimeless) {n m : Nat} (h : n ≤ m) :
    (perform host n).Agrees (perform host m) := by
  induction n generalizing m with
  | zero => exact fun t e hr => (hr rfl).elim
  | succ n ih =>
      obtain ⟨m, rfl⟩ := Nat.exists_eq_add_of_le' (Nat.lt_of_lt_of_le (Nat.succ_pos _) h)
      have hle : n ≤ m := Nat.le_of_succ_le_succ h
      intro t e hr
      cases t with
      | advance ms => exact advance_agrees hhost (ih hle) hle hr
      | render out source =>
          exact ((steady_renderTask out source).timeless hhost).agrees (ih hle) hr
      | trigger event detail => exact (timeless_trigger hhost event detail).agrees (ih hle) hr
      | navigate title => exact ((steady_navigate trivial title).timeless hhost).agrees (ih hle) hr
      | invoke handler arg =>
          exact ((steady_invokeHandler handler arg).timeless hhost).agrees (ih hle) hr
      | startTyping => exact (Builtin.steady_startFirst.timeless hhost).agrees (ih hle) hr

end StoryEngine
