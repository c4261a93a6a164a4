import StoryEngine.Proofs.Engine.Asks
import StoryEngine.Proofs.Engine.Waiting
/-!
# StoryEngine.Proofs.Engine.Stopping

Engines that stop otherwise. `stopping stop` performs tasks as an engine does, but does `stop` where the
macro that ends intervals is called. What is rendered meanwhile executes that macro if it matters what
`stop` is.

Two ways of performing tasks that differ in this alone are related by whatever relation passes from the
parts of some work to the work as a whole (`RenderCongruence` for renders, `SteadyCongruence` for all
tasks that let no time pass), if it holds between the two ways to stop.
-/

namespace StoryEngine

variable {η σ α β : Type}

/-! ### Another way to stop -/

/-- The timer is that of an interval. -/
def TimerAction.isTick : TimerAction η → Bool
  | .repeatTick _ _ => true
  | _ => false

/-- Run what a macro's name stands for, with another way to stop. -/
def runStopping (stop : MacroCall Empty → Run Empty σ Unit) (p : Perform Empty σ)
    (handler : Handler Empty) (context : Context Empty) : Run Empty σ Unit :=
  match handler with
  | .builtin .stop => stop context.call
  | handler => runHandler Host.idle p handler context

/-- Fire the timers that are due by a time, one after another, like `fireDue`. Intervals have `ticks`
perform their tasks, and all others `p`. -/
def fireStopping (p ticks : Perform Empty σ) (limit : Nat) : Nat → Run Empty σ Unit
  | 0 => throw .outOfFuel
  | fuel + 1 => do
    match ← takeTimer limit with
    | none => pure ()
    | some timer => do
      Run.reporting (runTimer Host.idle (if timer.action.isTick then ticks else p) timer)
      fireStopping p ticks limit fuel

/-- Do a task, like `perform`, but stop in another way. Intervals that tick as time passes stop as
ever. -/
def stopping (stop : MacroCall Empty → Run Empty σ Unit) : Nat → Perform Empty σ
  | 0 => fun _ => throw .outOfFuel
  | fuel + 1 => fun t =>
    match t with
    | .render out source => render (runStopping stop (stopping stop fuel)) out source
    | .advance ms => do
      let limit := Clock.later (← get).clock.now ms
      fireStopping (stopping stop fuel) (perform Host.idle fuel) limit fuel
      Run.changeClock fun c => c.setNow limit
    | t => performTask Host.idle (stopping stop fuel) fuel t

theorem runStopping_of_ne_stop (stop : MacroCall Empty → Run Empty σ Unit) (p : Perform Empty σ)
    {b : Builtin} (hb : b ≠ .stop) (context : Context Empty) :
    runStopping stop p (.builtin b) context = runBuiltin p context b := by
  cases b with
  | stop => exact (hb rfl).elim
  | _ => rfl

theorem runStopping_runStop (p : Perform Empty σ) :
    runStopping Builtin.runStop p = runHandler Host.idle p := by
  funext handler context
  cases handler with
  | host procedure => exact procedure.elim
  | builtin b => cases b <;> rfl

theorem fireStopping_same (p : Perform Empty σ) (limit fuel : Nat) :
    fireStopping p p limit fuel = fireDue Host.idle p limit fuel := by
  induction fuel with
  | zero => rfl
  | succ fuel ih =>
      rw [fireStopping, fireDue]
      refine bind_congr fun timer? => ?_
      cases timer? with
      | none => rfl
      | some timer => simp only [ite_self, ih]

/-- An engine that stops as ever performs all tasks as ever. -/
theorem stopping_runStop (n : Nat) :
    (stopping Builtin.runStop n : Perform Empty σ) = perform Host.idle n := by
  induction n with
  | zero => rfl
  | succ n ih =>
      funext t
      cases t with
      | render out source =>
          rw [stopping, runStopping_runStop, ih]
          rfl
      | advance ms =>
          simp only [stopping, ih, fireStopping_same]
          rfl
      | _ =>
          simp only [stopping, ih]
          rfl

/-! ### Renders -/

/-- The relation passes from what a render does by itself, and from the macros that it calls, to the
render. -/
structure RenderCongruence (R : ∀ {α : Type}, Run Empty σ α → Run Empty σ α → Prop) : Prop where
  /-- What a render does by itself is quick and steady. -/
  own {α : Type} {x : Run Empty σ α} (hquick : ∀ place, Quick place x)
    (hsteady : Steady (.idle (fun _ => False) True) fun _ => x) : R x x
  bind {α β : Type} {x y : Run Empty σ α} {f g : α → Run Empty σ β} (hx : R x y)
    (hf : ∀ a, R (f a) (g a)) : R (x >>= f) (y >>= g)
  attempt {α : Type} {x y : Run Empty σ α} (hx : R x y) : R (Run.attempt x) (Run.attempt y)
  deeper {tooDeep x y : Run Empty σ Unit} (hdeep : R tooDeep tooDeep) (hx : R x y) :
    R (StoryEngine.deeper tooDeep x) (StoryEngine.deeper tooDeep y)

namespace RenderCongruence

variable {R : ∀ {α : Type}, Run Empty σ α → Run Empty σ α → Prop}
  {run run' : Handler Empty → Context Empty → Run Empty σ Unit}

theorem pure (hR : RenderCongruence R) (a : α) : R (Pure.pure a) (Pure.pure a) :=
  hR.own (fun _ => .pure a) (.pure a)

theorem get (hR : RenderCongruence R) {f g : Engine Empty σ → Run Empty σ α}
    (hf : ∀ e, R (f e) (g e)) : R (MonadState.get >>= f) (MonadState.get >>= g) :=
  hR.bind (hR.own (fun _ => QuickTo.get.quick) (.still fun _ => rfl)) hf

theorem showError (hR : RenderCongruence R) (out : OutputId) (message source : String) :
    R (StoryEngine.showError out message source) (StoryEngine.showError out message source) :=
  hR.own (fun _ => quick_showError out message source) (.still fun _ => rfl)

section Calls

variable (hrun : ∀ handler context,
  R (inContext context (run handler context)) (inContext context (run' handler context)))
include hrun

theorem callMacro (hR : RenderCongruence R) (out : OutputId) (entry : MacroEntry (Handler Empty))
    (handler : Handler Empty) (tag : Tag) (clauses : List Clause) (source : String) :
    R (callMacro run out entry handler tag clauses source)
      (callMacro run' out entry handler tag clauses source) := by
  refine hR.bind (hR.own (fun _ => (quickTo_openCall out entry tag clauses source).quick)
    (steady_openCall out entry tag clauses source)) fun made => ?_
  cases made with
  | none => exact hR.pure ()
  | some context =>
      refine hR.bind (hR.attempt (hrun handler context)) fun outcome => ?_
      cases outcome with
      | ok u => exact hR.pure ()
      | error f => exact hR.showError _ _ _

theorem renderTag (hR : RenderCongruence R) (out : OutputId) (tag : Tag)
    (following : List Segment) : R (renderTag run out tag following) (renderTag run' out tag following) := by
  refine hR.get fun e => ?_
  dsimp only
  cases e.registry.get? tag.name with
  | none => exact hR.bind (hR.showError _ _ _) fun _ => hR.pure 0
  | some entry =>
      dsimp only
      cases entry.definition.handler with
      | none => exact hR.pure 0
      | some handler =>
          dsimp only
          split
          · cases bodyFrom tag.name entry.definition.childTags 0 (.ofTag tag) 0 following with
            | error e => exact hR.bind (hR.showError _ _ _) fun _ => hR.pure 0
            | ok body => exact hR.bind (callMacro hrun hR ..) fun _ => hR.pure body.next
          · exact hR.bind (callMacro hrun hR ..) fun _ => hR.pure 0

theorem renderSegments (hR : RenderCongruence R) (out : OutputId) (skip : Nat)
    (segments : List Segment) :
    R (renderSegments run out skip segments) (renderSegments run' out skip segments) := by
  induction segments generalizing skip with
  | nil => exact hR.pure ()
  | cons segment rest ih =>
      cases skip with
      | succ skip => exact ih skip
      | zero =>
          refine hR.get fun e => ?_
          split
          · exact hR.pure ()
          · cases segment with
            | text s =>
                refine hR.bind (hR.own (fun _ => ?_) (.still fun _ => rfl)) fun _ => ih 0
                exact .changeTree fun _ _ _ => .pushText _ _
            | tag tag => exact hR.bind (renderTag hrun hR out tag rest) ih

/-- Two renders are related if what they call is. -/
theorem render (hR : RenderCongruence R) (out : OutputId) (source : String) :
    R (render run out source) (render run' out source) :=
  hR.deeper (hR.get fun _ => hR.showError _ _ _) (renderSegments hrun hR out 0 (segmentsOf source))

end Calls

end RenderCongruence

/-! ### All tasks that let no time pass -/

/-- The relation passes from the steps of some work, from the taking of listeners and from the tasks that
it asks for to the work. -/
structure SteadyCongruence (R : ∀ {α : Type}, Run Empty σ α → Run Empty σ α → Prop) : Prop where
  own {α : Type} {x : Run Empty σ α} (hx : x.Steps (.idle (fun _ => False) True)) : R x x
  take (event : Event) : R
    (modify fun e => { e with listeners := (Listener.take e.listeners event).2 })
    (modify fun e => { e with listeners := (Listener.take e.listeners event).2 })
  bind {α β : Type} {x y : Run Empty σ α} {f g : α → Run Empty σ β} (hx : R x y)
    (hf : ∀ a, R (f a) (g a)) : R (x >>= f) (y >>= g)
  attempt {α : Type} {x y : Run Empty σ α} (hx : R x y) : R (Run.attempt x) (Run.attempt y)

namespace SteadyCongruence

variable {R : ∀ {α : Type}, Run Empty σ α → Run Empty σ α → Prop} {p p' : Perform Empty σ}

/-- Work is related if its tasks are. -/
theorem steady (hR : SteadyCongruence R) {X : Perform Empty σ → Run Empty σ α}
    (hX : Steady (.idle (fun _ => False) True) X)
    (hp : ∀ t, (∀ ms, t ≠ .advance ms) → R (p t) (p' t)) : R (X p) (X p') := by
  induction hX with
  | own hx => exact hR.own hx
  | bind _ _ ihX ihF => exact hR.bind ihX ihF
  | attempt _ ihX => exact hR.attempt ihX
  | procedure procedure => exact procedure.elim
  | task ht => exact hp _ ht.ne_advance

theorem same (hR : SteadyCongruence R) {x : Run Empty σ α}
    (hx : Steady (.idle (fun _ => False) True) fun _ => x) : R x x := by
  have hnothing (t : Task) (_ : ∀ ms, t ≠ .advance ms) : R (pure () : Run Empty σ Unit) (pure ()) :=
    hR.own fun _ => .refl
  exact hR.steady hx hnothing

theorem still (hR : SteadyCongruence R) {x : Run Empty σ α}
    (hx : ∀ e : Engine Empty σ, (x e).2.agenda = e.agenda) : R x x :=
  hR.own fun e => .single (.still (hx e))

theorem get (hR : SteadyCongruence R) {f g : Engine Empty σ → Run Empty σ α}
    (hf : ∀ e, R (f e) (g e)) : R (MonadState.get >>= f) (MonadState.get >>= g) :=
  hR.bind (hR.still fun _ => rfl) hf

theorem andFinally (hR : SteadyCongruence R) {x y : Run Empty σ α} (hx : R x y)
    {change : Engine Empty σ → Engine Empty σ} (hchange : ∀ e, (change e).agenda = e.agenda) :
    R (Run.andFinally x change) (Run.andFinally y change) := by
  refine hR.bind (hR.attempt hx) fun outcome => hR.bind (hR.still hchange) fun _ => ?_
  cases outcome with
  | ok a => exact hR.still fun _ => rfl
  | error f => exact hR.still fun _ => rfl

theorem inContext (hR : SteadyCongruence R) (context : Context Empty) {x y : Run Empty σ Unit}
    (hx : R x y) : R (inContext context x) (inContext context y) :=
  hR.get fun _ => hR.bind (hR.still fun _ => rfl) fun _ => hR.andFinally hx fun _ => rfl

theorem renderCongruence (hR : SteadyCongruence R) : RenderCongruence R where
  own _ hsteady := hR.same hsteady
  bind := hR.bind
  attempt := hR.attempt
  deeper {tooDeep x y} hdeep hx := by
    have hdeepen (e : Engine Empty σ) : e.deepen.agenda = e.agenda := by
      unfold Engine.deepen
      split <;> rfl
    rw [deeper_eq, deeper_eq]
    refine hR.get fun e => ?_
    split
    · exact hR.bind (hR.still hdeepen) fun _ => hR.andFinally hx fun _ => rfl
    · exact hdeep

/-- Two ways of performing tasks are related if the two ways to stop are. -/
theorem stopping (hR : SteadyCongruence R) {stop : MacroCall Empty → Run Empty σ Unit}
    (hstop : ∀ call, R (Builtin.runStop call) (stop call)) (n : Nat) {t : Task}
    (ht : ∀ ms, t ≠ .advance ms) : R (perform Host.idle n t) (stopping stop n t) := by
  induction n generalizing t with
  | zero => exact hR.own fun _ => .refl
  | succ n ih =>
      have hwork {X : Perform Empty σ → Run Empty σ Unit}
          (hX : Steady (.idle (fun _ => False) True) X) :
          R (X (perform Host.idle n)) (X (StoryEngine.stopping stop n)) :=
        hR.steady hX fun _ ht => ih ht
      cases t with
      | render out source =>
          refine hR.renderCongruence.render (fun handler context => ?_) out source
          cases handler with
          | host procedure => exact procedure.elim
          | builtin b =>
              by_cases hb : b = .stop
              · subst hb
                exact hR.inContext context (hstop context.call)
              · rw [runStopping_of_ne_stop _ _ hb]
                exact hwork (steady_inContext context (Builtin.steady_runBuiltin context b))
      | trigger event detail =>
          exact hR.get fun e => hR.bind (hR.take event) fun _ =>
            hwork (steady_callListeners detail fun _ _ _ => trivial)
      | navigate title => exact hwork (steady_navigate trivial title)
      | invoke id arg => exact hwork (steady_invokeHandler id arg)
      | startTyping => exact hwork Builtin.steady_startFirst
      | advance ms => exact (ht ms rfl).elim

end SteadyCongruence

end StoryEngine
