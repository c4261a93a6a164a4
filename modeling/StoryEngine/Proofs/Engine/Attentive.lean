import StoryEngine.Proofs.Engine.SteadyTasks
import StoryEngine.Proofs.Event.Log
/-!
# StoryEngine.Proofs.Engine.Attentive

Work that deals with listeners in the ways that there are for it, whatever the host is. `Attentive X`
says that work `X` is made up of what it does by itself, which registers listeners and removes those of
a namespace but nothing else to them, and of tasks. All work of the built-in macros is of this kind,
and so is what a host does that goes the same ways (`Host.IsAttentive`, `Steady.attentive`).

Then all that the engine does is of this kind as well: what timers and listeners run, and every task
apart from triggers (`attentive_performTask`), for these call the listeners.
-/

namespace StoryEngine

variable {η σ α β : Type}

/-! ### What work does to listeners -/

namespace Run

/-- The computation registers listeners and removes those of a namespace, and does nothing else to
listeners. -/
def Enrols (x : Run η σ α) : Prop :=
  ∀ e : Engine η σ, ∃ changes : List (Enrolment (ListenerAction η)),
    (x e).2.listeners = changes.foldl Enrolment.apply e.listeners

end Run

/-- Work that is attentive to listeners, depending on who performs tasks. -/
inductive Attentive : {α : Type} → (Perform η σ → Run η σ α) → Prop
  /-- What it does by itself. -/
  | own {α : Type} {x : Run η σ α} (hx : x.Enrols) : Attentive fun _ => x
  | bind {α β : Type} {X : Perform η σ → Run η σ α} {F : α → Perform η σ → Run η σ β}
      (hX : Attentive X) (hF : ∀ a, Attentive (F a)) : Attentive fun p => X p >>= fun a => F a p
  | attempt {α : Type} {X : Perform η σ → Run η σ α} (hX : Attentive X) :
      Attentive fun p => Run.attempt (X p)
  | task (t : Task) : Attentive fun p => p t

/-- The procedures of the host are attentive, on whatever occasion they run. -/
def Host.IsAttentive (host : Host η σ) : Prop :=
  ∀ (procedure : η) (occasion : Occasion η), Attentive fun p => host p procedure occasion

namespace Attentive

/-! ### Rules -/

/-- Work that has nothing to do with listeners. -/
theorem still {x : Run η σ α} (hx : ∀ e : Engine η σ, (x e).2.listeners = e.listeners) :
    Attentive fun _ => x :=
  .own fun e => ⟨[], hx e⟩

/-- Work that goes on after work that has nothing to do with listeners. -/
theorem next {x : Run η σ α} {F : α → Perform η σ → Run η σ β}
    (hx : ∀ e : Engine η σ, (x e).2.listeners = e.listeners) (hF : ∀ a, Attentive (F a)) :
    Attentive fun p => x >>= fun a => F a p :=
  .bind (still hx) hF

theorem pure (a : α) : Attentive fun _ : Perform η σ => (Pure.pure a : Run η σ α) :=
  .still fun _ => rfl

/-- Work that depends on the engine. -/
theorem get {F : Engine η σ → Perform η σ → Run η σ α} (hF : ∀ e, Attentive (F e)) :
    Attentive fun p => MonadState.get >>= fun e => F e p :=
  .next (fun _ => rfl) hF

theorem listen (l : Listener (ListenerAction η)) :
    Attentive fun _ : Perform η σ => (Run.listen l : Run η σ Unit) :=
  .own fun _ => ⟨[.register l], rfl⟩

theorem unlisten (event : Option Event) (name : String) :
    Attentive fun _ : Perform η σ => (Run.unlisten event name : Run η σ Unit) :=
  .own fun _ => ⟨[.off event name], rfl⟩

theorem reporting {X : Perform η σ → Run η σ Unit} (hX : Attentive X) :
    Attentive fun p => Run.reporting (X p) := by
  refine .bind (.attempt hX) fun outcome => ?_
  cases outcome with
  | ok u => exact .pure ()
  | error f => exact .still fun _ => rfl

end Attentive

/-! ### Steady work -/

/-- Of what can happen to what is put off, listeners register and are removed by their namespace. -/
theorem TimerStep.enrols {terms : Terms η σ} {e e' : Engine η σ} (h : TimerStep terms e e') :
    ∃ changes : List (Enrolment (ListenerAction η)),
      e'.listeners = changes.foldl Enrolment.apply e.listeners := by
  cases h with
  | still h => exact ⟨[], congrArg (·.1.2.1) h⟩
  | interval handler moment delay =>
      refine ⟨if e.repeatTimers = [] then [.register repeatsCleaner] else [], ?_⟩
      split <;> rfl
  | chain k hitems hnow =>
      refine ⟨if e.timedTimers = [] then [.register timedCleaner] else [], ?_⟩
      split <;> rfl
  | listen l => exact ⟨[.register l], rfl⟩
  | unlisten event name => exact ⟨[.off event name], rfl⟩
  | _ => exact ⟨[], rfl⟩

/-- Steady work is attentive if the procedures of the host are. -/
theorem Steady.attentive {host : Host η σ} (hhost : host.IsAttentive)
    {X : Perform η σ → Run η σ α} (hX : Steady (.unlimited host) X) : Attentive X := by
  induction hX with
  | own hx =>
      refine .own fun e => ?_
      refine (hx e).keeps (I := fun e' => ∃ changes : List (Enrolment (ListenerAction η)),
        e'.listeners = changes.foldl Enrolment.apply e.listeners) (fun e₁ e₂ hstep hbefore => ?_)
        ⟨[], rfl⟩
      obtain ⟨changes, hchanges⟩ := hbefore
      obtain ⟨more, hmore⟩ := hstep.enrols
      exact ⟨changes ++ more, by rw [hmore, hchanges, List.foldl_append]⟩
  | bind _ _ ihX ihF => exact .bind ihX ihF
  | attempt _ ihX => exact .attempt ihX
  | procedure procedure occasion => exact hhost procedure occasion
  | task => exact .task _

/-! ### Listeners, timers and tasks -/

variable {host : Host η σ}

theorem attentive_runListener (hhost : host.IsAttentive) (detail : String)
    (action : ListenerAction η) : Attentive fun p => runListener host p detail action :=
  (steady_runListener detail fun _ => trivial).attentive hhost

theorem attentive_takeItem (chain : Nat) (id : TimerId) :
    Attentive fun _ : Perform η σ =>
      (Builtin.takeItem chain id : Run η σ (Option (HandlerId × TimedItem))) := by
  refine .next (fun _ => rfl) fun _ => .get fun e => ?_
  cases e.chains[chain]? with
  | none => exact .pure none
  | some c =>
      refine .next (fun _ => rfl) fun stale => ?_
      cases stale with
      | true => exact .pure none
      | false =>
          cases c.items with
          | nil => exact .pure none
          | cons item rest =>
              refine .next (fun _ => rfl) fun _ => ?_
              cases rest with
              | nil => exact .pure _
              | cons next rest => exact .next (fun _ => rfl) fun _ => .pure _

theorem attentive_runTimer (hhost : host.IsAttentive) (timer : Timer (TimerAction η)) :
    Attentive fun p => runTimer host p timer := by
  obtain ⟨id, due, period, action⟩ := timer
  cases action with
  | timedStep chain =>
      refine .bind (attentive_takeItem chain id) fun item => ?_
      cases item with
      | none => exact .pure ()
      | some c => exact .task _
  | _ => exact Steady.attentive hhost (steady_runTimer trivial (fun _ _ _ _ => trivial) nofun)

theorem takeTimer_listeners (limit : Nat) (e : Engine η σ) :
    (takeTimer limit e).2.listeners = e.listeners := by
  rw [takeTimer, Run.get_bind_apply]
  cases e.clock.takeDue limit <;> rfl

theorem attentive_fireDue (hhost : host.IsAttentive) (limit fuel : Nat) :
    Attentive fun p => fireDue host p limit fuel := by
  induction fuel with
  | zero => exact .still fun _ => rfl
  | succ fuel ih =>
      refine .next (takeTimer_listeners limit) fun timer => ?_
      cases timer with
      | none => exact .pure ()
      | some timer => exact .bind (attentive_runTimer hhost timer).reporting fun _ => ih

/-- Whatever is asked of the engine, unless it is to trigger an event. -/
theorem attentive_performTask (hhost : host.IsAttentive) (fuel : Nat) {t : Task}
    (ht : ∀ event detail, t ≠ .trigger event detail) :
    Attentive fun p => performTask host p fuel t := by
  cases t with
  | render out source => exact (steady_renderTask out source).attentive hhost
  | trigger event detail => exact (ht event detail rfl).elim
  | navigate title => exact (steady_navigate trivial title).attentive hhost
  | invoke handler arg => exact (steady_invokeHandler handler arg).attentive hhost
  | startTyping => exact Builtin.steady_startFirst.attentive hhost
  | advance ms =>
      exact .get fun e => .bind (attentive_fireDue hhost _ fuel) fun _ => .still fun _ => rfl

end StoryEngine
