import StoryEngine.Engine.Perform
import StoryEngine.Proofs.Engine.Quick
import StoryEngine.Proofs.Engine.Shadow
/-!
# StoryEngine.Proofs.Engine.Steady

What the work of an engine is made up of, as far as what it puts off is concerned. `TimerStep` says
once what can happen to this apart from events and firings: which timers are set and cancelled, which
listeners come and go with them, which timers are tracked, what chains of clauses and handlers are
made, and when the player moves on. `Steady X` says that work `X` is made up of such steps, of tasks
other than to let time pass, and of procedures of the host. All work of the built-in macros is of this
kind.

Not all work may do everything: only what a timer runs cancels that timer by its identity, and only
what is called when the player moves on cancels all that is tracked. Steps and work therefore depend on
`Terms`, which say whether that may happen.

So what every step keeps is kept by all work (`Steady.keeps`), whoever performs the tasks.
-/

namespace StoryEngine

open Relation

variable {η σ α β : Type}

/-! ### Steps -/

/-- Intervals and chains of clauses are tracked, so that they can be cancelled when the player moves
on. -/
def TimerAction.isTracked : TimerAction η → Bool
  | .repeatTick _ _ => true
  | .timedStep _ => true
  | _ => false

/-- The listener that cancels all intervals when the player moves on. -/
def repeatsCleaner : Listener (ListenerAction η) :=
  ⟨.passageInit, none, true, .clearRepeats⟩

/-- The listener that cancels all chains of clauses when the player moves on. -/
def timedCleaner : Listener (ListenerAction η) :=
  ⟨.passageInit, none, true, .clearTimed⟩

/-- The listener cancels all that is tracked of a kind. -/
def ListenerAction.cancels : ListenerAction η → Bool
  | .clearRepeats => true
  | .clearTimed => true
  | _ => false

/-- Timers, listeners, and the timers that are tracked: intervals and chains of clauses. -/
def Engine.timing (e : Engine η σ) :
    Clock (TimerAction η) × List (Listener (ListenerAction η)) × List TimerId × List TimerId :=
  (e.clock, e.listeners, e.repeatTimers, e.timedTimers)

/-- What a handler runs, whatever values it remembers. -/
def ShadowHandler.parts (h : ShadowHandler η) :
    Option (Callback η) × Option (Callback η) × Option (Callback η) :=
  (h.start, h.callback, h.done)

/-- What is put off, and what it depends on: with the timers and listeners, the chains of clauses, what
the handlers run, the interval that is ticking, and the moment. -/
def Engine.agenda (e : Engine η σ) :=
  (e.timing, e.chains, e.handlers.map ShadowHandler.parts, e.repeatTimer,
    (⟨e.state.passage, e.state.turns⟩ : Moment))

/-- What work may do. -/
structure Terms (η σ : Type) where
  host : Host η σ
  /-- The timers that it may cancel, other than the interval that is ticking. -/
  clears : TimerId → Prop := fun _ => True
  /-- The player moves on, so all that is tracked is cancelled. -/
  endsTurn : Prop := True

/-- Work may do whatever it likes. -/
abbrev Terms.unlimited (host : Host η σ) : Terms η σ := { host := host }

/-- The tasks that work may ask for. Time is not to pass meanwhile, and a clause of a chain is rendered
only when it is due. -/
def Terms.Asks (terms : Terms η σ) : Task → Prop
  | .advance _ => False
  | .invoke _ (.item _) => False
  | .trigger .passageInit _ => terms.endsTurn
  | _ => True

theorem Terms.Asks.ne_advance {terms : Terms η σ} {t : Task} (h : terms.Asks t) (ms : Nat) :
    t ≠ .advance ms := by
  rintro rfl
  exact h

theorem Clock.isPending_clearTimer {κ : Type} (c : Clock κ) (id : TimerId) :
    (c.clearTimer id).isPending id = false := by
  simp [Clock.isPending, Clock.clearTimer]

/-- What can happen to what is put off in one step. -/
inductive TimerStep (terms : Terms η σ) (e : Engine η σ) : Engine η σ → Prop
  /-- Nothing happens to it. -/
  | still {e' : Engine η σ} (h : e'.agenda = e.agenda) : TimerStep terms e e'
  /-- A timer is set that is not to be tracked. -/
  | timeout (delay : Nat) (action : TimerAction η) (h : action.isTracked = false) :
      TimerStep terms e { e with clock := (e.clock.setTimeout delay action).2 }
  /-- A timer is set that fires again and again and is not to be tracked. -/
  | pulse (period : Nat) (action : TimerAction η) (h : action.isTracked = false) :
      TimerStep terms e { e with clock := (e.clock.setInterval period action).2 }
  | clear (id : TimerId) (h : e.repeatTimer = some id ∨ terms.clears id) :
      TimerStep terms e { e with clock := e.clock.clearTimer id }
  /-- An interval is set. The first one comes with a listener. -/
  | interval (handler : HandlerId) (moment : Moment) (delay : Nat) :
      TimerStep terms e { e with
        clock := (e.clock.setInterval delay (.repeatTick handler moment)).2
        repeatTimers := e.repeatTimers ++ [e.clock.nextId]
        listeners := if e.repeatTimers = [] then e.listeners ++ [repeatsCleaner] else e.listeners }
  /-- A chain of clauses is made, and a timer is set for the first of them. The first chain comes with a
  listener. -/
  | chain (k : TimedChain) {first : TimedItem} {rest : List TimedItem}
      (hitems : k.items = first :: rest) (hnow : k.moment = ⟨e.state.passage, e.state.turns⟩) :
      TimerStep terms e { e with
        chains := e.chains.push k
        clock := (e.clock.setTimeout first.delay (.timedStep e.chains.size)).2
        timedTimers := e.timedTimers ++ [e.clock.nextId]
        listeners := if e.timedTimers = [] then e.listeners ++ [timedCleaner] else e.listeners }
  /-- A timer that is gone is no longer tracked as an interval. -/
  | forgetRepeat (id : TimerId) (h : e.clock.isPending id = false) :
      TimerStep terms e { e with repeatTimers := e.repeatTimers.filter (· ≠ id) }
  /-- A timer that is gone is no longer tracked as a chain. -/
  | forgetTimed (id : TimerId) (h : e.clock.isPending id = false) :
      TimerStep terms e { e with timedTimers := e.timedTimers.filter (· ≠ id) }
  /-- All intervals are cancelled. -/
  | clearRepeats (h : terms.endsTurn) :
      TimerStep terms e { e with clock := e.clock.clearTimers e.repeatTimers, repeatTimers := [] }
  /-- All chains are cancelled. -/
  | clearTimed (h : terms.endsTurn) :
      TimerStep terms e { e with clock := e.clock.clearTimers e.timedTimers, timedTimers := [] }
  /-- A listener registers that cancels nothing. -/
  | listen (l : Listener (ListenerAction η))
      (h : l.event = .passageInit → l.action = .dropTyping) (hcancels : l.action.cancels = false) :
      TimerStep terms e { e with listeners := e.listeners ++ [l] }
  /-- The listeners of a namespace are removed. -/
  | unlisten (event : Option Event) (name : String) :
      TimerStep terms e { e with listeners := Listener.off e.listeners event name }
  /-- A handler is made. -/
  | handler (h : ShadowHandler η) : TimerStep terms e { e with handlers := e.handlers.push h }
  /-- Another interval is ticking, or none. -/
  | tick (timer : Option TimerId) (h : ∀ id, timer = some id → terms.clears id) :
      TimerStep terms e { e with repeatTimer := timer }
  /-- The player moves on. -/
  | turn (title : String) : TimerStep terms e (e.beginTurn title)

/-- What can happen to what is put off, in any number of steps. -/
abbrev TimerSteps (terms : Terms η σ) : Engine η σ → Engine η σ → Prop :=
  ReflTransGen (TimerStep terms)

variable {terms : Terms η σ}

/-- What every step keeps is kept by any number of them. -/
theorem TimerSteps.keeps {I : Engine η σ → Prop} {e e' : Engine η σ} (h : TimerSteps terms e e')
    (hsteps : ∀ e e', TimerStep terms e e' → I e → I e') (he : I e) : I e' := by
  induction h with
  | refl => exact he
  | tail _ hstep ih => exact hsteps _ _ hstep ih

namespace Run

/-- What is put off changes step by step. -/
def Steps (terms : Terms η σ) (x : Run η σ α) : Prop :=
  ∀ e : Engine η σ, TimerSteps terms e (x e).2

/-- In the engine the second computation does what the first one does, and if the first one returns,
the engine then has the property. -/
def AlikeAt (I : Engine η σ → Prop) (x y : Run η σ α) (e : Engine η σ) : Prop :=
  y e = x e ∧ (Returned (x e).1 → I (x e).2)

/-- In engines with the property the second computation does what the first one does, and the
property lasts, if the first one returns. -/
def AlikeIn (I : Engine η σ → Prop) (x y : Run η σ α) : Prop :=
  ∀ e, I e → x.AlikeAt I y e

variable {I : Engine η σ → Prop}

theorem AlikeAt.bind {x y : Run η σ α} {f g : α → Run η σ β} {e : Engine η σ}
    (hx : x.AlikeAt I y e) (hf : ∀ a, (f a).AlikeIn I (g a)) : (x >>= f).AlikeAt I (y >>= g) e := by
  obtain ⟨heq, hkeeps⟩ := hx
  rcases hrun : x e with ⟨halt | a, e₁⟩
  · rw [hrun] at hkeeps
    rw [AlikeAt, bind_of_error hrun, bind_of_error (heq.trans hrun)]
    exact ⟨rfl, fun hr => hkeeps fun hhalt => hr (by cases hhalt; rfl)⟩
  · rw [hrun] at hkeeps
    rw [AlikeAt, bind_of_ok hrun, bind_of_ok (heq.trans hrun)]
    exact hf a e₁ (hkeeps (returned_ok a))

theorem AlikeAt.attempt {x y : Run η σ α} {e : Engine η σ} (hx : x.AlikeAt I y e) :
    (attempt x).AlikeAt I (attempt y) e := by
  obtain ⟨heq, hkeeps⟩ := hx
  refine ⟨?_, fun hr => ?_⟩
  · unfold Run.attempt
    rw [heq]
  · rw [attempt_snd]
    refine hkeeps fun hhalt => ?_
    rw [attempt_of_halt (Prod.ext hhalt rfl : x e = (.error .outOfFuel, (x e).2))] at hr
    exact hr rfl

theorem AlikeIn.bind {x y : Run η σ α} {f g : α → Run η σ β} (hx : x.AlikeIn I y)
    (hf : ∀ a, (f a).AlikeIn I (g a)) : (x >>= f).AlikeIn I (y >>= g) :=
  fun e he => (hx e he).bind hf

/-- What does the same for everybody is alike where it keeps the property. -/
theorem AlikeIn.own {x : Run η σ α} (hx : ∀ e, I e → I (x e).2) : x.AlikeIn I x :=
  fun e he => ⟨rfl, fun _ => hx e he⟩

theorem AlikeAt.reporting {x y : Run η σ Unit} {e : Engine η σ}
    (hreport : ∀ f e, I e → I (report f e).2) (hx : x.AlikeAt I y e) :
    (reporting x).AlikeAt I (reporting y) e := by
  refine .bind hx.attempt fun outcome => ?_
  cases outcome with
  | ok u => exact .own fun _ he => he
  | error f => exact .own (hreport f)

end Run

/-! ### Work -/

/-- What the work of an engine is made up of, depending on who performs tasks. -/
inductive Steady (terms : Terms η σ) : {α : Type} → (Perform η σ → Run η σ α) → Prop
  /-- What it does by itself. -/
  | own {α : Type} {x : Run η σ α} (hx : x.Steps terms) : Steady terms fun _ => x
  | bind {α β : Type} {X : Perform η σ → Run η σ α} {F : α → Perform η σ → Run η σ β}
      (hX : Steady terms X) (hF : ∀ a, Steady terms (F a)) :
      Steady terms fun p => X p >>= fun a => F a p
  | attempt {α : Type} {X : Perform η σ → Run η σ α} (hX : Steady terms X) :
      Steady terms fun p => Run.attempt (X p)
  /-- A procedure of the host runs. -/
  | procedure (procedure : η) (occasion : Occasion η) :
      Steady terms fun p => terms.host p procedure occasion
  | task {t : Task} (ht : terms.Asks t) : Steady terms fun p => p t

namespace Steady

/-- What all steps keep is kept by work, whoever performs its tasks, if the tasks keep it. The built-in
macros have no procedures of a host to run. -/
theorem keeps {I : Engine Empty σ → Prop} {X : Perform Empty σ → Run Empty σ α}
    {terms : Terms Empty σ} {p p' : Perform Empty σ}
    (hsteps : ∀ e e', TimerStep terms e e' → I e → I e') (hX : Steady terms X)
    (hp : ∀ t, terms.Asks t → (p t).AlikeIn I (p' t)) :
    (X p).AlikeIn I (X p') := by
  induction hX with
  | own hx => exact .own fun e he => (hx e).keeps hsteps he
  | bind _ _ ihX ihF => exact .bind ihX ihF
  | attempt _ ihX => exact fun e he => (ihX e he).attempt
  | procedure procedure => exact procedure.elim
  | task ht => exact hp _ ht

/-! ### Rules -/

/-- Other values of variables have nothing to do with what is put off. -/
theorem agenda_of_reassigned {e : Engine η σ} {s : State} (h : e.state.Reassigned s) :
    Engine.agenda { e with state := s } = e.agenda := by
  simp only [Engine.agenda, h.passage, h.turns]
  rfl

/-- Work that has nothing to do with what is put off. -/
theorem still {x : Run η σ α} (hx : ∀ e : Engine η σ, (x e).2.agenda = e.agenda) :
    Steady terms fun _ => x :=
  .own fun e => .single (.still (hx e))

/-- Work that goes on after work that has nothing to do with what is put off. -/
theorem next {x : Run η σ α} {F : α → Perform η σ → Run η σ β}
    (hx : ∀ e : Engine η σ, (x e).2.agenda = e.agenda) (hF : ∀ a, Steady terms (F a)) :
    Steady terms fun p => x >>= fun a => F a p :=
  .bind (still hx) hF

theorem pure (a : α) : Steady terms fun _ : Perform η σ => (Pure.pure a : Run η σ α) :=
  .still fun _ => rfl

theorem fail (f : Failure) : Steady terms fun _ : Perform η σ => (Run.fail f : Run η σ α) :=
  .still fun _ => rfl

/-- Work that depends on the engine. -/
theorem get {F : Engine η σ → Perform η σ → Run η σ α} (hF : ∀ e, Steady terms (F e)) :
    Steady terms fun p => MonadState.get >>= fun e => F e p :=
  .next (fun _ => rfl) hF

theorem ite {c : Prop} [Decidable c] {X Y : Perform η σ → Run η σ α} (hX : Steady terms X)
    (hY : Steady terms Y) : Steady terms fun p => if c then X p else Y p := by
  by_cases h : c
  · simp only [h, if_true]
    exact hX
  · simp only [h, if_false]
    exact hY

/-- Work that is done on a condition only, before other work. -/
theorem nextWhen {c : Prop} [Decidable c] {X : Perform η σ → Run η σ Unit}
    {F : Unit → Perform η σ → Run η σ α} (hX : Steady terms X) (hF : Steady terms (F ())) :
    Steady terms fun p => if c then X p >>= fun u => F u p else F () p :=
  .ite (.bind hX fun _ => hF) hF

/-- Variables are given other values. -/
theorem changingState {change : State → Except InvalidVariable State}
    (hchange : ∀ s t, change s = .ok t → s.Reassigned t) :
    Steady terms fun _ : Perform η σ => (Run.changingState change : Run η σ Unit) := by
  refine .still fun e => ?_
  rw [Run.changingState, Run.get_bind_apply]
  cases h : change e.state with
  | error error => rfl
  | ok state => exact agenda_of_reassigned (hchange _ _ h)

/-- An expression is evaluated. -/
theorem evaluating {x : Evaluation α} (hx : Reassigns x) :
    Steady terms fun _ : Perform η σ => (Run.evaluating x : Run η σ (Except ExprError α)) :=
  .still fun e => agenda_of_reassigned (hx e.state)

/-- Arguments are read. -/
theorem reading {x : ArgumentReading α} (hx : Reassigns x) :
    Steady terms fun _ : Perform η σ => (Run.reading x : Run η σ (Except ArgumentError α)) :=
  .still fun e => agenda_of_reassigned (hx e.state)

/-- A timer is set that is not to be tracked. -/
theorem setTimeout (delay : Nat) {action : TimerAction η} (h : action.isTracked = false) :
    Steady terms fun _ : Perform η σ =>
      (Run.withClock fun c => c.setTimeout delay action : Run η σ TimerId) :=
  .own fun _ => .single (.timeout delay action h)

theorem setInterval (period : Nat) {action : TimerAction η} (h : action.isTracked = false) :
    Steady terms fun _ : Perform η σ =>
      (Run.withClock fun c => c.setInterval period action : Run η σ TimerId) :=
  .own fun _ => .single (.pulse period action h)

theorem clearTimer {id : TimerId} (h : terms.clears id) :
    Steady terms fun _ : Perform η σ => (Run.changeClock fun c => c.clearTimer id : Run η σ Unit) :=
  .own fun _ => .single (.clear id (.inr h))

/-- A listener registers that cancels nothing. -/
theorem listen {l : Listener (ListenerAction η)}
    (h : l.event = .passageInit → l.action = .dropTyping) (hcancels : l.action.cancels = false) :
    Steady terms fun _ : Perform η σ => (Run.listen l : Run η σ Unit) :=
  .own fun _ => .single (.listen l h hcancels)

theorem unlisten (event : Option Event) (name : String) :
    Steady terms fun _ : Perform η σ => (Run.unlisten event name : Run η σ Unit) :=
  .own fun _ => .single (.unlisten event name)

/-- A change of the engine that follows other work, whether this has failed or not. -/
theorem andFinallySteps {X : Perform η σ → Run η σ α} {change : Engine η σ → Engine η σ}
    (hX : Steady terms X) (hchange : ∀ e, TimerSteps terms e (change e)) :
    Steady terms fun p => Run.andFinally (X p) change := by
  have hlast : Steady terms fun _ : Perform η σ => (modify change : Run η σ Unit) := .own hchange
  refine .bind (.attempt hX) fun outcome => .bind hlast fun _ => ?_
  cases outcome with
  | ok a => exact .pure a
  | error f => exact .fail f

theorem andFinally {X : Perform η σ → Run η σ α} {change : Engine η σ → Engine η σ}
    (hX : Steady terms X) (hchange : ∀ e, (change e).agenda = e.agenda) :
    Steady terms fun p => Run.andFinally (X p) change :=
  hX.andFinallySteps fun e => .single (.still (hchange e))

theorem reporting {X : Perform η σ → Run η σ Unit} (hX : Steady terms X) :
    Steady terms fun p => Run.reporting (X p) := by
  refine .bind (.attempt hX) fun outcome => ?_
  cases outcome with
  | ok u => exact .pure ()
  | error f => exact .still fun _ => rfl

end Steady

/-! ### Contexts -/

namespace MacroCall

variable (call : MacroCall η)

theorem steady_createView (name title : Option String) :
    Steady terms fun _ : Perform η σ => (call.createView name title : Run η σ ViewId) := by
  refine .next (fun _ => rfl) fun view => ?_
  refine .ite (.next (fun _ => rfl) fun _ => .pure view) (.next (fun _ => rfl) fun _ => ?_)
  exact .next (fun _ => rfl) fun _ => .pure view

theorem steady_view? :
    Steady terms fun _ : Perform η σ => (call.view? : Run η σ (Option ViewId)) := by
  refine .next (fun _ => rfl) fun s => .ite (.pure none) ?_
  cases s.view with
  | some view => exact .pure (some view)
  | none => exact .bind (call.steady_createView none none) fun view => .pure (some view)

theorem steady_target :
    Steady terms fun _ : Perform η σ => (call.target : Run η σ OutputId) := by
  refine .bind call.steady_view? fun view => ?_
  cases view with
  | some view => exact .still fun _ => rfl
  | none => exact .pure call.output

theorem steady_showModes (modes : List String) :
    Steady terms fun _ : Perform η σ => (call.showModes modes : Run η σ Unit) := by
  refine .bind call.steady_view? fun view => ?_
  cases view with
  | some view => exact .still fun _ => rfl
  | none => exact .pure ()

theorem steady_error (message : String) :
    Steady terms fun _ : Perform η σ => (call.error message : Run η σ Unit) :=
  .still fun _ => rfl

theorem steady_addShadows (names : List String) :
    Steady terms fun _ : Perform η σ => (call.addShadows names : Run η σ Unit) := by
  induction names with
  | nil => exact .pure ()
  | cons name rest ih => exact .ite (.next (fun _ => rfl) fun _ => ih) (.fail _)

end MacroCall

theorem Context.steady_make (data : ContextData η) :
    Steady terms fun _ : Perform η σ => (Context.make data : Run η σ (Context η)) := by
  unfold Context.make
  cases data.entry with
  | none => exact .fail _
  | some entry =>
      refine .ite (.fail _) ?_
      cases data.output with
      | none => exact .fail _
      | some output => exact .get fun e => .next (fun _ => rfl) fun _ => .pure _

theorem steady_inContext (context : Context η) {X : Perform η σ → Run η σ Unit}
    (hX : Steady terms X) : Steady terms fun p => inContext context (X p) :=
  .get fun _ => .next (fun _ => rfl) fun _ => .andFinally hX fun _ => rfl

/-! ### Handlers -/

theorem ShadowHandler.steady_make (context : Context η)
    (start callback done : Option (Callback η)) :
    Steady terms fun _ : Perform η σ =>
      (ShadowHandler.make context start callback done : Run η σ HandlerId) := by
  have hpush (store : Overlay) : Steady terms fun _ : Perform η σ => (do
      let id : HandlerId := ⟨(← MonadState.get).handlers.size⟩
      modify fun e => { e with
        handlers := e.handlers.push ⟨context, store, start, callback, done⟩ }
      return id : Run η σ HandlerId) :=
    .own fun _ => .single (.handler ⟨context, store, start, callback, done⟩)
  unfold ShadowHandler.make
  cases callback with
  | none => exact .next (fun _ => rfl) hpush
  | some callback => exact .next (fun _ => rfl) fun names => .next (fun _ => rfl) hpush

theorem steady_underOverlay (overlay : Overlay) {X : Perform η σ → Run η σ Unit}
    (hX : Steady terms X) : Steady terms fun p => underOverlay overlay (X p) :=
  .get fun _ => .next (fun _ => rfl) fun _ => .andFinally hX fun _ => rfl

/-- A handler that ends its callback runs the same parts the next time. -/
theorem Engine.agenda_leaveShadow (e : Engine η σ) (id : HandlerId) (depth : Nat)
    (previous : Option (Context η)) : (e.leaveShadow id depth previous).agenda = e.agenda := by
  have hparts (store : Overlay) :
      (e.handlers.modify id.index fun h => { h with store := store }).map ShadowHandler.parts =
        e.handlers.map ShadowHandler.parts := by
    refine Array.ext_getElem? fun i => ?_
    simp only [Array.getElem?_map, Array.getElem?_modify]
    split
    · cases e.handlers[i]? <;> rfl
    · rfl
  unfold Engine.leaveShadow State.pop
  dsimp only
  split
  · split
    · rename_i hpop
      split at hpop
      · cases hpop
      · cases hpop
        simp only [Engine.agenda, hparts]
        rfl
    · rename_i hpop
      split at hpop <;> cases hpop
      rfl
  · rfl

theorem steady_runShadowed (id : HandlerId) {X : Perform η σ → Run η σ Unit}
    (hX : Steady terms X) : Steady terms fun p => runShadowed id (X p) := by
  simp only [runShadowed_eq]
  refine .get fun e => ?_
  cases e.handlers[id.index]? with
  | none => exact .pure ()
  | some h =>
      exact .next (fun _ => rfl) fun _ => .andFinally hX fun e' => e'.agenda_leaveShadow id _ _

/-! ### Renders -/

theorem steady_deeper {tooDeep : Run η σ Unit} {X : Perform η σ → Run η σ Unit}
    (hdeep : Steady terms fun _ : Perform η σ => tooDeep) (hX : Steady terms X) :
    Steady terms fun p => deeper tooDeep (X p) := by
  let ascend (e : Engine η σ) : Engine η σ := { e with
    renderDepth := e.renderDepth - 1
    renderDepth_le := Nat.le_trans (Nat.sub_le ..) e.renderDepth_le }
  let descend (e : Engine η σ) : Engine η σ :=
    if h : e.renderDepth < e.config.maxRenderDepth then
      { e with renderDepth := e.renderDepth + 1, renderDepth_le := h }
    else e
  -- the engine that is set is the one that was got
  have hdeeper (x : Run η σ Unit) : deeper tooDeep x = (do
      let e ← MonadState.get
      if e.renderDepth < e.config.maxRenderDepth then
        modify descend
        Run.andFinally x ascend
      else tooDeep) := by
    funext e
    rw [deeper, Run.get_bind_apply, Run.get_bind_apply]
    split
    · rename_i h
      show Run.andFinally x ascend _ = Run.andFinally x ascend (descend e)
      rw [show descend e = _ from dif_pos h]
    · rfl
  simp only [hdeeper]
  refine .get fun e => .ite (.next (fun e => ?_) fun _ => .andFinally hX fun _ => rfl) hdeep
  show (descend e).agenda = e.agenda
  dsimp only [descend]
  split <;> rfl

theorem steady_callArguments (definition : Definition (Handler η)) (raw : String) :
    Steady terms fun _ : Perform η σ =>
      (callArguments definition raw : Run η σ (Except ArgumentError ArgumentList)) :=
  .ite (.pure _) (.reading (reassigns_readArguments raw))

theorem steady_payloadClauses (definition : Definition (Handler η)) (clauses : List Clause) :
    Steady terms fun _ : Perform η σ =>
      (payloadClauses definition clauses : Run η σ (Except ArgumentError (List PayloadClause))) := by
  induction clauses with
  | nil => exact .pure _
  | cons clause rest ih =>
      refine .bind (steady_callArguments definition clause.args) fun args => ?_
      cases args with
      | error e => exact .pure _
      | ok args =>
          refine .bind ih fun clauses => ?_
          cases clauses with
          | error e => exact .pure _
          | ok clauses => exact .pure _

theorem steady_openCall (out : OutputId) (entry : MacroEntry (Handler η)) (tag : Tag)
    (clauses : List Clause) (source : String) :
    Steady terms fun _ : Perform η σ =>
      (openCall out entry tag clauses source : Run η σ (Option (Context η))) := by
  refine .bind (steady_callArguments entry.definition tag.args) fun args => ?_
  cases args with
  | error e => exact .next (fun _ => rfl) fun _ => .pure none
  | ok args =>
      refine .bind (steady_payloadClauses entry.definition clauses) fun payload => ?_
      cases payload with
      | error e => exact .next (fun _ => rfl) fun _ => .pure none
      | ok payload =>
          refine .get fun e => .bind (.attempt (Context.steady_make _)) fun made => ?_
          cases made with
          | error f => exact .next (fun _ => rfl) fun _ => .pure none
          | ok context => exact .pure (some context)

end StoryEngine
