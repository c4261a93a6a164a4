import StoryEngine.Proofs.Engine.Quick
/-!
# StoryEngine.Proofs.Engine.Made

How the work of an engine is made up: of quick work, of tasks that are asked for, and of brackets
around further work. `Made scope place X` says so of work `X` that is done in a place, for whatever
performs the tasks. A render only asks for other renders and, when the turn of a text has come, for
the start of the typing queue; all other work may ask for anything.

A property of runs is shown for all macros, listeners and timers at once by induction on this
structure. `Carried` collects what a relation between the engine before and after some work needs
for that.
-/

namespace StoryEngine

variable {σ α β : Type} {place : Place}

/-! ### The structure of work -/

/-- What work may ask for. -/
inductive Scope where
  /-- Renders, and the start of the typing queue when the turn of a text has come. Overlays may be
  in force in between. -/
  | rendering
  /-- What one render asks for. -/
  | render
  /-- Anything. -/
  | any

/-- The turn of the handler has come: the first text of the queue, or a chain of clauses of the
present moment. -/
inductive Engine.Due (e : Engine Empty σ) : HandlerId → Prop
  | text {job : TypeJob} {rest : List TypeJob} (h : e.typeQueue = some (job :: rest)) :
      e.Due job.handler
  | item {index : Nat} {chain : TimedChain} (h : e.chains[index]? = some chain)
      (hnow : chain.moment = e.moment) : e.Due chain.handler

/-- The task invokes no handler, and is thus right at any time. -/
def Task.IsFree : Task → Prop
  | .invoke _ _ => False
  | _ => True

/-- How work is made up that is done in a place, depending on who performs tasks. -/
inductive Made : Scope → Place → {α : Type} → (Perform Empty σ → Run Empty σ α) → Prop
  /-- Quick work asks for nothing. -/
  | quick {scope} {place : Place} {α : Type} {x : Run Empty σ α} (hx : Quick place x) :
      Made scope place fun _ => x
  /-- Work that goes on with the result of quick work. -/
  | after {scope} {place : Place} {α β : Type} {P : α → Prop} {x : Run Empty σ α}
      {F : α → Perform Empty σ → Run Empty σ β} (hx : QuickTo place P x)
      (hF : ∀ a, P a → Made scope place (F a)) : Made scope place fun p => x >>= fun a => F a p
  | bind {scope} {place : Place} {α β : Type} {X : Perform Empty σ → Run Empty σ α}
      {F : α → Perform Empty σ → Run Empty σ β} (hX : Made scope place X)
      (hF : ∀ a, Made scope place (F a)) : Made scope place fun p => X p >>= fun a => F a p
  /-- Work that goes on with a new element, which is recent and there. -/
  | element {scope} {place : Place} {α : Type} (tag : String)
      {F : ElementId → Perform Empty σ → Run Empty σ α}
      (hF : ∀ id : ElementId, place.mark.extent.elements ≤ id.index →
        Made scope (place.knowing id) (F id)) :
      Made scope place fun p => (Run.withTree fun t => t.newElement tag) >>= fun id => F id p
  | attempt {scope} {place : Place} {α : Type} {X : Perform Empty σ → Run Empty σ α}
      (hX : Made scope place X) : Made scope place fun p => Run.attempt (X p)
  | render {scope} {place : Place} (out : OutputId) (source : String) :
      Made scope place fun p => p (.render out source)
  /-- The start of the queue is asked for when the queue was empty until now. -/
  | start {scope} {place : Place} {x : Run Empty σ Bool} (hx : Quick place x)
      (hfirst : ∀ e e', x e = (.ok true, e') → e.texts = []) :
      Made scope place fun p => do if ← x then p .startTyping
  /-- A macro is called. The one named `for` is a loop. -/
  | call {scope} {place : Place} {context : Context Empty} {X : Perform Empty σ → Run Empty σ Unit}
      (houter : context.outer = place.calls)
      (hfor : context.call.name = "for" →
        ∃ Y : Perform Empty σ → Run Empty σ Unit, X = fun p => Builtin.asLoop (Y p))
      (hX : Made scope (place.within context) X) :
      Made scope place fun p => inContext context (X p)
  | overlay {place : Place} (overlay : Overlay) {X : Perform Empty σ → Run Empty σ Unit}
      (hX : Made .rendering place X) : Made .rendering place fun p => underOverlay overlay (X p)
  | task {place : Place} {t : Task} (ht : t.IsFree) : Made .any place fun p => p t
  /-- A handler is invoked whose turn has come. -/
  | invoke {place : Place} {γ : Type} {x : Run Empty σ (Option γ)}
      {F : Option γ → Perform Empty σ → Run Empty σ Unit} {id : γ → HandlerId}
      (arg : γ → HandlerArg) (hx : Quick place x)
      (hdue : ∀ e e' c, x e = (.ok (some c), e') → e'.Due (id c))
      (hnone : ∀ p, F none p = Pure.pure ())
      (hsome : ∀ c p, F (some c) p = p (.invoke (id c) (arg c))) :
      Made .any place fun p => x >>= fun c => F c p
  /-- An interval ticks. Its handler is recent. -/
  | tick {place : Place} (timer : TimerId) (id : HandlerId) (arg : HandlerArg)
      (h : place.mark.handlers ≤ id.index) :
      Made .any place fun p => Builtin.asTick timer (p (.invoke id arg))
  | move {place : Place} {f : Engine Empty σ → Engine Empty σ} (hf : ∀ e, Move e (f e)) :
      Made .any place fun _ => modify f
  | deeper {place : Place} {tooDeep : Run Empty σ Unit} {X : Perform Empty σ → Run Empty σ Unit}
      (hdeep : Quick place tooDeep) (hX : Made .rendering place X) :
      Made .render place fun p => StoryEngine.deeper tooDeep (X p)
  | shown {place : Place} (source : String) : Made .any place fun p => showPassage p source
  /-- There are too many timers to fire. -/
  | halt {place : Place} {α : Type} : Made .any place fun _ => (throw .outOfFuel : Run Empty σ α)

namespace Made

variable {scope : Scope}

/-- Work that goes on after quick work, whatever its result. -/
theorem next {x : Run Empty σ α} {F : α → Perform Empty σ → Run Empty σ β} (hx : Quick place x)
    (hF : ∀ a, Made scope place (F a)) : Made scope place fun p => x >>= fun a => F a p :=
  .after hx fun a _ => hF a

theorem ite {c : Prop} [Decidable c] {X Y : Perform Empty σ → Run Empty σ α}
    (hX : c → Made scope place X) (hY : ¬ c → Made scope place Y) :
    Made scope place fun p => if c then X p else Y p := by
  by_cases h : c
  · simp only [h, if_true]
    exact hX h
  · simp only [h, if_false]
    exact hY h

/-- Quick work that is done on a condition only, before other work. -/
theorem nextWhen {c : Prop} [Decidable c] {x : Run Empty σ Unit}
    {F : Unit → Perform Empty σ → Run Empty σ α} (hx : Quick place x)
    (hF : Made scope place (F ())) :
    Made scope place fun p => if c then x >>= fun u => F u p else F () p :=
  .ite (fun _ => .next hx fun _ => hF) fun _ => hF

theorem pure (a : α) : Made scope place fun _ => (Pure.pure a : Run Empty σ α) :=
  .quick (.pure a)

end Made

end StoryEngine
