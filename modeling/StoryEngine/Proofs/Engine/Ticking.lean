import StoryEngine.Proofs.Engine.AsksTasks
import StoryEngine.Proofs.Engine.Stopping
import StoryEngine.Proofs.Engine.Termination
/-!
# StoryEngine.Proofs.Engine.Ticking

What is done while an interval ticks. Its body is rendered, and with it whatever macros this calls: it
may make further intervals, chains and links, and texts may be typed whose turn has come. None of this
invokes what is made, lets time pass or goes to another passage. So the same interval is ticking and it
is the same moment throughout (`Engine.Ticks`), wherever the macro is executed that ends the interval.

It follows that a tick is the same for two ways to stop that are the same while the interval ticks
(`stopping_ticksAlike`).
-/

namespace StoryEngine

variable {η σ α β : Type}

/-! ### Computations that agree -/

namespace Run

/-- If the first computation returns on the engine, then the second one does the same, and what is left
has the property. -/
def AgreesAt (I : Engine η σ → Prop) (x y : Run η σ α) (e : Engine η σ) : Prop :=
  Returned (x e).1 → y e = x e ∧ I (x e).2

namespace AgreesAt

variable {I J : Engine η σ → Prop} {x y : Run η σ α} {e : Engine η σ}

theorem of_run (h : x.AgreesAt I y e) {r : Except Halt α} {e' : Engine η σ} (hx : x e = (r, e'))
    (hr : Returned r) : y e = (r, e') ∧ I e' := by
  rw [AgreesAt, hx] at h
  exact h hr

theorem congr {x' y' : Run η σ α} {e' : Engine η σ} (h : x'.AgreesAt I y' e') (hx : x e = x' e')
    (hy : y e = y' e') : x.AgreesAt I y e := by
  rw [AgreesAt, hx, hy]
  exact h

theorem mono (h : x.AgreesAt I y e) (hI : ∀ e', I e' → J e') : x.AgreesAt J y e :=
  fun hr => ⟨(h hr).1, hI _ (h hr).2⟩

theorem bind {f g : α → Run η σ β} (hx : x.AgreesAt I y e)
    (hf : ∀ a e₁, I e₁ → (f a).AgreesAt I (g a) e₁) : (x >>= f).AgreesAt I (y >>= g) e := by
  intro hr
  rcases hrun : x e with ⟨halt | a, e₁⟩
  · rw [bind_of_error hrun] at hr ⊢
    obtain ⟨hy, he₁⟩ := hx.of_run hrun fun hhalt => hr (by cases hhalt; rfl)
    exact ⟨bind_of_error hy, he₁⟩
  · rw [bind_of_ok hrun] at hr ⊢
    obtain ⟨hy, he₁⟩ := hx.of_run hrun (returned_ok a)
    rw [bind_of_ok hy]
    exact hf a e₁ he₁ hr

theorem attempt (hx : x.AgreesAt I y e) : (Run.attempt x).AgreesAt I (Run.attempt y) e := by
  intro hr
  obtain ⟨r, hrun, hreturned⟩ := attempt_returned (Prod.eta (Run.attempt x e)).symm hr
  obtain ⟨hy, he'⟩ := hx.of_run hrun hreturned
  refine ⟨?_, he'⟩
  unfold Run.attempt
  rw [hy, hrun, attempt_snd]

theorem andFinally (hx : x.AgreesAt I y e) {change : Engine η σ → Engine η σ}
    (hchange : ∀ e', I e' → J (change e')) :
    (Run.andFinally x change).AgreesAt J (Run.andFinally y change) e := by
  intro hr
  obtain ⟨e₁, hrun, hclosed⟩ := andFinally_returned (Prod.eta (Run.andFinally x change e)).symm hr
  obtain ⟨hy, he₁⟩ := hx.of_run hrun hr
  refine ⟨?_, hclosed ▸ hchange _ he₁⟩
  rw [andFinally_of_returned change hrun hr, andFinally_of_returned change hy hr]

theorem reporting {x y : Run η σ Unit} (hx : x.AgreesAt I y e)
    (hreport : ∀ f e, I e → I (report f e).2) : (Run.reporting x).AgreesAt I (Run.reporting y) e := by
  refine .bind hx.attempt fun outcome e₁ he₁ hr => ?_
  cases outcome with
  | ok u => exact ⟨rfl, he₁⟩
  | error f => exact ⟨rfl, hreport f e₁ he₁⟩

end AgreesAt

end Run

/-! ### Ticks -/

/-- Work is done in the place while the interval ticks, and it is the moment. -/
structure Engine.Ticks (place : Place) (id : TimerId) (m : Moment) (e : Engine Empty σ) : Prop where
  standsIn : e.StandsIn place
  sound : e.Sound
  ticking : e.repeatTimer = some id
  present : e.moment = m

variable {place : Place} {id : TimerId} {m : Moment} {scope : Scope}

/-- It is the moment as long as the player does not move on. -/
theorem Changes.moment {e e' : Engine Empty σ} (h : Changes place e e') : e'.moment = e.moment := by
  induction h with
  | refl => rfl
  | tail _ hstep ih =>
      rw [← ih]
      cases hstep with
      | reassign hs =>
          unfold Engine.moment
          rw [hs.passage, hs.turns]
      | _ => rfl

namespace Engine.Ticks

variable {e e' : Engine Empty σ} {context : Context Empty}

theorem changes (he : e.Ticks place id m) (h : Changes place e e') : e'.Ticks place id m where
  standsIn := h.standsIn he.standsIn
  sound := by
    induction h with
    | refl => exact he.sound
    | tail _ hstep ih => exact ih.ofChange hstep
  ticking := h.repeatTimer.trans he.ticking
  present := h.moment.trans he.present

theorem dequeue (he : e.Ticks place id m) {queue : Option (List TypeJob)}
    (h : queue.getD [] <:+ e.texts) : Ticks place id m { e with typeQueue := queue } :=
  ⟨(Move.dequeue h).standsIn he.standsIn, he.sound.ofMove (.dequeue h), he.ticking, he.present⟩

theorem enterCall (he : e.Ticks place id m) (context : Context Empty) :
    Ticks (place.within context) id m { e with current := some context } :=
  ⟨he.standsIn.enterCall context, he.sound.congr rfl, he.ticking, he.present⟩

theorem leaveCall (he' : e'.Ticks (place.within context) id m) (he : e.Ticks place id m) :
    Ticks place id m { e' with current := e.current } :=
  ⟨he'.standsIn.leaveCall he.standsIn, he'.sound.congr rfl, he'.ticking, he'.present⟩

theorem push (he : e.Ticks place id m) (overlay : Overlay) :
    Ticks place id m { e with state := e.state.push overlay } :=
  ⟨he.standsIn.push overlay, he.sound.congr rfl, he.ticking, he.present⟩

theorem drop (he : e.Ticks place id m) (depth : Nat) :
    Ticks place id m { e with state := e.state.dropOverlays depth } :=
  ⟨he.standsIn.drop depth, he.sound.congr rfl, he.ticking, he.present⟩

theorem descend (he : e.Ticks place id m) (h : e.renderDepth < e.config.maxRenderDepth) :
    (e.descend h).Ticks place id m :=
  ⟨he.standsIn.descend h, he.sound.congr rfl, he.ticking, he.present⟩

theorem ascend (he : e.Ticks place id m) : e.ascend.Ticks place id m :=
  ⟨he.standsIn.ascend, he.sound.congr rfl, he.ticking, he.present⟩

theorem enterShadow (he : e.Ticks place id m) (h : ShadowHandler Empty) :
    (e.enterShadow h).Ticks (place.within h.context) id m :=
  ⟨he.standsIn.enterShadow h, he.sound.congr rfl, he.ticking, he.present⟩

theorem leaveShadow (he' : e'.Ticks (place.within context) id m) (he : e.Ticks place id m)
    (handler : HandlerId) (depth : Nat) :
    (e'.leaveShadow handler depth e.current).Ticks place id m := by
  have hagenda := e'.agenda_leaveShadow handler depth e.current
  obtain ⟨-, -, -, hticking, hmoment⟩ := Engine.agenda_eq_iff.mp hagenda
  refine ⟨he'.standsIn.leaveShadow he.standsIn handler depth, ?_, hticking.trans he'.ticking,
    hmoment.trans he'.present⟩
  have hkeeps := (e'.aside_leaveShadow handler depth e.current).handlers
  obtain ⟨state, handlers, hleft⟩ := e'.leaveShadow_eq_with handler depth e.current
  rw [hleft] at hkeeps ⊢
  exact he'.sound.ofHandlers hkeeps rfl rfl rfl rfl

end Engine.Ticks

/-- While the interval ticks in the place, the second computation does what the first one does if that
returns, and the interval is still ticking then. -/
def TicksAlike (place : Place) (id : TimerId) (m : Moment) (x y : Run Empty σ α) : Prop :=
  ∀ e : Engine Empty σ, e.Ticks place id m → x.AgreesAt (Engine.Ticks place id m) y e

namespace TicksAlike

theorem quickTo {P : α → Prop} {x : Run Empty σ α} (hx : QuickTo place P x) :
    TicksAlike place id m x x := by
  intro e he _
  obtain ⟨r, e', hrun, hchanges, -⟩ := hx e he.standsIn
  rw [hrun]
  exact ⟨rfl, he.changes hchanges⟩

theorem quick {x : Run Empty σ α} (hx : Quick place x) : TicksAlike place id m x x :=
  quickTo hx

theorem pure (a : α) : TicksAlike place id m (Pure.pure a : Run Empty σ α) (Pure.pure a) :=
  quick (.pure a)

theorem bind {x y : Run Empty σ α} {f g : α → Run Empty σ β} (hx : TicksAlike place id m x y)
    (hf : ∀ a, TicksAlike place id m (f a) (g a)) : TicksAlike place id m (x >>= f) (y >>= g) :=
  fun e he => (hx e he).bind fun a e₁ he₁ => hf a e₁ he₁

/-- Work that goes on with the result of quick work. -/
theorem after {P : α → Prop} {x : Run Empty σ α} {f g : α → Run Empty σ β}
    (hx : QuickTo place P x) (hf : ∀ a, P a → TicksAlike place id m (f a) (g a)) :
    TicksAlike place id m (x >>= f) (x >>= g) := by
  intro e he
  obtain ⟨r, e₁, hrun, hchanges, hr, hP⟩ := hx e he.standsIn
  match r, hr, hP with
  | .ok a, _, hP =>
      exact (hf a (hP a rfl) e₁ (he.changes hchanges)).congr (Run.bind_of_ok hrun) (Run.bind_of_ok hrun)
  | .error halt, _, _ =>
      intro _
      rw [Run.bind_of_error hrun, Run.bind_of_error hrun]
      exact ⟨rfl, he.changes hchanges⟩

/-- Work that depends on the engine. -/
theorem get {f g : Engine Empty σ → Run Empty σ α} (hf : ∀ e, TicksAlike place id m (f e) (g e)) :
    TicksAlike place id m (MonadState.get >>= f) (MonadState.get >>= g) :=
  after QuickTo.get fun e _ => hf e

theorem ite {c : Prop} [Decidable c] {x x' y y' : Run Empty σ α} (hx : TicksAlike place id m x x')
    (hy : TicksAlike place id m y y') :
    TicksAlike place id m (if c then x else y) (if c then x' else y') := by
  split
  · exact hx
  · exact hy

theorem attempt {x y : Run Empty σ α} (hx : TicksAlike place id m x y) :
    TicksAlike place id m (Run.attempt x) (Run.attempt y) :=
  fun e he => (hx e he).attempt

/-- Work that goes on with a new element. -/
theorem element (tag : String) {f g : ElementId → Run Empty σ α}
    (hf : ∀ wrapper : ElementId, place.mark.extent.elements ≤ wrapper.index →
      TicksAlike (place.knowing wrapper) id m (f wrapper) (g wrapper)) :
    TicksAlike place id m ((Run.withTree fun t => t.newElement tag) >>= f)
      ((Run.withTree fun t => t.newElement tag) >>= g) := by
  intro e he
  have hmade : Engine.Ticks (place.knowing ⟨e.tree.elements.size⟩) id m
      { e with tree := (e.tree.newElement tag).2 } :=
    ⟨he.standsIn.newElement tag, he.sound.congr rfl, he.ticking, he.present⟩
  have hgoesOn := hf ⟨e.tree.elements.size⟩ he.standsIn.parted.tree.extent.elements _ hmade
  exact (hgoesOn.mono fun e' he' => { he' with standsIn := he'.standsIn.forget }).congr rfl rfl

theorem inContext {context : Context Empty} {x y : Run Empty σ Unit}
    (hx : TicksAlike (place.within context) id m x y) :
    TicksAlike place id m (StoryEngine.inContext context x) (StoryEngine.inContext context y) :=
  fun e he => (((hx _ (he.enterCall context)).andFinally fun _ he' => he'.leaveCall he)).congr
    (e := e) rfl rfl

theorem underOverlay (overlay : Overlay) {x y : Run Empty σ Unit} (hx : TicksAlike place id m x y) :
    TicksAlike place id m (StoryEngine.underOverlay overlay x)
      (StoryEngine.underOverlay overlay y) :=
  fun e he => (((hx _ (he.push overlay)).andFinally fun _ he' => he'.drop _)).congr (e := e) rfl rfl

theorem deeper {tooDeep x y : Run Empty σ Unit} (hdeep : TicksAlike place id m tooDeep tooDeep)
    (hx : TicksAlike place id m x y) :
    TicksAlike place id m (StoryEngine.deeper tooDeep x) (StoryEngine.deeper tooDeep y) := by
  intro e he
  by_cases hlt : e.renderDepth < e.config.maxRenderDepth
  · refine ((hx _ (he.descend hlt)).andFinally fun _ he' => he'.ascend).congr ?_ ?_
    · rw [deeper_apply, dif_pos hlt]
    · rw [deeper_apply, dif_pos hlt]
  · refine (hdeep e he).congr ?_ ?_
    · rw [deeper_apply, dif_neg hlt]
    · rw [deeper_apply, dif_neg hlt]

/-- The first texts leave the queue. -/
theorem dequeue {change : List TypeJob → List TypeJob} (h : ∀ texts, change texts <:+ texts) :
    TicksAlike place id m
      (modify fun e => { e with typeQueue := e.typeQueue.map change } : Run Empty σ Unit)
      (modify fun e => { e with typeQueue := e.typeQueue.map change }) :=
  fun e he _ => ⟨rfl, he.dequeue (Builtin.getD_map_suffix h e)⟩

end TicksAlike

/-- What is the same while the interval ticks, wherever that is, passes from the macros that a render
calls to the render. -/
theorem TicksAlike.congruence (σ : Type) (id : TimerId) (m : Moment) :
    RenderCongruence fun {α} (x y : Run Empty σ α) => ∀ place, TicksAlike place id m x y where
  own hquick _ place := .quick (hquick place)
  bind hx hf place := .bind (hx place) fun a => hf a place
  attempt hx place := .attempt (hx place)
  deeper hdeep hx place := .deeper (hdeep place) (hx place)

/-! ### What a tick asks for -/

/-- Only the callback of the handler is there. It renders the body of an interval or a text. -/
structure ShadowHandler.IsBody (h : ShadowHandler Empty) : Prop where
  start : h.start = none
  callback : (∃ wrapper contents transition,
      h.callback = some (.repeatBody wrapper contents transition)) ∨
    ∃ call, h.callback = some (.typeBody call)
  done : h.done = none

theorem ShadowHandler.IsText.isBody {text : Nat} {h : ShadowHandler Empty} (hx : h.IsText text) :
    h.IsBody :=
  ⟨hx.start, .inr (hx.callback.imp fun _ hcall => hcall.2), hx.done⟩

/-- The task may be asked for during a tick. Those who listen to an event that is announced start the
next text at most. -/
def Engine.AsksTicking (e : Engine Empty σ) : Task → Prop
  | .render _ _ => True
  | .startTyping => True
  | .trigger event _ => ∀ action : ListenerAction Empty, action.event = event → action = .nextTyping
  | .invoke handler _ => e.Holds handler ShadowHandler.IsBody
  | _ => False

/-- The second performer does what the first one does, as far as a tick asks for it. -/
def PerformsTicking (id : TimerId) (m : Moment) (p p' : Perform Empty σ) : Prop :=
  ∀ {place : Place} {e : Engine Empty σ} {t : Task}, e.Ticks place id m → e.AsksTicking t →
    (p t).AgreesAt (Engine.Ticks place id m) (p' t) e

section Work

variable {p p' : Perform Empty σ}

/-- Whatever a macro is made up of is the same for both performers. -/
theorem Made.ticksAlike {X : Perform Empty σ → Run Empty σ α} (hp : PerformsTicking id m p p')
    (hX : Made scope place X) (hscope : scope = .rendering) :
    TicksAlike place id m (X p) (X p') := by
  induction hX with
  | quick hx => exact .quick hx
  | after hx _ ihF => exact .after hx fun a ha => ihF a ha hscope
  | bind _ _ ihX ihF => exact .bind (ihX hscope) fun a => ihF a hscope
  | element tag _ ihF => exact .element tag fun wrapper hsince => ihF wrapper hsince hscope
  | attempt _ ihX => exact .attempt (ihX hscope)
  | render out source => exact fun e he => hp he trivial
  | start hx _ =>
      refine .bind (.quick hx) fun isNext => ?_
      cases isNext with
      | true => exact fun e he => hp he trivial
      | false => exact .pure ()
  | call _ _ _ ihX => exact .inContext (ihX hscope)
  | overlay overlay _ ihX => exact .underOverlay overlay (ihX hscope)
  | _ => cases hscope

namespace Builtin

variable (hp : PerformsTicking id m p p')
include hp

theorem stopText_ticksAlike (typing : Nat) (t : Option Typing) :
    TicksAlike place id m (stopText p typing t) (stopText p' typing t) := by
  cases t with
  | none => exact .pure ()
  | some t =>
      refine .ite (.pure ()) (.bind (.quick (quick_modifyTyping _ fun _ => rfl)) fun _ => ?_)
      refine .bind (.dequeue (textsAfter_suffix t.id)) fun _ => .bind (fun e he => ?_) fun _ => ?_
      · refine hp he fun action haction => ?_
        cases action with
        | nextTyping => rfl
        | host procedure => exact procedure.elim
        | _ => cases haction
      · refine .quick (.changeTree fun _ _ _ => ?_)
        dsimp only
        split
        · exact .trans (.trans (.removeClass _ _) (.addClass _ _)) (.addClass _ _)
        · exact .trans (.removeClass _ _) (.addClass _ _)

theorem beginTyping_ticksAlike (typing : Nat) :
    TicksAlike place id m (beginTyping p typing) (beginTyping p' typing) := by
  rw [beginTyping_eq, beginTyping_eq]
  refine .get fun e => ?_
  cases e.typings[typing]? with
  | none => exact .pure ()
  | some t =>
      refine .bind (.quick (.isStale _)) fun stale =>
        .ite (.quick (quick_modifyTyping _ fun _ => rfl)) (.bind (fun e he => ?_) fun _ => ?_)
      · exact hp he fun action haction => (not_typingStart action haction).elim
      · exact .bind (.quick (quick_typeFirst typing)) (stopText_ticksAlike hp typing)

theorem runTypeBody_ticksAlike (call : TypeCall) :
    TicksAlike place id m (runTypeBody p call) (runTypeBody p' call) := by
  simp only [runTypeBody_eq, wrapText_eq, bind_assoc, pure_bind]
  refine .element _ fun wrapper hsince => ?_
  have hfill : Made .rendering (place.knowing wrapper) fun p : Perform Empty σ =>
      fillText p call wrapper := made_fillText call wrapper
  refine .bind (hfill.ticksAlike hp rfl) fun _ => ?_
  refine .bind (.quick (quick_placeText call hsince (place.lt_elements_knowing wrapper)))
    fun placed => ?_
  cases placed with
  | shown =>
      refine .bind (.bind (.dequeue fun _ => List.tail_suffix _) fun _ => .get fun _ => .pure _)
        fun isNext => .ite (fun e he => hp he trivial) (.pure ())
  | waiting => exact .pure ()
  | typed typing => exact beginTyping_ticksAlike hp typing

theorem nextTyping_ticksAlike : TicksAlike place id m (nextTyping p) (nextTyping p') := by
  refine .get fun e => ?_
  rcases e.typeQueue with _ | _ | ⟨job, rest⟩
  · exact .pure ()
  · exact fun e he => hp he fun action haction => (not_typingComplete action haction).elim
  · exact fun e he => hp he trivial

theorem startFirst_ticksAlike : TicksAlike place id m (startFirst p) (startFirst p') := by
  intro e he
  cases htexts : e.texts with
  | nil =>
      have hfirst : firstText e = (.ok none, e) := by
        rw [firstText_apply, htexts]
        rfl
      exact (TicksAlike.pure () e he).congr (Run.bind_of_ok hfirst) (Run.bind_of_ok hfirst)
  | cons job rest =>
      have hfirst : firstText e = (.ok (some job.handler), e) := by
        rw [firstText_apply, htexts]
        rfl
      obtain ⟨h, hh, htext⟩ := he.sound.texts job (htexts ▸ List.mem_cons_self)
      have hinvoke := hp (t := .invoke job.handler .nothing) he ⟨h, hh, htext.isBody⟩
      exact hinvoke.congr (Run.bind_of_ok hfirst) (Run.bind_of_ok hfirst)

end Builtin

/-- The body of an interval or a text is rendered. -/
theorem invokeHandler_ticksAlike (hp : PerformsTicking id m p p') {e : Engine Empty σ}
    (he : e.Ticks place id m) {handler : HandlerId} (hbody : e.Holds handler ShadowHandler.IsBody)
    (arg : HandlerArg) :
    (invokeHandler (runCallback Host.idle p) handler arg).AgreesAt (Engine.Ticks place id m)
      (invokeHandler (runCallback Host.idle p') handler arg) e := by
  obtain ⟨h, hh, hbody⟩ := hbody
  have hrun (callback : Callback Empty) (hcallback : h.callback = some callback)
      (halike : TicksAlike (place.within h.context) id m (runCallback Host.idle p callback arg)
        (runCallback Host.idle p' callback arg)) :
      (invokeHandler (runCallback Host.idle p) handler arg).AgreesAt (Engine.Ticks place id m)
        (invokeHandler (runCallback Host.idle p') handler arg) e :=
    ((halike _ (he.enterShadow h)).andFinally fun _ he' => he'.leaveShadow he handler _).congr
      (invokeHandler_callback _ hh hbody.start hcallback hbody.done arg)
      (invokeHandler_callback _ hh hbody.start hcallback hbody.done arg)
  rcases hbody.callback with ⟨wrapper, contents, transition, hcallback⟩ | ⟨call, hcallback⟩
  · have hmade : Made .rendering (place.within h.context) fun p : Perform Empty σ =>
        Builtin.runRepeatBody p wrapper contents transition :=
      Builtin.made_runRepeatBody wrapper contents transition
    exact hrun _ hcallback (hmade.ticksAlike hp rfl)
  · exact hrun _ hcallback (Builtin.runTypeBody_ticksAlike hp call)

/-- An event is announced. -/
theorem trigger_ticksAlike (hp : PerformsTicking id m p p') {e : Engine Empty σ}
    (he : e.Ticks place id m) {event : Event} (detail : String)
    (hevent : ∀ action : ListenerAction Empty, action.event = event → action = .nextTyping) :
    (trigger Host.idle p event detail).AgreesAt (Engine.Ticks place id m)
      (trigger Host.idle p' event detail) e := by
  have hcall (actions : List (ListenerAction Empty))
      (hactions : ∀ action ∈ actions, action = .nextTyping) :
      TicksAlike place id m (callListeners Host.idle p detail actions)
        (callListeners Host.idle p' detail actions) := by
    induction actions with
    | nil => exact .pure ()
    | cons action rest ih =>
        obtain rfl := hactions action List.mem_cons_self
        refine .bind (fun e he => ?_) fun _ =>
          ih fun other hother => hactions other (List.mem_cons_of_mem _ hother)
        refine Run.AgreesAt.reporting (Builtin.nextTyping_ticksAlike hp e he) fun f e he => ?_
        exact he.changes (.single (.report f))
  have htaken : Engine.Ticks place id m
      { e with listeners := (Listener.take e.listeners event).2 } :=
    he.changes (.single (.unlisten fun l => !(l.event = event && l.once)))
  refine (hcall _ (fun action haction => ?_) _ htaken).congr rfl rfl
  exact hevent action (he.sound.event_of_mem_take haction)

end Work

/-- Two ways to stop that are the same while the interval ticks make no difference to what a tick asks
for. -/
theorem stopping_ticksAlike {stop stop' : MacroCall Empty → Run Empty σ Unit}
    (hstop : ∀ place call, TicksAlike place id m (stop call) (stop' call)) (n : Nat) :
    PerformsTicking id m (stopping stop n) (stopping stop' n) := by
  induction n with
  | zero => exact fun _ _ hr => (hr rfl).elim
  | succ n ih =>
      intro place e t he ht
      cases t with
      | render out source =>
          refine (TicksAlike.congruence σ id m).render (fun handler context place => ?_) out source
            place e he
          cases handler with
          | host procedure => exact procedure.elim
          | builtin b =>
              refine .inContext ?_
              by_cases hb : b = .stop
              · subst hb
                exact hstop _ context.call
              · rw [runStopping_of_ne_stop _ _ hb, runStopping_of_ne_stop _ _ hb]
                exact (Builtin.made_runBuiltin context b).ticksAlike ih rfl
      | trigger event detail => exact trigger_ticksAlike ih he detail ht
      | invoke handler arg => exact invokeHandler_ticksAlike ih he ht arg
      | startTyping => exact Builtin.startFirst_ticksAlike ih e he
      | navigate title => exact ht.elim
      | advance ms => exact ht.elim

end StoryEngine
