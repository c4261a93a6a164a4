import StoryEngine.Proofs.Engine.Sound
import StoryEngine.Proofs.Engine.Record
/-!
# StoryEngine.Proofs.Engine.Aside

Work that has nothing to do with texts that are typed, which is most of what macros do. It leaves
the queue of texts alone and what is being typed, and the listeners and timers that are set for
either (`Engine.Aside`), and it does not look at what the host has noted down (`Blind`).

The rules for `IsAside` follow the structure of computations, like those for `Quick`.
-/

namespace StoryEngine

variable {σ α β : Type}

/-! ### Plain handlers -/

/-- The callback only renders something. -/
def Callback.IsRendering : Callback Empty → Prop
  | .payload _ => True
  | .repeatBody _ _ _ => True
  | .timedBody _ _ => True
  | _ => False

/-- The handler is not that of a text: it is that of a click, an interval or a chain. -/
structure ShadowHandler.IsPlain (h : ShadowHandler Empty) : Prop where
  start : h.start = none
  callback : ∀ c, h.callback = some c → c.IsRendering
  done : ∀ c, h.done = some c → ∃ title, c = .goTo title

theorem ShadowHandler.IsPlain.withStore {h : ShadowHandler Empty} (hp : h.IsPlain)
    (store : Overlay) : { h with store := store }.IsPlain :=
  ⟨hp.start, hp.callback, hp.done⟩

/-- A click, a chain or an interval invokes the handler. -/
inductive RefersTo (clickables : List Clickable) (chains : Array TimedChain)
    (timers : List (Timer (TimerAction Empty))) : HandlerId → Prop
  | click {k : Clickable} (h : k ∈ clickables) : RefersTo clickables chains timers k.handler
  | item {k : TimedChain} (h : k ∈ chains) : RefersTo clickables chains timers k.handler
  | tick {timer : Timer (TimerAction Empty)} {id : HandlerId} {m : Moment}
      (h : timer ∈ timers) (haction : timer.action = .repeatTick id m) :
      RefersTo clickables chains timers id

/-- A click, a chain or an interval of the engine invokes the handler. -/
abbrev Engine.Refers (e : Engine Empty σ) : HandlerId → Prop :=
  RefersTo e.clickables e.chains e.clock.timers

/-! ### Listeners -/

namespace Listener

variable {κ : Type}

/-- The listeners of an event. -/
def of (listeners : List (Listener κ)) (event : Event) : List (Listener κ) :=
  listeners.filter fun l => l.event = event

variable (listeners : List (Listener κ))

theorem of_append (l : Listener κ) (event : Event) :
    of (listeners ++ [l]) event =
      if l.event = event then of listeners event ++ [l] else of listeners event := by
  unfold of
  rw [List.filter_append]
  split <;> simp_all

/-- Dropping the listeners of a namespace for an event drops none of other events. -/
theorem of_off_of_ne (name : String) (event other : Event) (h : other ≠ event) :
    of (off listeners (some event) name) other = of listeners other := by
  simp only [of, off, List.filter_filter]
  refine List.filter_congr fun l _ => ?_
  by_cases hl : l.event = other <;> simp [hl, h.symm]

/-- Dropping all listeners of a namespace drops those of each event that belong to it. -/
theorem of_off_none (name : String) (event : Event) :
    of (off listeners none name) event =
      (of listeners event).filter fun l => l.namespace != some name := by
  simp [of, off, List.filter_filter, Bool.and_comm]

/-- Those who listen to other events wait on. -/
theorem of_take_of_ne (event other : Event) (h : other ≠ event) :
    of (take listeners event).2 other = of listeners other := by
  simp only [of, take, List.filter_filter]
  refine List.filter_congr fun l _ => ?_
  by_cases hl : l.event = other <;> simp [hl, h]

/-- Those who wait for one call only do not wait any more. -/
theorem of_take_self (event : Event) (h : ∀ l ∈ of listeners event, l.once = true) :
    of (take listeners event).2 event = [] := by
  simp only [of, take, List.filter_filter, List.filter_eq_nil_iff]
  intro l hl hboth
  have hevent : l.event = event := by
    simp only [Bool.and_eq_true, decide_eq_true_eq] at hboth
    exact hboth.1
  have honce := h l (List.mem_filter.mpr ⟨hl, decide_eq_true hevent⟩)
  simp [hevent, honce] at hboth

/-- Nothing listens to the beginning of a text, and nothing to the end of all of them. -/
theorem take_of_fits {listeners : List (Listener (ListenerAction Empty))}
    (h : ∀ l ∈ listeners, l.Fits) {event : Event}
    (hevent : event = .typingStart ∨ event = .typingComplete) :
    take listeners event = ([], listeners) := by
  have hne {l : Listener (ListenerAction Empty)} (hl : l ∈ listeners) : l.event ≠ event := by
    have hfits : l.event = l.action.event := h l hl
    rw [hfits]
    rcases hevent with rfl | rfl
    · cases l.action with
      | host procedure => exact procedure.elim
      | _ => exact fun h => (by cases h)
    · cases l.action with
      | host procedure => exact procedure.elim
      | _ => exact fun h => (by cases h)
  unfold take
  refine Prod.ext ?_ ?_
  · rw [List.map_eq_nil_iff, List.filter_eq_nil_iff]
    exact fun l hl => by simpa using hne hl
  · exact List.filter_eq_self.mpr fun l hl => by simp [hne hl]

end Listener

/-! ### What has nothing to do with texts -/

/-- The timer is set for a text. -/
def TimerAction.IsTyping : TimerAction Empty → Prop
  | .beginTyping _ => True
  | .typeLetter _ => True
  | _ => False

/-- What belongs to texts only, and when they may start. -/
def Engine.typingPart (e : Engine Empty σ) : (Option (List TypeJob) × Nat × List TypingMark) ×
    Bool × Moment × σ × List (Listener (ListenerAction Empty)) ×
      List (Listener (ListenerAction Empty)) :=
  ((e.typeQueue, e.nextTypeId, e.marks), e.isPlaying, e.moment, e.host,
    Listener.of e.listeners .passageEnd, Listener.of e.listeners .typingStop)

/-- What is put off, and belongs to texts and other work alike. -/
def Engine.putOff (e : Engine Empty σ) : Array (ShadowHandler Empty) ×
    List (Listener (ListenerAction Empty)) × List (Timer (TimerAction Empty)) × List Clickable ×
      Array TimedChain :=
  (e.handlers, e.listeners, e.clock.timers, e.clickables, e.chains)

/-- What was done has nothing to do with texts. -/
structure Engine.Aside (e e' : Engine Empty σ) : Prop where
  part : e'.typingPart = e.typingPart
  handlers : e.KeepsHandlers e'
  listeners : ∀ l ∈ e'.listeners, l ∈ e.listeners ∨ l.Fits
  timers : ∀ timer' ∈ e'.clock.timers, timer'.action.IsTyping →
    ∃ timer ∈ e.clock.timers, timer'.id = timer.id ∧ timer'.period = timer.period ∧
      timer'.action = timer.action
  refers : ∀ id, e'.Refers id → e.Refers id ∨ e'.Holds id ShadowHandler.IsPlain

namespace Engine.Aside

variable {e e₁ e' : Engine Empty σ}

/-- Only what is put off may be more than before. -/
theorem of_eq (hpart : e'.typingPart = e.typingPart) (h : e'.putOff = e.putOff) :
    e.Aside e' := by
  simp only [Engine.putOff, Prod.mk.injEq] at h
  obtain ⟨hhandlers, hlisteners, htimers, hclickables, hchains⟩ := h
  refine ⟨hpart, .of_eq hhandlers, fun l hl => .inl (hlisteners ▸ hl), ?_, fun id hid => .inl ?_⟩
  · exact fun timer htimer _ => ⟨timer, htimers ▸ htimer, rfl, rfl, rfl⟩
  · unfold Engine.Refers at hid ⊢
    rw [← hclickables, ← hchains, ← htimers]
    exact hid

theorem refl (e : Engine Empty σ) : e.Aside e :=
  .of_eq rfl rfl

theorem trans (h : e.Aside e₁) (h₁ : e₁.Aside e') : e.Aside e' where
  part := h₁.part.trans h.part
  handlers := h.handlers.trans h₁.handlers
  listeners l hl := (h₁.listeners l hl).elim (h.listeners l) .inr
  timers timer' htimer' htyping := by
    obtain ⟨timer₁, htimer₁, hid₁, hperiod₁, haction₁⟩ := h₁.timers timer' htimer' htyping
    rw [haction₁] at htyping
    obtain ⟨timer, htimer, hid, hperiod, haction⟩ := h.timers timer₁ htimer₁ htyping
    exact ⟨timer, htimer, hid₁.trans hid, hperiod₁.trans hperiod, haction₁.trans haction⟩
  refers id hid := by
    rcases h₁.refers id hid with hid₁ | hplain
    · exact (h.refers id hid₁).imp_right (·.mono h₁.handlers ShadowHandler.IsPlain.withStore)
    · exact .inr hplain

/-- A handler is made. -/
theorem handler (e : Engine Empty σ) (h : ShadowHandler Empty) :
    e.Aside { e with handlers := e.handlers.push h } where
  part := rfl
  handlers := .of_push rfl
  listeners _ hl := .inl hl
  timers timer htimer _ := ⟨timer, htimer, rfl, rfl, rfl⟩
  refers _ hid := .inl hid

/-- Others listen, but not to what texts wait for. -/
theorem listening {listeners : List (Listener (ListenerAction Empty))}
    (h : ∀ l ∈ listeners, l ∈ e.listeners ∨ l.Fits)
    (hof : ∀ event, event ≠ .passageInit → event ≠ .keydown →
      Listener.of listeners event = Listener.of e.listeners event) :
    e.Aside { e with listeners := listeners } where
  part := by
    unfold Engine.typingPart
    dsimp only
    rw [hof .passageEnd (by decide) (by decide), hof .typingStop (by decide) (by decide)]
    rfl
  handlers := .of_eq rfl
  listeners := h
  timers timer htimer _ := ⟨timer, htimer, rfl, rfl, rfl⟩
  refers _ hid := .inl hid

/-- A listener is registered that no text waits for. -/
theorem listen (e : Engine Empty σ) {l : Listener (ListenerAction Empty)} (hfits : l.Fits)
    (hevent : l.event = .passageInit ∨ l.event = .keydown) :
    e.Aside { e with listeners := e.listeners ++ [l] } := by
  refine .listening (fun other hother => ?_) fun event hinit hkey => ?_
  · rcases List.mem_append.mp hother with hold | hnew
    · exact .inl hold
    · cases List.mem_singleton.mp hnew
      exact .inr hfits
  · have hne : l.event ≠ event := by
      rintro rfl
      exact hevent.elim hinit hkey
    rw [Listener.of_append, if_neg hne]

/-- The clock is another one, and the timers that are new are not for texts. -/
theorem clock {clock : Clock (TimerAction Empty)}
    (h : ∀ timer' ∈ clock.timers, (∃ timer ∈ e.clock.timers, timer'.id = timer.id ∧
        timer'.period = timer.period ∧ timer'.action = timer.action) ∨
      ¬ timer'.action.IsTyping ∧ ∀ id m, timer'.action = .repeatTick id m →
        e.Holds id ShadowHandler.IsPlain) :
    e.Aside { e with clock := clock } where
  part := rfl
  handlers := .of_eq rfl
  listeners _ hl := .inl hl
  timers timer' htimer' htyping :=
    (h timer' htimer').elim id fun hnew => (hnew.1 htyping).elim
  refers id hid := by
    cases hid with
    | click hk => exact .inl (.click hk)
    | item hk => exact .inl (.item hk)
    | @tick timer' id m htimer' haction =>
        rcases h timer' htimer' with ⟨timer, htimer, -, -, hsame⟩ | ⟨-, hplain⟩
        · exact .inl (.tick htimer (hsame.symm.trans haction))
        · exact .inr (hplain id m haction)

/-- Timers are cancelled or taken, or the clock moves on. -/
theorem lasts {clock : Clock (TimerAction Empty)} (h : e.clock.Lasts clock) :
    e.Aside { e with clock := clock } :=
  .clock fun timer' htimer' => .inl (h.timers timer' htimer')

/-- A timer is set that is not for a text. -/
theorem timer (delay : Nat) (period : Option Nat) (action : TimerAction Empty)
    (h : ¬ action.IsTyping)
    (hplain : ∀ id m, action = .repeatTick id m → e.Holds id ShadowHandler.IsPlain) :
    e.Aside { e with clock := (e.clock.addTimer delay period action).2 } := by
  refine .clock fun timer htimer => ?_
  rcases List.mem_append.mp htimer with hold | hnew
  · exact .inl ⟨timer, hold, rfl, rfl, rfl⟩
  · cases List.mem_singleton.mp hnew
    exact .inr ⟨h, hplain⟩

/-- An element can be clicked. -/
theorem clickable {k : Clickable} (h : e.Holds k.handler ShadowHandler.IsPlain) :
    e.Aside { e with clickables := e.clickables ++ [k] } where
  part := rfl
  handlers := .of_eq rfl
  listeners _ hl := .inl hl
  timers timer htimer _ := ⟨timer, htimer, rfl, rfl, rfl⟩
  refers id hid := by
    cases hid with
    | @click other hother =>
        rcases List.mem_append.mp hother with hold | hnew
        · exact .inl (.click hold)
        · cases List.mem_singleton.mp hnew
          exact .inr h
    | item hk => exact .inl (.item hk)
    | tick htimer haction => exact .inl (.tick htimer haction)

/-- Elements cannot be clicked any more. -/
theorem unclick {clickables : List Clickable} (h : clickables ⊆ e.clickables) :
    e.Aside { e with clickables := clickables } where
  part := rfl
  handlers := .of_eq rfl
  listeners _ hl := .inl hl
  timers timer htimer _ := ⟨timer, htimer, rfl, rfl, rfl⟩
  refers id hid := .inl (by
    cases hid with
    | click hk => exact .click (h hk)
    | item hk => exact .item hk
    | tick htimer haction => exact .tick htimer haction)

/-- A chain begins, or goes on. -/
theorem chains {chains : Array TimedChain}
    (h : ∀ k' ∈ chains, (∃ k ∈ e.chains, k'.handler = k.handler) ∨
      e.Holds k'.handler ShadowHandler.IsPlain) :
    e.Aside { e with chains := chains } where
  part := rfl
  handlers := .of_eq rfl
  listeners _ hl := .inl hl
  timers timer htimer _ := ⟨timer, htimer, rfl, rfl, rfl⟩
  refers id hid := by
    cases hid with
    | click hk => exact .inl (.click hk)
    | @item k' hk' =>
        rcases h k' hk' with ⟨k, hk, hsame⟩ | hplain
        · exact .inl (hsame ▸ .item hk)
        · exact .inr hplain
    | tick htimer haction => exact .inl (.tick htimer haction)

/-- Variables have other values. -/
theorem reassign {s : State} (h : e.state.Reassigned s) : e.Aside { e with state := s } := by
  refine .of_eq ?_ rfl
  have hmoment : Engine.moment { e with state := s } = e.moment := by
    show (⟨s.passage, s.turns⟩ : Moment) = ⟨e.state.passage, e.state.turns⟩
    rw [h.passage, h.turns]
  unfold Engine.typingPart
  rw [hmoment]
  rfl

end Engine.Aside

/-! ### Blind work -/

/-- The engine with another state of the host. -/
def Engine.withHost (e : Engine Empty σ) (host : σ) : Engine Empty σ :=
  { e with host := host }

/-- Whatever the state of the host is, the second computation does what the first one does, but for
the state of the host, which it leaves alone. -/
def Mirrors (x y : Run Empty σ α) : Prop :=
  ∀ e host, y (e.withHost host) = ((x e).1, (x e).2.withHost host)

/-- What is done does not depend on the state of the host, and leaves it alone. -/
abbrev Blind (x : Run Empty σ α) : Prop :=
  Mirrors x x

namespace Mirrors

theorem pure (a : α) : Mirrors (Pure.pure a : Run Empty σ α) (Pure.pure a) :=
  fun _ _ => rfl

theorem fail (f : Failure) : Mirrors (Run.fail f : Run Empty σ α) (Run.fail f) :=
  fun _ _ => rfl

theorem bind {x y : Run Empty σ α} {f g : α → Run Empty σ β} (hx : Mirrors x y)
    (hf : ∀ a, Mirrors (f a) (g a)) : Mirrors (x >>= f) (y >>= g) := by
  intro e host
  rw [Run.bind_apply, Run.bind_apply, hx e host]
  rcases x e with ⟨halt | a, e₁⟩
  · rfl
  · exact hf a e₁ host

/-- Work that depends on the engine, but not on the state of the host. -/
theorem get {f g : Engine Empty σ → Run Empty σ α} (hf : ∀ e, Mirrors (f e) (g e))
    (hhost : ∀ e host, g (e.withHost host) = g e) :
    Mirrors (MonadState.get >>= f) (MonadState.get >>= g) := by
  intro e host
  rw [Run.get_bind_apply, Run.get_bind_apply, hhost]
  exact hf e e host

theorem modify {f : Engine Empty σ → Engine Empty σ}
    (h : ∀ e host, f (e.withHost host) = (f e).withHost host) :
    Mirrors (modify f : Run Empty σ Unit) (modify f) :=
  fun e host => congrArg (Prod.mk (Except.ok ())) (h e host)

theorem attempt {x y : Run Empty σ α} (h : Mirrors x y) :
    Mirrors (Run.attempt x) (Run.attempt y) := by
  intro e host
  unfold Run.attempt
  rw [h e host]
  rcases x e with ⟨(f | _) | a, e₁⟩ <;> rfl

theorem settle (outcome : Except Failure α) :
    Mirrors (Run.settle outcome : Run Empty σ α) (Run.settle outcome) := by
  cases outcome with
  | ok a => exact .pure a
  | error f => exact .fail f

theorem andFinally {x y : Run Empty σ α} (h : Mirrors x y) {change : Engine Empty σ → Engine Empty σ}
    (hchange : ∀ e host, change (e.withHost host) = (change e).withHost host) :
    Mirrors (Run.andFinally x change) (Run.andFinally y change) :=
  .bind h.attempt fun outcome => .bind (.modify hchange) fun _ => .settle outcome

end Mirrors

/-! ### Work aside -/

/-- Started on the engine, the computation does nothing that has to do with texts. -/
def AsideAt (x : Run Empty σ α) (e : Engine Empty σ) : Prop :=
  e.Aside (x e).2

/-- Work that goes on with a result, in the engine that was left with it. -/
theorem AsideAt.next {x : Run Empty σ α} {f : α → Run Empty σ β} {e e₁ : Engine Empty σ} {a : α}
    (hx : x e = (.ok a, e₁)) (h : e.Aside e₁) (hf : AsideAt (f a) e₁) :
    AsideAt (x >>= f) e := by
  unfold AsideAt
  rw [Run.bind_of_ok hx]
  exact h.trans hf

/-- Work that never fails. -/
theorem AsideAt.ofOk {x : Run Empty σ α} {e e' : Engine Empty σ} {a : α} (hx : x e = (.ok a, e'))
    (h : e.Aside e') : AsideAt x e := by
  unfold AsideAt
  rw [hx]
  exact h

/-- The computation has nothing to do with texts, and is blind. -/
structure IsAside (x : Run Empty σ α) : Prop where
  aside (e : Engine Empty σ) : AsideAt x e
  blind : Blind x

namespace IsAside

theorem pure (a : α) : IsAside (Pure.pure a : Run Empty σ α) :=
  ⟨fun e => Engine.Aside.refl e, .pure a⟩

theorem fail (f : Failure) : IsAside (Run.fail f : Run Empty σ α) :=
  ⟨fun e => Engine.Aside.refl e, .fail f⟩

theorem bind {x : Run Empty σ α} {f : α → Run Empty σ β} (hx : IsAside x)
    (hf : ∀ a, IsAside (f a)) : IsAside (x >>= f) where
  aside e := by
    -- also where it fails, since what it has done by then is not undone
    have hfirst : e.Aside (x e).2 := hx.aside e
    rcases hr : x e with ⟨halt | a, e₁⟩
    · rw [hr] at hfirst
      unfold AsideAt
      rw [Run.bind_of_error hr]
      exact hfirst
    · rw [hr] at hfirst
      exact .next hr hfirst ((hf a).aside e₁)
  blind := .bind hx.blind fun a => (hf a).blind

theorem get {f : Engine Empty σ → Run Empty σ α} (hf : ∀ e, IsAside (f e))
    (hhost : ∀ e host, f (e.withHost host) = f e) : IsAside (MonadState.get >>= f) :=
  ⟨fun e => .next rfl (.refl e) ((hf e).aside e), .get (fun e => (hf e).blind) hhost⟩

/-- Work that is done on a condition only, before other work. -/
theorem bindUnless {c : Prop} [Decidable c] {x : Run Empty σ Unit} {f : Unit → Run Empty σ α}
    (hx : IsAside x) (hf : IsAside (f ())) : IsAside (if c then f () else x >>= f) := by
  split
  · exact hf
  · exact bind hx fun _ => hf

theorem attempt {x : Run Empty σ α} (hx : IsAside x) : IsAside (Run.attempt x) := by
  refine ⟨fun e => ?_, hx.blind.attempt⟩
  unfold AsideAt
  rw [Run.attempt_snd]
  exact hx.aside e

/-- A change of the engine. -/
theorem modify {f : Engine Empty σ → Engine Empty σ} (h : ∀ e : Engine Empty σ, e.Aside (f e))
    (hhost : ∀ e host, f (e.withHost host) = (f e).withHost host) :
    IsAside (modify f : Run Empty σ Unit) :=
  ⟨fun e => .ofOk rfl (h e), .modify hhost⟩

theorem changeTree (change : Tree → Tree) : IsAside (Run.changeTree change : Run Empty σ Unit) :=
  .modify (fun _ => .of_eq rfl rfl) fun _ _ => rfl

theorem withTree (change : Tree → α × Tree) : IsAside (Run.withTree change : Run Empty σ α) :=
  ⟨fun _ => .ofOk rfl (.of_eq rfl rfl), fun _ _ => rfl⟩

theorem fromTree (read : Tree → α) : IsAside (Run.fromTree read : Run Empty σ α) :=
  ⟨fun e => .ofOk rfl (.refl e), fun _ _ => rfl⟩

theorem evaluating {x : Evaluation α} (hx : Reassigns x) :
    IsAside (Run.evaluating x : Run Empty σ (Except ExprError α)) :=
  ⟨fun e => .ofOk rfl (.reassign (hx e.state)), fun _ _ => rfl⟩

theorem reading {x : ArgumentReading α} (hx : Reassigns x) :
    IsAside (Run.reading x : Run Empty σ (Except ArgumentError α)) :=
  ⟨fun e => .ofOk rfl (.reassign (hx e.state)), fun _ _ => rfl⟩

theorem changingState {change : State → Except InvalidVariable State}
    (h : ∀ s t, change s = .ok t → s.Reassigned t) :
    IsAside (Run.changingState change : Run Empty σ Unit) := by
  refine ⟨fun e => ?_, fun e host => ?_⟩
  · rw [AsideAt, Run.changingState, Run.get_bind_apply]
    cases hs : change e.state with
    | ok t => exact .reassign (h _ _ hs)
    | error error => exact .refl e
  · rw [Run.changingState, Run.get_bind_apply, Run.get_bind_apply]
    cases hs : change e.state with
    | ok t => simp only [Engine.withHost, hs]; rfl
    | error error => simp only [Engine.withHost, hs]; rfl

theorem changeClock {change : Clock (TimerAction Empty) → Clock (TimerAction Empty)}
    (h : ∀ c : Clock (TimerAction Empty), c.Lasts (change c)) :
    IsAside (Run.changeClock change : Run Empty σ Unit) :=
  .modify (fun e => .lasts (h e.clock)) fun _ _ => rfl

theorem listen {l : Listener (ListenerAction Empty)} (hfits : l.Fits)
    (hevent : l.event = .passageInit ∨ l.event = .keydown) :
    IsAside (Run.listen l : Run Empty σ Unit) :=
  .modify (fun e => .listen e hfits hevent) fun _ _ => rfl

theorem report (f : Failure) : IsAside (Run.report f : Run Empty σ Unit) :=
  .modify (fun _ => .of_eq rfl rfl) fun _ _ => rfl

theorem moment : IsAside (Run.moment : Run Empty σ Moment) :=
  ⟨fun e => .ofOk rfl (.refl e), fun _ _ => rfl⟩

theorem isStale (m : Moment) : IsAside (Run.isStale m : Run Empty σ Bool) :=
  ⟨fun e => .ofOk rfl (.refl e), fun _ _ => rfl⟩

end IsAside

end StoryEngine
