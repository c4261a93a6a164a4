import StoryEngine.Proofs.Engine.StageChanges
/-!
# StoryEngine.Proofs.Engine.StageWork

Work that comes to its end in a stage (`EndsIn`), and the tasks that an engine may be asked to do
in each stage, with what is known when they have ended (`Ready`). A text that joins the queue does
not lead out of the stage (`Engine.InStage.joinQueue`), so neither does what is rendered while
another text has its turn (`Asks.ends`).
-/

namespace StoryEngine

variable {α β : Type}

/-! ### How work ends -/

/-- The work ends in such an engine, unless the fuel runs out. What was noted down is right then,
too. -/
def EndsIn (Q : Engine Empty Record → Prop) (x : Run Empty Record α) (e : Engine Empty Record) :
    Prop :=
  match x e with
  | (.error .outOfFuel, e') => e'.IsRight
  | (_, e') => Q e'

namespace EndsIn

variable {Q Q₁ : Engine Empty Record → Prop} {x : Run Empty Record α}
  {f : α → Run Empty Record β} {e e₁ : Engine Empty Record}

theorem of_eq {r : Except Halt α} (hx : x e = (r, e₁)) (hr : Returned r) (h : Q e₁) :
    EndsIn Q x e := by
  unfold EndsIn
  rw [hx]
  rcases r with (_ | _) | _
  · exact h
  · exact (hr rfl).elim
  · exact h

theorem ofOk {a : α} (hx : x e = (.ok a, e₁)) (h : Q e₁) : EndsIn Q x e :=
  of_eq hx (returned_ok a) h

theorem pure {a : α} (h : Q e) : EndsIn Q (Pure.pure a : Run Empty Record α) e :=
  ofOk rfl h

theorem fail {failure : Failure} (h : Q e) :
    EndsIn Q (Run.fail failure : Run Empty Record α) e :=
  of_eq rfl (returned_failure failure) h

theorem mono (hx : EndsIn Q₁ x e) (h : ∀ e', Q₁ e' → Q e') : EndsIn Q x e := by
  unfold EndsIn at hx ⊢
  generalize x e = outcome at hx ⊢
  rcases outcome with ⟨(_ | _) | _, e'⟩
  · exact h e' hx
  · exact hx
  · exact h e' hx

/-- Work that is other work on another engine. -/
theorem congr {y : Run Empty Record α} (h : x e = y e₁) (hy : EndsIn Q y e₁) : EndsIn Q x e := by
  unfold EndsIn
  rw [h]
  exact hy

/-- Work that goes on after a computation with a known result. -/
theorem next {a : α} (hx : x e = (.ok a, e₁)) (hf : EndsIn Q (f a) e₁) : EndsIn Q (x >>= f) e := by
  unfold EndsIn
  rw [Run.bind_of_ok hx]
  exact hf

theorem modify_next {change : Engine Empty Record → Engine Empty Record}
    {f : PUnit → Run Empty Record β} (hf : EndsIn Q (f ⟨⟩) (change e)) :
    EndsIn Q (modify change >>= f) e :=
  next rfl hf

theorem get_next {f : Engine Empty Record → Run Empty Record β} (hf : EndsIn Q (f e) e) :
    EndsIn Q (MonadState.get >>= f) e :=
  next rfl hf

/-- The moment is the present one. -/
theorem isStale_of_eq {m : Moment} {f : Bool → Run Empty Record β} (h : m = e.moment)
    (hf : EndsIn Q (f false) e) : EndsIn Q (Run.isStale m >>= f) e := by
  have hrun : Run.isStale m e = (.ok (decide (e.moment ≠ m)), e) := rfl
  rw [decide_eq_false fun hne => hne h.symm] at hrun
  exact next hrun hf

/-- The story has left the moment. -/
theorem isStale_of_ne {m : Moment} {f : Bool → Run Empty Record β} (h : m ≠ e.moment)
    (hf : EndsIn Q (f true) e) : EndsIn Q (Run.isStale m >>= f) e := by
  have hrun : Run.isStale m e = (.ok (decide (e.moment ≠ m)), e) := rfl
  rw [decide_eq_true (Ne.symm h)] at hrun
  exact next hrun hf

theorem bind (hx : EndsIn Q₁ x e) (hfail : ∀ e', Q₁ e' → Q e')
    (hf : ∀ a e', Q₁ e' → EndsIn Q (f a) e') : EndsIn Q (x >>= f) e := by
  unfold EndsIn at hx
  rcases h : x e with ⟨halt | a, e'⟩
  · rw [h] at hx
    unfold EndsIn
    rw [Run.bind_of_error h]
    cases halt with
    | failure failure => exact hfail e' hx
    | outOfFuel => exact hx
  · rw [h] at hx
    exact next h (hf a e' hx)

/-- Work after work that leads to an engine of the same kind. -/
theorem seq (hx : EndsIn Q x e) (hf : ∀ a e', Q e' → EndsIn Q (f a) e') : EndsIn Q (x >>= f) e :=
  hx.bind (fun _ h => h) hf

/-- Work after a computation that never fails. -/
theorem bindSure (hs : Sure x) (hx : EndsIn Q₁ x e) (hf : ∀ a e', Q₁ e' → EndsIn Q (f a) e') :
    EndsIn Q (x >>= f) e := by
  unfold EndsIn at hx
  rcases h : x e with ⟨halt | a, e'⟩
  · rw [h] at hx
    unfold EndsIn
    rw [Run.bind_of_error h]
    cases halt with
    | failure failure => exact (hs e failure e' h).elim
    | outOfFuel => exact hx
  · rw [h] at hx
    exact next h (hf a e' hx)

theorem attempt (hx : EndsIn Q x e) : EndsIn Q (Run.attempt x) e := by
  unfold EndsIn Run.attempt at *
  generalize x e = outcome at hx ⊢
  rcases outcome with ⟨(_ | _) | _, e'⟩ <;> exact hx

theorem andFinally {change : Engine Empty Record → Engine Empty Record} (hx : EndsIn Q₁ x e)
    (h : ∀ e', Q₁ e' → Q (change e')) : EndsIn Q (Run.andFinally x change) e := by
  refine bindSure (.attempt x) hx.attempt fun outcome e' he' => modify_next ?_
  cases outcome with
  | ok a => exact .pure (h e' he')
  | error failure => exact .fail (h e' he')

/-- Work of which a failure is noted. -/
theorem reporting {x : Run Empty Record Unit} (hx : EndsIn Q x e)
    (haside : ∀ {e e' : Engine Empty Record}, Q e → e.Aside e' → Q e') :
    EndsIn Q (Run.reporting x) e := by
  refine bindSure (.attempt x) hx.attempt fun outcome e' he' => ?_
  cases outcome with
  | ok u => exact .pure he'
  | error failure => exact .ofOk rfl (haside he' ((IsAside.report failure).aside e'))

end EndsIn

/-! ### Rendered -/

/-- Something has been rendered in a stage. Texts may have been started by it if no passage is being
rendered and no other text has its turn. -/
def Rendered (s : Stage) (isPlaying : Bool) (e : Engine Empty Record) : Prop :=
  ∃ s', e.InStage s' ∧ s'.isOpen = true ∧ e.isPlaying = isPlaying ∧
    (isPlaying = true ∨ s.isBusy = true → s' = s)

/-- No passage is being rendered, and the stage lasts. -/
def Rests (e : Engine Empty Record) : Prop :=
  ∃ s, e.InStage s ∧ s.isOpen = true ∧ e.isPlaying = false

section

variable {s s₁ : Stage} {isPlaying : Bool} {e e₁ e' : Engine Empty Record}

theorem Engine.Aside.isPlaying_eq (h : e.Aside e') : e'.isPlaying = e.isPlaying :=
  congrArg (·.2.1) h.part

theorem Engine.Aside.marks_eq (h : e.Aside e') : e'.marks = e.marks :=
  congrArg (·.1.2.2) h.part

theorem Engine.Aside.moment_eq (h : e.Aside e') : e'.moment = e.moment :=
  congrArg (·.2.2.1) h.part

namespace Rendered

theorem of (h : e.InStage s) (hs : s.isOpen = true) : Rendered s e.isPlaying e :=
  ⟨s, h, hs, rfl, fun _ => rfl⟩

theorem aside (h : Rendered s isPlaying e) (ha : e.Aside e') : Rendered s isPlaying e' := by
  obtain ⟨s', hs', hopen, hplaying, hsame⟩ := h
  exact ⟨s', hs'.aside ha, hopen, ha.isPlaying_eq.trans hplaying, hsame⟩

/-- Something more was rendered. -/
theorem trans (hsame : isPlaying = true ∨ s.isBusy = true → s₁ = s)
    (h : Rendered s₁ isPlaying e) : Rendered s isPlaying e := by
  obtain ⟨s', hs', hopen, hplaying, hsame'⟩ := h
  refine ⟨s', hs', hopen, hplaying, fun hlasts => ?_⟩
  have hfirst := hsame hlasts
  subst hfirst
  exact hsame' hlasts

theorem rests (h : Rendered s false e) : Rests e :=
  let ⟨s', hs', hopen, hplaying, _⟩ := h
  ⟨s', hs', hopen, hplaying⟩

/-- Texts that were started when none had its turn. -/
theorem of_rests {next : Nat} (h : Rests e) : Rendered (.free next) false e := by
  obtain ⟨s', hs', hopen, hplaying⟩ := h
  exact ⟨s', hs', hopen, hplaying, fun hlasts => by simp [Stage.isBusy] at hlasts⟩

end Rendered

theorem Rests.aside (h : Rests e) (ha : e.Aside e') : Rests e' := by
  obtain ⟨s', hs', hopen, hplaying⟩ := h
  exact ⟨s', hs'.aside ha, hopen, ha.isPlaying_eq.trans hplaying⟩

/-- Work that has nothing to do with texts ends in the same stage. -/
theorem IsAside.ends {x : Run Empty Record α} (hx : IsAside x) {Q : Engine Empty Record → Prop}
    (h : ∀ e', e.Aside e' → Q e') (hright : e.IsRight) : EndsIn Q x e := by
  have haside : e.Aside (x e).2 := hx.aside e
  unfold EndsIn
  rcases hr : x e with ⟨(failure | _) | a, e'⟩
  · rw [hr] at haside
    exact h e' haside
  · rw [hr] at haside
    have hhost : e'.host = e.host := congrArg (·.2.2.2.1) haside.part
    show e'.IsRight
    unfold Engine.IsRight
    rw [hhost]
    exact hright
  · rw [hr] at haside
    exact h e' haside

/-- Work that goes on after work that has nothing to do with texts. -/
theorem IsAside.bind_ends {x : Run Empty Record α} (hx : IsAside x)
    {Q : Engine Empty Record → Prop} {f : α → Run Empty Record β} (hfail : ∀ e', e.Aside e' → Q e')
    (hright : e.IsRight)
    (hf : ∀ a e', x e = (.ok a, e') → e.Aside e' → EndsIn Q (f a) e') : EndsIn Q (x >>= f) e := by
  have hfirst := hx.ends hfail hright
  have haside : e.Aside (x e).2 := hx.aside e
  unfold EndsIn at hfirst
  rcases hr : x e with ⟨halt | a, e₁⟩
  · rw [hr] at hfirst
    unfold EndsIn
    rw [Run.bind_of_error hr]
    cases halt <;> exact hfirst
  · rw [hr] at haside
    exact .next hr (hf a e₁ hr haside)

end

/-! ### Joining the queue -/

namespace Engine.InStage

variable {s : Stage} {e : Engine Empty Record}

/-- The queue of the turn is there. -/
theorem openQueue_apply (h : e.InStage s) :
    ∃ isFirst e₁, Builtin.openQueue e = (.ok isFirst, e₁) ∧ e₁.InStage s ∧
      e₁.isPlaying = e.isPlaying ∧ e₁.typeQueue.isSome = true ∧
      (isFirst = true → e₁.texts = []) := by
  cases hqueue : e.typeQueue with
  | none =>
      have hopen := h.openQueue hqueue
        (l := ⟨.passageInit, some Builtin.typingNamespace, true, .dropTyping⟩) rfl rfl
      refine ⟨true, _, ?_, hopen, rfl, rfl, fun _ => ?_⟩
      · rw [Builtin.openQueue, Run.get_bind_apply, hqueue]
        rfl
      · show e.typeQueue.getD [] = []
        rw [hqueue]
        rfl
  | some queue =>
      refine ⟨queue.isEmpty, e, ?_, h, rfl, by rw [hqueue]; rfl, fun hempty => ?_⟩
      · rw [Builtin.openQueue, Run.get_bind_apply, hqueue]
        rfl
      · unfold Engine.texts
        rw [hqueue]
        exact List.isEmpty_iff.mp hempty

/-- A text is put at the end of the queue. -/
theorem enqueue_apply (h : e.InStage s) (hs : s.isOpen = true) (hsome : e.typeQueue.isSome = true)
    (context : Context Empty) {body : Nat → TypeCall} (hbody : ∀ id, (body id).id = id) :
    ∃ e₁, Builtin.enqueue context (fun id => .typeBody (body id)) e = (.ok (), e₁) ∧
      e₁.InStage s ∧ e₁.isPlaying = e.isPlaying ∧ e₁.listeners = e.listeners ∧ e₁.texts ≠ [] := by
  obtain ⟨store, hmade⟩ := ShadowHandler.make_apply context none
    (some (.typeBody (body e.nextTypeId))) none { e with nextTypeId := e.nextTypeId + 1 }
  have hkind : ShadowHandler.IsText e.nextTypeId
      ⟨context, store, none, some (.typeBody (body e.nextTypeId)), none⟩ :=
    ⟨rfl, ⟨_, hbody _, rfl⟩, rfl⟩
  refine ⟨_, ?_, h.enqueue hsome (fun next hs' => by rw [hs'] at hs; cases hs) hkind, rfl, rfl,
    List.append_ne_nil_of_right_ne_nil _ (List.cons_ne_nil _ _)⟩
  rw [Builtin.enqueue, Run.get_bind_apply, Run.modify_bind_apply, Run.bind_of_ok hmade]
  rfl

/-- A text joins the queue. Its turn has come if no other text waits or has its turn, and no passage
is being rendered. -/
theorem joinQueue_apply (h : e.InStage s) (hs : s.isOpen = true) (context : Context Empty)
    {body : Nat → TypeCall} (hbody : ∀ id, (body id).id = id) :
    ∃ isNext e₁, Builtin.joinQueue context (fun id => .typeBody (body id)) e = (.ok isNext, e₁) ∧
      e₁.InStage s ∧ e₁.isPlaying = e.isPlaying ∧
      (isNext = true → e.isPlaying = false ∧ ∃ next, s = .free next) := by
  obtain ⟨isFirst, e₁, hqueue, h₁, hplaying₁, hsome, hempty⟩ := h.openQueue_apply
  obtain ⟨e₂, hput, h₂, hplaying₂, hlisteners, htexts⟩ := h₁.enqueue_apply hs hsome context hbody
  have hplaying : e₂.isPlaying = e.isPlaying := hplaying₂.trans hplaying₁
  cases isFirst with
  | false =>
      refine ⟨false, e₂, ?_, h₂, hplaying, fun h => by cases h⟩
      rw [Builtin.joinQueue, Run.bind_of_ok hqueue, Run.bind_of_ok hput]
      rfl
  | true =>
      -- an open stage in which the queue is empty is free
      have hfree : ∃ next, s = .free next := by
        have hidle : ¬ s.isBusy = true := fun hbusy => h₁.busy hbusy (hempty rfl)
        cases s with
        | free next => exact ⟨next, rfl⟩
        | landed next => cases hs
        | ending id => cases hs
        | drained next => cases hs
        | _ => exact (hidle rfl).elim
      cases hp : e₂.isPlaying with
      | false =>
          refine ⟨true, e₂, ?_, h₂, hplaying, fun _ => ⟨hplaying ▸ hp, hfree⟩⟩
          rw [Builtin.joinQueue, Run.bind_of_ok hqueue, Run.bind_of_ok hput]
          simp only [Bool.not_true, Bool.false_eq_true, if_false]
          rw [Run.get_bind_apply, hp]
          rfl
      | true =>
          -- one that waited already would have found a text in the queue
          have hnone : Listener.of e₂.listeners .passageEnd = [] := by
            rw [hlisteners]
            exact h₁.listening.starts.resolve_right fun hstart => (hstart.2 hsome).2 (hempty rfl)
          refine ⟨false, _, ?_, h₂.listenStart hnone hp htexts, hplaying, fun h => by cases h⟩
          rw [Builtin.joinQueue, Run.bind_of_ok hqueue, Run.bind_of_ok hput]
          simp only [Bool.not_true, Bool.false_eq_true, if_false]
          rw [Run.get_bind_apply, if_pos hp]
          rfl

end Engine.InStage

/-! ### Tasks in stages -/

/-- The engine may be asked to do the task in the stage that it is in, and is such an engine when that
is done. -/
inductive Staged : Task → Engine Empty Record → (Engine Empty Record → Prop) → Prop
  | render {s : Stage} {e : Engine Empty Record} (h : e.InStage s) (hs : s.isOpen = true)
      (out : OutputId) (source : String) : Staged (.render out source) e (Rendered s e.isPlaying)
  | start {next : Nat} {e : Engine Empty Record} (h : e.InStage (.free next))
      (hplaying : e.isPlaying = false) : Staged .startTyping e Rests
  /-- The first text of the queue gets its turn. -/
  | text {next : Nat} {e : Engine Empty Record} {job : TypeJob} {rest : List TypeJob}
      (h : e.InStage (.free next)) (hplaying : e.isPlaying = false) (htexts : e.texts = job :: rest)
      (arg : HandlerArg) : Staged (.invoke job.handler arg) e Rests
  /-- The handler of a click, an interval or a chain is invoked. -/
  | plain {s : Stage} {e : Engine Empty Record} {id : HandlerId} (h : e.InStage s)
      (hs : s.isOpen = true) (hplaying : e.isPlaying = false)
      (hid : e.Holds id ShadowHandler.IsPlain) (arg : HandlerArg) : Staged (.invoke id arg) e Rests
  | begin {id : Nat} {e : Engine Empty Record} (h : e.InStage (.waiting id))
      (hgone : ∀ timer ∈ e.clock.timers, ¬ timer.Begins e.moment e.marks) (detail : String) :
      Staged (.trigger .typingStart detail) e fun e' =>
        e'.InStage (.typing id) ∧ e'.marks = e.marks ∧ e'.moment = e.moment
  | stop {id : Nat} {e : Engine Empty Record} (h : e.InStage (.ending id)) (detail : String) :
      Staged (.trigger .typingStop detail) e Rests
  | complete {next : Nat} {e : Engine Empty Record} (h : e.InStage (.drained next))
      (detail : String) : Staged (.trigger .typingComplete detail) e Rests
  | turn {s : Stage} {e : Engine Empty Record} (h : e.InStage s) (hs : s.isOpen = true)
      (hplaying : e.isPlaying = false) (title detail : String) :
      Staged (.trigger .passageInit detail) (e.beginTurn title) fun e' =>
        (∃ next, e'.InStage (.free next)) ∧ e'.typeQueue = none ∧ e'.isPlaying = false
  | land {next : Nat} {e : Engine Empty Record} (h : e.InStage (.landed next)) (detail : String) :
      Staged (.trigger .passageEnd detail) e Rests
  | key {e : Engine Empty Record} (h : Rests e) (key : String) :
      Staged (.trigger .keydown key) e Rests
  | navigate {e : Engine Empty Record} (h : Rests e) (title : String) :
      Staged (.navigate title) e Rests
  | advance {e : Engine Empty Record} (h : Rests e) (ms : Nat) : Staged (.advance ms) e Rests

/-- Tasks end as they should if they are asked for in the right stage, and renders never fail. -/
structure PerformsInStages (p : Perform Empty Record) : Prop where
  sure (out : OutputId) (source : String) : Sure (p (.render out source))
  ends {t : Task} {e : Engine Empty Record} {Q : Engine Empty Record → Prop} :
    Staged t e Q → EndsIn Q (p t) e

/-- What a render is made up of does nothing to texts but to start them when none has its turn. -/
theorem Asks.ends {scope : Scope} {X : Perform Empty Record → Run Empty Record α}
    {p : Perform Empty Record} (hp : PerformsInStages p) (hX : Asks scope X)
    (hscope : scope = .rendering) : ∀ {s : Stage} {e : Engine Empty Record}, e.InStage s →
      s.isOpen = true → EndsIn (Rendered s e.isPlaying) (X p) e := by
  induction hX with
  | aside hx => exact fun h hs => hx.ends (fun _ ha => (Rendered.of h hs).aside ha) h.isRight
  | bind _ _ ihX ihF =>
      intro s e h hs
      refine (ihX hscope h hs).seq fun a e₁ h₁ => ?_
      -- the first part may have led to another stage, if neither a passage nor a text is in the way
      obtain ⟨s₁, hs₁, hopen, hplaying, hsame⟩ := h₁
      refine (ihF a hscope hs₁ hopen).mono fun e' h' => ?_
      rw [hplaying] at h'
      exact .trans hsame h'
  | get _ _ ihF => exact fun {s e} h hs => .get_next (ihF e hscope h hs)
  | attempt _ ihX => exact fun h hs => (ihX hscope h hs).attempt
  | closing _ haside _ ihX =>
      exact fun h hs => (ihX hscope h hs).andFinally fun e' h' => h'.aside (haside e')
  | render out source => exact fun h hs => hp.ends (.render h hs out source)
  | text context hbody =>
      intro s e h hs
      obtain ⟨isNext, e₁, hrun, h₁, hplaying, hfirst⟩ := h.joinQueue_apply hs context hbody
      refine .next hrun ?_
      cases isNext with
      | false =>
          have hrendered := Rendered.of h₁ hs
          rw [hplaying] at hrendered
          exact .pure hrendered
      | true =>
          obtain ⟨hquiet, next, rfl⟩ := hfirst rfl
          rw [hquiet] at hplaying ⊢
          exact (hp.ends (.start h₁ hplaying)).mono fun _ => Rendered.of_rests
  | _ => cases hscope

end StoryEngine
