import StoryEngine.Proofs.Engine.StageWork
import StoryEngine.Proofs.Play.Firings
/-!
# StoryEngine.Proofs.Engine.StageTasks

What is done to the texts of a turn leads from each stage to the next one. A text whose turn has
come is rendered, and shown at once or typed. Its first letter is typed by a timer of its own, its
other letters by an interval. When it is typed out, the one listener that waits for that starts the
next text, or announces that there is none. All tasks are right in their stages
(`performsInStages`), whatever else they do.
-/

namespace StoryEngine

variable {α : Type} {p : Perform Empty Record} {s : Stage} {e : Engine Empty Record}

/-! ### Typing -/

/-- The text is being typed, and this is its typing. -/
structure Engine.IsTyping (id index : Nat) (e : Engine Empty Record) : Prop where
  stage : e.InStage (.typing id)
  mark : e.marks[index]? = some ⟨id, e.moment, false⟩

/-- The typing of a text is made, and no timer is set for its first letter. -/
structure Engine.IsMade (id index : Nat) (e : Engine Empty Record) : Prop where
  stage : e.InStage (.waiting id)
  mark : e.marks[index]? = some ⟨id, e.moment, false⟩
  gone : ∀ timer ∈ e.clock.timers, ¬ timer.Begins e.moment e.marks

theorem Engine.IsTyping.aside {id index : Nat} {e' : Engine Empty Record} (h : e.IsTyping id index)
    (ha : e.Aside e') : e'.IsTyping id index where
  stage := h.stage.aside ha
  mark := by
    rw [ha.marks_eq, ha.moment_eq]
    exact h.mark

theorem Engine.InStage.rests (h : e.InStage s) (hs : s.isOpen = true)
    (hplaying : e.isPlaying = false) : Rests e :=
  ⟨s, h, hs, hplaying⟩

theorem Engine.IsTyping.rests {id index : Nat} (h : e.IsTyping id index) : Rests e :=
  h.stage.rests rfl (h.stage.not_playing fun _ h => by cases h)

/-- The mark of a text that is being typed. -/
theorem Engine.getElem?_marks (e : Engine Empty Record) (index : Nat) :
    e.marks[index]? = e.typings[index]?.map Typing.mark := by
  unfold Engine.marks
  rw [List.getElem?_map, Array.getElem?_toList]

theorem Engine.typing_of_mark {index : Nat} {mark : TypingMark} (h : e.marks[index]? = some mark) :
    ∃ t, e.typings[index]? = some t ∧ t.mark = mark := by
  rw [Engine.getElem?_marks] at h
  exact Option.map_eq_some_iff.mp h

/-- A text that is typed out leaves the queue, and those who wait for that are called. -/
theorem ends_stopTyping (hp : PerformsInStages p) {id index : Nat} (h : e.IsTyping id index)
    {t : Typing} (hid : t.id = id) (hstopped : t.isStopped = false) :
    EndsIn Rests (Builtin.stopTyping p index t) e := by
  unfold Builtin.stopTyping
  rw [hstopped, hid]
  refine .modify_next (.modify_next ?_)
  refine (hp.ends (.stop (h.stage.stop h.mark) "")).seq fun _ e₁ h₁ => ?_
  obtain ⟨s₁, hs₁, hopen, hplaying⟩ := h₁
  exact (IsAside.changeTree _).ends (fun _ ha => .aside ⟨s₁, hs₁, hopen, hplaying⟩ ha) hs₁.isRight

/-- The next letter of a text is typed, and work goes on if there was one or not. -/
theorem ends_withTyper {β : Type} {Q : Engine Empty Record → Prop} {id index : Nat}
    (h : e.IsTyping id index) {change : Typer → Tree → α × Typer × Tree} {t : Typing}
    {f : α → Run Empty Record β} (hfail : ∀ e', e'.IsTyping id index → Q e')
    (hf : ∀ a e', e'.IsTyping id index → EndsIn Q (f a) e') :
    EndsIn Q (Builtin.withTyper index t change >>= f) e :=
  ((Builtin.aside_withTyper index t change).ends (fun _ ha => h.aside ha) h.stage.isRight).bind
    hfail hf

theorem Engine.IsTyping.typing {id index : Nat} (h : e.IsTyping id index) :
    ∃ t, e.typings[index]? = some t ∧ t.id = id ∧ t.isStopped = false := by
  obtain ⟨t, ht, hmark⟩ := Engine.typing_of_mark h.mark
  exact ⟨t, ht, congrArg TypingMark.id hmark, congrArg TypingMark.isStopped hmark⟩

/-- The first letter of a text is typed, and an interval is set for the others. -/
theorem ends_beginTyping (hp : PerformsInStages p) {id index : Nat} (h : e.IsMade id index) :
    EndsIn Rests (Builtin.beginTyping p index) e := by
  obtain ⟨t, ht, htmark⟩ := Engine.typing_of_mark h.mark
  have hnow : t.moment = e.moment := congrArg TypingMark.moment htmark
  refine .get_next ?_
  rw [ht]
  refine .isStale_of_eq hnow ?_
  simp only [Bool.false_eq_true, if_false]
  have hbegun : EndsIn (fun e' => e'.IsTyping id index) (p (.trigger .typingStart "")) e := by
    refine (hp.ends (.begin h.stage h.gone "")).mono fun e' ⟨hstage, hmarks, hmoment⟩ => ⟨hstage, ?_⟩
    rw [hmarks, hmoment]
    exact h.mark
  refine hbegun.bind (fun _ h₁ => h₁.rests) fun _ e₁ h₁ => .get_next ?_
  obtain ⟨t₁, ht₁, hid, hstopped⟩ := h₁.typing
  rw [ht₁]
  refine ends_withTyper h₁ (fun _ h₂ => h₂.rests) fun typed e₂ h₂ => ?_
  cases typed with
  | true =>
      have hset := h₂.stage.setLetters h₂.mark t₁.speed
      exact .ofOk rfl (hset.rests rfl (hset.not_playing fun _ h => by cases h))
  | false => exact ends_stopTyping hp h₂ hid hstopped

/-- A timer for the first letter of a text fires. A text of an earlier moment is given up. -/
theorem ends_beginTyping_timer (hp : PerformsInStages p) (h : Rests e) {index : Nat}
    {mark : TypingMark} (hmark : e.marks[index]? = some mark)
    (hnow : mark.moment = e.moment → mark.isStopped = false ∧ e.InStage (.waiting mark.id) ∧
      ∀ timer ∈ e.clock.timers, ¬ timer.Begins e.moment e.marks) :
    EndsIn Rests (Builtin.beginTyping p index) e := by
  obtain ⟨s, hs, hopen, hplaying⟩ := h
  obtain ⟨t, ht, htmark⟩ := Engine.typing_of_mark hmark
  have hmoment : t.moment = mark.moment := congrArg TypingMark.moment htmark
  by_cases hm : mark.moment = e.moment
  · obtain ⟨hstopped, hstage, hgone⟩ := hnow hm
    refine ends_beginTyping hp ⟨hstage, ?_, hgone⟩
    rw [hmark, ← hm, ← hstopped]
  · refine .get_next ?_
    rw [ht]
    refine .isStale_of_ne (fun h => hm (hmoment.symm.trans h)) ?_
    exact .ofOk rfl ((hs.giveUp hmark hm).rests hopen hplaying)

/-- The interval for the letters of a text fires. A text of an earlier moment is given up. -/
theorem ends_typeLetter (hp : PerformsInStages p) (h : Rests e) {index : Nat} {mark : TypingMark}
    (hmark : e.marks[index]? = some mark)
    (hlive : mark.isLive e.moment = true → e.InStage (.typing mark.id)) (id : TimerId) :
    EndsIn Rests (Builtin.typeLetter p index id) e := by
  obtain ⟨s, hs, hopen, hplaying⟩ := h
  obtain ⟨t, ht, htmark⟩ := Engine.typing_of_mark hmark
  have hclear {e' : Engine Empty Record} (h' : Rests e') :
      EndsIn Rests (Run.changeClock fun c => c.clearTimer id) e' :=
    .ofOk rfl (h'.aside (.lasts (.clearTimer _ id)))
  refine .get_next ?_
  rw [ht]
  cases hstopped : t.isStopped with
  | true =>
      simp only [hstopped, if_true]
      exact hclear ⟨s, hs, hopen, hplaying⟩
  | false =>
      simp only [hstopped, Bool.false_eq_true, if_false]
      by_cases hm : t.moment = e.moment
      · refine .isStale_of_eq hm ?_
        simp only [Bool.false_eq_true, if_false]
        have hlast : mark = ⟨mark.id, e.moment, false⟩ := by
          rw [← htmark, ← hm, ← hstopped]
          rfl
        have htyping : e.IsTyping mark.id index := by
          refine ⟨hlive ?_, hmark.trans (congrArg some hlast)⟩
          rw [hlast]
          simp [TypingMark.isLive]
        refine ends_withTyper htyping (fun _ h₁ => h₁.rests) fun typed e₁ h₁ => ?_
        cases typed with
        | true => exact .pure h₁.rests
        | false =>
            refine .modify_next (ends_stopTyping hp (h₁.aside (.lasts (.clearTimer _ id))) ?_ hstopped)
            exact congrArg TypingMark.id htmark
      · refine .isStale_of_ne hm ?_
        have hpast : mark.moment ≠ e.moment := by
          rw [← htmark]
          exact hm
        exact .modify_next (hclear ((hs.giveUp hmark hpast).rests hopen hplaying))

/-! ### The turn of a text -/

theorem makeTyping_apply {id : Nat} (h : e.InStage (.rendering id)) {call : TypeCall}
    (hid : call.id = id) (wrapper : ElementId) :
    ∃ e₁, Builtin.makeTyping call wrapper e.moment e = (.ok e.typings.size, e₁) ∧
      e₁.IsMade id e.typings.size := by
  have hkeys : Engine.InStage (.rendering id) { e with
      listeners := Listener.off e.listeners (some .keydown) Builtin.typingNamespace } :=
    h.aside (Builtin.aside_unlistenKeys.aside e)
  have hmade (tree : Tree) (t : Typing) (ht : t.mark = ⟨id, e.moment, false⟩) :
      Engine.IsMade id e.typings.size { e with
        tree := tree
        typings := e.typings.push t
        listeners := Listener.off e.listeners (some .keydown) Builtin.typingNamespace ++
          [⟨.keydown, some Builtin.typingNamespace, false, .skipTyping e.typings.size⟩] ++
          [stopListener] } := by
    refine ⟨hkeys.makeTyping ht rfl rfl, ?_, ?_⟩
    · rw [Engine.getElem?_marks, Array.getElem?_push_size, Option.map_some, ht]
      rfl
    · show ∀ timer ∈ e.clock.timers,
        ¬ timer.Begins e.moment ((e.typings.push t).toList.map Typing.mark)
      rw [Array.toList_push, List.map_append, List.map_singleton, ht]
      exact fun timer htimer => h.clocked.not_begins_push htimer
  have hmark (t : Typing) (hid' : t.id = call.id) (hm : t.moment = e.moment)
      (hstopped : t.isStopped = false) : t.mark = ⟨id, e.moment, false⟩ := by
    unfold Typing.mark
    rw [hid', hid, hm, hstopped]
  unfold Builtin.makeTyping
  dsimp only
  split
  · exact ⟨_, rfl, hmade _ _ (hmark _ rfl rfl rfl)⟩
  · exact ⟨_, rfl, hmade _ _ (hmark _ rfl rfl rfl)⟩

/-- A text that was rendered is shown at once, or its typing is made. -/
theorem placeText_apply {id : Nat} (h : e.InStage (.rendering id)) {call : TypeCall}
    (hid : call.id = id) (wrapper : ElementId) :
    ∃ placed e₁, Builtin.placeText call wrapper e = (.ok placed, e₁) ∧
      match placed with
      | .shown => e₁.InStage (.rendering id)
      | .waiting => e₁.InStage (.waiting id)
      | .typed index => e₁.IsMade id index := by
  obtain ⟨atOnce, hatOnce⟩ : ∃ atOnce, Builtin.isShownAtOnce call wrapper e = (.ok atOnce, e) :=
    ⟨_, rfl⟩
  have hmoment : Run.moment e = (.ok e.moment, e) := rfl
  have hput : Engine.InStage (.rendering id) { e with
      tree := (e.tree.replaceElement call.parent call.target (.element wrapper)).2 } :=
    h.aside (.of_eq rfl rfl)
  rw [Builtin.placeText, Run.bind_of_ok hmoment, Run.bind_of_ok hatOnce,
    Run.bind_of_ok (Run.withTree_apply _ _)]
  cases atOnce with
  | true => exact ⟨.shown, _, rfl, hput⟩
  | false =>
      obtain ⟨e₁, hmade, h₁⟩ := makeTyping_apply hput hid wrapper
      change Builtin.makeTyping call wrapper e.moment _ = _ at hmade
      simp only [Bool.false_eq_true, if_false]
      rw [Run.bind_of_ok hmade]
      split
      · exact ⟨.waiting, _, rfl, h₁.stage.setBegin h₁.gone h₁.mark call.options.start⟩
      · exact ⟨.typed _, _, rfl, h₁⟩

/-- The turn of a text has come. -/
theorem ends_runTypeBody (hp : PerformsInStages p) {id : Nat} (h : e.InStage (.rendering id))
    {call : TypeCall} (hid : call.id = id) : EndsIn Rests (Builtin.runTypeBody p call) e := by
  rw [Builtin.runTypeBody_eq]
  have hquiet := h.not_playing fun _ h => by cases h
  have hwrapped := (Builtin.asks_wrapText call).ends hp rfl h rfl
  rw [hquiet] at hwrapped
  refine hwrapped.bind (fun _ => Rendered.rests) fun wrapper e₁ h₁ => ?_
  -- it still has its turn, whatever texts joined the queue behind it
  obtain ⟨s₁, hs₁, -, hplaying₁, hsame⟩ := h₁
  have hrendering := hsame (.inr rfl)
  subst hrendering
  obtain ⟨placed, e₂, hrun, hplaced⟩ := placeText_apply hs₁ hid wrapper
  refine .next hrun ?_
  cases placed with
  | shown =>
      -- the next text has its turn right away, if there is one
      have hnext := hplaced.dequeue
      have hquiet₂ : e₂.isPlaying = false := hplaced.not_playing fun _ h => by cases h
      have htaken : Builtin.dequeue e₂ = (.ok
          ((e₂.typeQueue.map List.tail).any fun queue => !queue.isEmpty),
          { e₂ with typeQueue := e₂.typeQueue.map List.tail }) := rfl
      refine .next htaken ?_
      split
      · exact hp.ends (.start hnext hquiet₂)
      · exact .pure (hnext.rests rfl hquiet₂)
  | waiting => exact .pure (hplaced.rests rfl (hplaced.not_playing fun _ h => by cases h))
  | typed index => exact ends_beginTyping hp hplaced

/-- The first text of the queue is started, if there is one. -/
theorem ends_startFirst (hp : PerformsInStages p) {next : Nat} (h : e.InStage (.free next))
    (hplaying : e.isPlaying = false) : EndsIn Rests (Builtin.startFirst p) e := by
  refine .next (Builtin.firstText_apply e) ?_
  cases htexts : e.texts with
  | nil => exact .pure (h.rests rfl hplaying)
  | cons job rest => exact hp.ends (.text h hplaying htexts .nothing)

/-- A text is typed out: the next one is started, or it is announced that there is none. -/
theorem ends_nextTyping (hp : PerformsInStages p) {next : Nat} (hsome : e.typeQueue.isSome = true)
    (h : e.InStage (if e.texts = [] then .drained next else .free next))
    (hplaying : e.isPlaying = false) : EndsIn Rests (Builtin.nextTyping p) e := by
  refine .get_next ?_
  unfold Engine.texts at h
  rcases hqueue : e.typeQueue with _ | _ | ⟨job, rest⟩
  · rw [hqueue] at hsome
    cases hsome
  · rw [hqueue] at h
    exact hp.ends (.complete h "")
  · rw [hqueue] at h
    exact hp.ends (.start h hplaying)

/-! ### Events -/

theorem trigger_unheard (h : e.InStage s) {event : Event}
    (hevent : event = .typingStart ∨ event = .typingComplete) (detail : String) :
    trigger Host.idle p event detail e = (.ok (), e) := by
  have htake := Listener.take_of_fits h.listening.fits hevent
  rw [trigger, Run.get_bind_apply, Run.modify_bind_apply, htake]
  rfl

/-- Those are taken whom no text waits for. -/
theorem Engine.aside_take (e : Engine Empty Record) {event : Event}
    (h : event = .passageInit ∨ event = .keydown) :
    e.Aside { e with listeners := (Listener.take e.listeners event).2 } := by
  refine .listening (fun l hl => .inl (List.mem_filter.mp hl).1) fun other hinit hkey => ?_
  refine Listener.of_take_of_ne e.listeners event other ?_
  rintro rfl
  exact h.elim hinit hkey

/-- All those who listen to an event are called, and each leads from such an engine to such a one. -/
theorem ends_trigger {Q : Engine Empty Record → Prop} {event : Event} {detail : String}
    (haside : ∀ {e e' : Engine Empty Record}, Q e → e.Aside e' → Q e')
    (hfits : ∀ l ∈ e.listeners, l.Fits)
    (hrun : ∀ action : ListenerAction Empty, action.event = event → ∀ e', Q e' →
      EndsIn Q (runListener Host.idle p detail action) e')
    (h : Q { e with listeners := (Listener.take e.listeners event).2 }) :
    EndsIn Q (trigger Host.idle p event detail) e := by
  have hcall (actions : List (ListenerAction Empty)) (hactions : ∀ action ∈ actions,
      action.event = event) : ∀ {e' : Engine Empty Record}, Q e' →
      EndsIn Q (callListeners Host.idle p detail actions) e' := by
    induction actions with
    | nil => exact .pure
    | cons action rest ih =>
        intro e' he'
        have hfirst := (hrun action (hactions action List.mem_cons_self) e' he').reporting haside
        exact hfirst.seq fun _ e₁ h₁ =>
          ih (fun other hother => hactions other (List.mem_cons_of_mem _ hother)) h₁
  refine .get_next (.modify_next (hcall _ (fun action haction => ?_) h))
  obtain ⟨l, hl, rfl⟩ := List.mem_map.mp haction
  obtain ⟨hmem, hevent⟩ := List.mem_filter.mp hl
  rw [← hfits l hmem]
  exact of_decide_eq_true hevent

/-- One who listens is called. -/
theorem ends_callListener {detail : String} {action : ListenerAction Empty}
    (h : EndsIn Rests (runListener Host.idle p detail action) e) :
    EndsIn Rests (callListeners Host.idle p detail [action]) e :=
  (h.reporting Rests.aside).seq fun _ _ h => .pure h

/-- The passage has been rendered: the first text of the queue is started. -/
theorem ends_land (hp : PerformsInStages p) {next : Nat} (h : e.InStage (.landed next))
    (detail : String) : EndsIn Rests (trigger Host.idle p .passageEnd detail) e := by
  have hquiet := h.not_playing fun _ h => by cases h
  have hfree := h.takeEnd
  refine .get_next (.modify_next ?_)
  have hactions : (Listener.take e.listeners .passageEnd).1 =
      (Listener.of e.listeners .passageEnd).map (·.action) := rfl
  rw [hactions]
  rcases h.listening.starts with hnone | ⟨hone, -⟩
  · rw [hnone]
    exact .pure (hfree.rests rfl hquiet)
  · rw [hone]
    exact ends_callListener (hp.ends (.start hfree hquiet))

/-- A text is typed out: the one listener for that starts the next text, or announces that there is
none. -/
theorem ends_stop (hp : PerformsInStages p) {id : Nat} (h : e.InStage (.ending id))
    (detail : String) :
    EndsIn Rests (trigger Host.idle p .typingStop detail) (e.noting (.trigger .typingStop detail)) := by
  have hquiet := h.not_playing fun _ h => by cases h
  -- the listener that the text registered when its typing was made is the only one
  have hone : (Listener.take (e.noting (.trigger .typingStop detail)).listeners .typingStop).1 =
      [.nextTyping] := by
    show (Listener.of e.listeners .typingStop).map (·.action) = [.nextTyping]
    rw [h.listening.stop (h.queue rfl)]
    rfl
  refine .get_next (.modify_next ?_)
  rw [hone]
  exact ends_callListener (ends_nextTyping hp (h.queue rfl) (h.takeStop detail) hquiet)

/-- A turn has begun, and no text has joined its queue. -/
def Begun (e : Engine Empty Record) : Prop :=
  (∃ next, e.InStage (.free next)) ∧ e.typeQueue = none ∧ e.isPlaying = false

theorem Begun.aside {e' : Engine Empty Record} (h : Begun e) (ha : e.Aside e') : Begun e' := by
  obtain ⟨⟨next, hs⟩, hqueue, hplaying⟩ := h
  have hsame : e'.typeQueue = e.typeQueue := congrArg (·.1.1) ha.part
  exact ⟨⟨next, hs.aside ha⟩, hsame.trans hqueue, ha.isPlaying_eq.trans hplaying⟩

/-- When a turn begins, what belongs to earlier ones is put an end to. -/
theorem ends_turn (h : Begun e) (detail : String) :
    EndsIn Begun (trigger Host.idle p .passageInit detail) e := by
  obtain ⟨⟨next, hs⟩, -, -⟩ := id h
  refine ends_trigger Begun.aside hs.listening.fits (fun action haction e' h' => ?_)
    (h.aside (e.aside_take (.inl rfl)))
  obtain ⟨⟨next', hs'⟩, hqueue, hplaying⟩ := id h'
  cases action with
  | clearRepeats => exact Builtin.aside_clearRepeats.ends (fun _ ha => h'.aside ha) hs'.isRight
  | clearTimed => exact Builtin.aside_clearTimed.ends (fun _ ha => h'.aside ha) hs'.isRight
  | dropTyping => exact .ofOk rfl ⟨⟨next', hs'.dropTyping hqueue⟩, hqueue, hplaying⟩
  | host procedure => exact procedure.elim
  | _ => cases haction

/-- The key that finishes a text only changes how far it is typed. -/
theorem ends_key (h : Rests e) (key : String) :
    EndsIn Rests (trigger Host.idle p .keydown key) e := by
  obtain ⟨s, hs, -, -⟩ := id h
  refine ends_trigger Rests.aside hs.listening.fits (fun action haction e' h' => ?_)
    (h.aside (e.aside_take (.inr rfl)))
  obtain ⟨s', hs', -, -⟩ := id h'
  cases action with
  | skipTyping index =>
      exact (Builtin.aside_skipTyping index key).ends (fun _ ha => h'.aside ha) hs'.isRight
  | host procedure => exact procedure.elim
  | _ => cases haction

/-! ### Handlers -/

theorem Engine.aside_enterShadow (e : Engine Empty Record) (h : ShadowHandler Empty) :
    e.Aside (e.enterShadow h) :=
  .of_eq rfl rfl

theorem ends_runShadowed {id : HandlerId} {handler : ShadowHandler Empty}
    (hhandler : e.handlers[id.index]? = some handler) {x : Run Empty Record Unit}
    (hx : EndsIn Rests x (e.enterShadow handler)) : EndsIn Rests (runShadowed id x) e := by
  have hrun : runShadowed id x e =
      Run.andFinally x (fun e' => e'.leaveShadow id e.state.overlays.length e.current)
        (e.enterShadow handler) := by
    rw [runShadowed_apply, hhandler]
  exact .congr hrun (hx.andFinally fun e' h' => h'.aside (e'.aside_leaveShadow id _ _))

/-- The handler of a text is invoked when its turn has come. -/
theorem ends_text (hp : PerformsInStages p) {id : Nat} (h : e.InStage (.rendering id))
    {handler : HandlerId} (hkind : e.Holds handler (ShadowHandler.IsText id)) (arg : HandlerArg) :
    EndsIn Rests (invokeHandler (runCallback Host.idle p) handler arg) e := by
  obtain ⟨text, htext, hstart, ⟨call, hid, hcallback⟩, hdone⟩ := hkind
  have hinner : EndsIn Rests (Builtin.runTypeBody p call) (e.enterShadow text) :=
    ends_runTypeBody hp (h.aside (e.aside_enterShadow text)) hid
  refine .get_next ?_
  rw [htext]
  simp only [hstart, hcallback, hdone, runPart?, pure_bind, Option.isSome_some, if_true]
  exact (ends_runShadowed htext hinner).seq fun _ _ h => .pure h

/-- The handler of a click, an interval or a chain renders something, and may go to a passage. -/
theorem ends_plain (hp : PerformsInStages p) (h : e.InStage s) (hs : s.isOpen = true)
    (hplaying : e.isPlaying = false) {id : HandlerId} (hid : e.Holds id ShadowHandler.IsPlain)
    (arg : HandlerArg) : EndsIn Rests (invokeHandler (runCallback Host.idle p) id arg) e := by
  obtain ⟨plain, hplain, hkind⟩ := hid
  have hdone {e' : Engine Empty Record} (h' : Rests e') :
      EndsIn Rests (runPart? (runCallback Host.idle p) arg plain.done) e' := by
    cases hd : plain.done with
    | none => exact .pure h'
    | some part =>
        obtain ⟨title, rfl⟩ := hkind.done part hd
        exact hp.ends (.navigate h' title)
  refine .get_next ?_
  rw [hplain]
  simp only [hkind.start, runPart?, pure_bind]
  cases hcallback : plain.callback with
  | none => exact hdone (h.rests hs hplaying)
  | some callback =>
      have hinner : EndsIn (Rendered s false) (runCallback Host.idle p callback arg)
          (e.enterShadow plain) := by
        have hentered := (asks_rendering callback (hkind.callback callback hcallback) arg).ends hp rfl
          (h.aside (e.aside_enterShadow plain)) hs
        rw [show (e.enterShadow plain).isPlaying = false from hplaying] at hentered
        exact hentered
      simp only [Option.isSome_some, if_true]
      exact (ends_runShadowed hplain (hinner.mono fun _ => Rendered.rests)).seq fun _ _ => hdone

/-! ### Passages -/

theorem ends_showPassage (hp : PerformsInStages p) (h : Begun e) (source : String) :
    EndsIn (fun e' => ∃ next, e'.InStage (.landed next)) (showPassage p source) e := by
  obtain ⟨⟨next, hs⟩, hqueue, -⟩ := h
  refine .congr (showPassage_apply p source e) ?_
  have hrendered := hp.ends (.render (hs.beginShow hqueue) rfl e.display source)
  -- the render comes to its end, and no text has been started while it lasted
  refine .bindSure (hp.sure _ _) hrendered fun _ e₁ ⟨s₁, hs₁, _, _, hsame⟩ => ?_
  have hfree := hsame (.inl rfl)
  subst hfree
  exact .ofOk rfl ⟨next, hs₁.endShow⟩

/-- A passage is gone to: a turn begins, and the first text of its queue is started when the passage
has been rendered. -/
theorem ends_navigate (hp : PerformsInStages p) (h : Rests e) (title : String) :
    EndsIn Rests (navigate p title) e := by
  obtain ⟨s, hs, hopen, hplaying⟩ := h
  refine .get_next ?_
  cases Entries.find? title e.passages with
  | none => exact .fail (hs.rests hopen hplaying)
  | some source =>
      have hsure : Sure (showPassage p source) :=
        .bind (.modify _) fun _ => .bind .get fun _ => .bind (hp.sure _ _) fun _ => .modify _
      have hbegun {e' : Engine Empty Record} (h' : Begun e') : Rests e' := by
        obtain ⟨⟨next, hs'⟩, -, hquiet⟩ := h'
        exact hs'.rests rfl hquiet
      refine .modify_next ?_
      refine (hp.ends (.turn hs hopen hplaying title title)).bind (fun _ => hbegun) fun _ e₁ h₁ => ?_
      refine .bindSure hsure (ends_showPassage hp h₁ source) fun _ e₂ ⟨next, hs₂⟩ => ?_
      exact hp.ends (.land hs₂ title)

/-! ### Timers -/

/-- A repeat of the moment is invoked once more, one of an earlier moment is forgotten. -/
theorem ends_repeatTick (hp : PerformsInStages p) (h : e.InStage s) (hs : s.isOpen = true)
    (hplaying : e.isPlaying = false) {id : TimerId} {due : Nat} {period : Option Nat}
    {handler : HandlerId} (hplain : e.Holds handler ShadowHandler.IsPlain) (moment : Moment) :
    EndsIn Rests (runTimer Host.idle p ⟨id, due, period, .repeatTick handler moment⟩) e := by
  by_cases hm : moment = e.moment
  · refine .isStale_of_eq hm (.get_next (.modify_next ?_))
    have hticking : Engine.InStage s { e with loopBreak := none, repeatTimer := some id } :=
      h.aside (.of_eq rfl rfl)
    exact (hp.ends (.plain hticking hs hplaying hplain .nothing)).andFinally fun _ h' =>
      h'.aside (.of_eq rfl rfl)
  · refine .isStale_of_ne hm ?_
    have hcancel : IsAside (do
        Run.changeClock fun c => c.clearTimer id
        Builtin.forgetRepeat id : Run Empty Record Unit) :=
      .bind (.changeClock (.clearTimer · id)) fun _ => Builtin.aside_forgetRepeat id
    exact hcancel.ends (fun _ ha => (h.rests hs hplaying).aside ha) h.isRight

/-- The next item of a chain is invoked, if its turn has come. -/
theorem ends_timedStep (hp : PerformsInStages p) (h : e.InStage s) (hs : s.isOpen = true)
    (hplaying : e.isPlaying = false) {id : TimerId} {due : Nat} {period : Option Nat}
    (chain : Nat) :
    EndsIn Rests (runTimer Host.idle p ⟨id, due, period, .timedStep chain⟩) e := by
  have hrests := h.rests hs hplaying
  refine (Builtin.aside_takeItem chain id).bind_ends (fun _ ha => hrests.aside ha) h.isRight
    fun found e₁ htake ha => ?_
  cases found with
  | none => exact .pure (hrests.aside ha)
  | some c =>
      obtain ⟨k, hk, hhandler, -⟩ := Builtin.chain_of_takeItem htake
      have h₁ := h.aside ha
      have hplain := h₁.plain k.handler (.item (Array.mem_of_getElem? hk))
      rw [hhandler] at hplain
      exact hp.ends (.plain h₁ hs (ha.isPlaying_eq.trans hplaying) hplain (.item c.2))

/-- A timer fires. A text that is past is given up, and one of the turn is typed on. -/
theorem ends_runTimer (hp : PerformsInStages p) (h : e.InStage s) (hs : s.isOpen = true)
    (hplaying : e.isPlaying = false) {limit : Nat} {timer : Timer (TimerAction Empty)}
    {clock : Clock (TimerAction Empty)} (hdue : e.clock.takeDue limit = some (timer, clock)) :
    EndsIn Rests (runTimer Host.idle p timer) { e with clock := clock } := by
  have hpending : timer ∈ e.clock.timers := Clock.mem_of_takeDue hdue
  have haside : e.Aside { e with clock := clock } := .lasts (.takeDue hdue)
  have htaken : Engine.InStage s { e with clock := clock } := h.aside haside
  have hrests : Rests { e with clock := clock } := htaken.rests hs hplaying
  obtain ⟨id, due, period, action⟩ := timer
  cases action with
  | repeatTick handler moment =>
      have hplain := h.plain handler (.tick hpending rfl)
      exact ends_repeatTick hp htaken hs hplaying
        (hplain.mono haside.handlers ShadowHandler.IsPlain.withStore) moment
  | timedStep chain => exact ends_timedStep hp htaken hs hplaying chain
  | settle element className =>
      simp only [runTimer]
      exact (IsAside.changeTree _).ends (fun _ ha => hrests.aside ha) htaken.isRight
  | beginTyping index =>
      obtain ⟨hperiod, mark, hmark, hnow⟩ := h.clocked.begins _ hpending index rfl
      refine ends_beginTyping_timer hp hrests hmark fun hm => ?_
      obtain ⟨hstopped, hwaiting⟩ := hnow hm
      subst hwaiting
      -- it was the only timer for a text of the moment, and does not fire again
      refine ⟨hstopped, htaken, fun timer' htimer' hbegins => ?_⟩
      obtain ⟨index', mark', haction', hmark', hm'⟩ := hbegins
      obtain ⟨old, hold, hid, -, hsame⟩ := (Clock.Lasts.takeDue hdue).timers timer' htimer'
      refine Clock.ne_of_mem_takeDue hdue hperiod htimer' (hid.trans ?_)
      exact h.clocked.single old hold _ hpending ⟨index', mark', hsame.symm.trans haction', hmark', hm'⟩
        ⟨index, mark, rfl, hmark, hm⟩
  | typeLetter index =>
      obtain ⟨mark, hmark, hlive⟩ := h.clocked.letters _ hpending index rfl
      refine ends_typeLetter hp hrests hmark (fun hl => ?_) id
      have htyping := hlive hl
      subst htyping
      exact htaken
  | host procedure => exact procedure.elim

theorem Rests.isRight (h : Rests e) : e.IsRight :=
  let ⟨_, hs, _⟩ := h
  hs.isRight

/-- The timers that are due fire one after another. -/
theorem ends_fireDue (hp : PerformsInStages p) (limit fuel : Nat) (h : Rests e) :
    EndsIn Rests (fireDue Host.idle p limit fuel) e := by
  induction fuel generalizing e with
  | zero => exact h.isRight
  | succ fuel ih =>
      have hrun := fireDue_succ Host.idle p limit fuel e
      cases hdue : e.clock.takeDue limit with
      | none =>
          rw [hdue] at hrun
          exact .ofOk hrun h
      | some due =>
          obtain ⟨timer, clock⟩ := due
          obtain ⟨s, hs, hopen, hplaying⟩ := h
          rw [hdue] at hrun
          have hfired := ends_runTimer hp hs hopen hplaying hdue
          exact .congr hrun ((hfired.reporting Rests.aside).seq fun _ _ => ih)

theorem ends_advance (hp : PerformsInStages p) (fuel ms : Nat) (h : Rests e) :
    EndsIn Rests (advance Host.idle p fuel ms) e :=
  .get_next ((ends_fireDue hp _ fuel h).seq fun _ _ h₁ =>
    .ofOk rfl (h₁.aside (.lasts (.setNow _ _))))

/-! ### Tasks -/

/-- What was noted down before a task is right. -/
theorem Staged.isRight {t : Task} {Q : Engine Empty Record → Prop} (h : Staged t e Q) :
    e.IsRight := by
  cases h with
  | key h | navigate h | advance h => exact h.isRight
  | turn h => exact h.isRight
  | render h | start h | text h | plain h | begin h | stop h | complete h | land h => exact h.isRight

theorem Rests.noting_other (h : Rests e) {t : Task} (ht : e.occurrence t = .other) :
    Rests (e.noting t) := by
  obtain ⟨s, hs, hopen, hplaying⟩ := h
  exact ⟨s, hs.noting_other (.inl hopen) ht, hopen, hplaying⟩

/-- A handler that is not that of a text is nothing to texts. -/
theorem Engine.occurrence_plain {id : HandlerId} (h : e.Holds id ShadowHandler.IsPlain)
    (arg : HandlerArg) : e.occurrence (.invoke id arg) = .other := by
  obtain ⟨handler, hhandler, hkind⟩ := h
  have hnone : handler.text? = none := by
    unfold ShadowHandler.text?
    cases hcallback : handler.callback with
    | none => rfl
    | some callback =>
        have hrenders := hkind.callback callback hcallback
        cases callback with
        | typeBody call => exact hrenders.elim
        | _ => rfl
  simp only [Engine.occurrence, hhandler, Option.bind_some, hnone]

/-- All tasks end as they should. -/
theorem performsInStages (n : Nat) : PerformsInStages (recorded n) := by
  induction n with
  | zero => exact ⟨fun _ _ _ _ _ h => (by cases h), fun h => h.isRight⟩
  | succ n ih =>
      refine ⟨fun out source => .bind (.modify _) fun _ => sure_render _ out source, fun h => ?_⟩
      refine .modify_next ?_
      cases h with
      | render h hs out source =>
          exact (asks_render out source).ends ih rfl (h.noting_other (.inl hs) rfl) hs
      | start h hplaying =>
          exact ends_startFirst ih (h.noting_other (.inl rfl) rfl) hplaying
      | text h hplaying htexts arg =>
          have hkind := h.queued.kinds _ (htexts ▸ List.mem_cons_self)
          rw [h.id_eq htexts] at hkind
          exact ends_text ih (h.noting_text hplaying htexts arg) hkind arg
      | plain h hs hplaying hid arg =>
          exact ends_plain ih (h.noting_other (.inl hs) (Engine.occurrence_plain hid arg)) hs hplaying
            hid arg
      | begin h hgone detail =>
          have hbegun := h.noting_begin hgone detail
          exact .ofOk (trigger_unheard hbegun (.inl rfl) detail) ⟨hbegun, rfl, rfl⟩
      | stop h detail => exact ends_stop ih h detail
      | complete h detail =>
          have hfree := h.noting_complete detail
          have hquiet := h.not_playing fun _ h => by cases h
          exact .ofOk (trigger_unheard hfree (.inr rfl) detail) (hfree.rests rfl hquiet)
      | turn h hs hplaying title detail =>
          exact ends_turn ⟨⟨_, h.noting_turn hs title detail⟩, rfl, hplaying⟩ detail
      | land h detail => exact ends_land ih (h.noting_other (.inr rfl) rfl) detail
      | key h key => exact ends_key (h.noting_other rfl) key
      | navigate h title => exact ends_navigate ih (h.noting_other rfl) title
      | advance h ms => exact ends_advance ih n ms (h.noting_other rfl)

end StoryEngine
