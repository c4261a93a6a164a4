import StoryEngine.Proofs.Engine.AsksTasks
/-!
# StoryEngine.Proofs.Engine.Stage

The stages that the texts of a turn go through. In each stage the queue, the texts that are being
typed, the timers and listeners that are set for them, and what was noted down so far fit together
(`Engine.InStage`): the queue has the texts from one identity on, at most its first text is
animated, no timer but that text's own is set for it, a listener waits for its end, and one for the
end of the passage if that is being rendered.

Work that has nothing to do with texts does not lead out of a stage (`Engine.InStage.aside`).
-/

namespace StoryEngine

variable {α β : Type}

/-! ### Stages -/

inductive Stage where
  /-- No text has its turn. The next one has the identity. -/
  | free (next : Nat)
  /-- The passage has been rendered, and those who wait for that have not been called yet. -/
  | landed (next : Nat)
  /-- The text is being rendered. -/
  | rendering (id : Nat)
  /-- The text waits for its first letter. -/
  | waiting (id : Nat)
  /-- The text is being typed. -/
  | typing (id : Nat)
  /-- The text is typed out, and those who wait for that have not been called yet. -/
  | ending (id : Nat)
  /-- The last text is typed out, and those who wait for that have not been called yet. -/
  | drained (next : Nat)

namespace Stage

/-- The identity of the first text in the queue, or of the next text to come into it. -/
def first : Stage → Nat
  | free next => next
  | landed next => next
  | rendering id => id
  | waiting id => id
  | typing id => id
  | ending id => id + 1
  | drained next => next

/-- The texts that are animated. -/
def animating : Stage → List Nat
  | waiting id => [id]
  | typing id => [id]
  | _ => []

/-- The first text of the queue has its turn. -/
def isBusy : Stage → Bool
  | rendering _ => true
  | waiting _ => true
  | typing _ => true
  | _ => false

/-- A listener waits for the end of a text. -/
def listens : Stage → Bool
  | waiting _ => true
  | typing _ => true
  | ending _ => true
  | _ => false

/-- The stage lasts while other work is done. -/
def isOpen : Stage → Bool
  | free _ => true
  | rendering _ => true
  | waiting _ => true
  | typing _ => true
  | _ => false

def isLanded : Stage → Bool
  | landed _ => true
  | _ => false

/-- What was noted down fits the stage. -/
def Admits : Stage → Phase → Prop
  | free next, phase => phase = .idle next ∨ ∃ id, phase = .started id ∧ next = id + 1
  | landed next, phase => phase = .idle next ∨ ∃ id, phase = .started id ∧ next = id + 1
  | rendering id, phase => phase = .started id
  | waiting id, phase => phase = .started id ∨ phase = .waiting id
  | typing id, phase => phase = .typing id
  | ending id, phase => phase = .typing id
  | drained next, phase => phase = .drained next

/-- While a stage lasts, all that is due has been announced. -/
theorem Admits.not_drained {s : Stage} {phase : Phase} (h : s.Admits phase) (hs : s.isOpen = true)
    (next : Nat) : phase ≠ .drained next := by
  rintro rfl
  cases s with
  | free => rcases h with h | ⟨_, h, -⟩ <;> cases h
  | waiting => rcases h with h | h <;> cases h
  | rendering | typing => cases h
  | landed | ending | drained => cases hs

end Stage

/-! ### What fits together -/

/-- The queue has the texts from one identity up to the next that is new, each with its handler. -/
structure Queued (first : Nat) (texts : List TypeJob) (next : Nat)
    (handlers : Array (ShadowHandler Empty)) : Prop where
  ids : texts.map (·.id) = List.range' first texts.length
  next : first + texts.length = next
  kinds : ∀ job ∈ texts, ∃ h, handlers[job.handler.index]? = some h ∧ h.IsText job.id

/-- The timer will begin to type a text of the moment. -/
def Timer.Begins (timer : Timer (TimerAction Empty)) (m : Moment) (marks : List TypingMark) : Prop :=
  ∃ index mark, timer.action = .beginTyping index ∧ marks[index]? = some mark ∧ mark.moment = m

/-- Timers are set for what is animated only, or for what is past. -/
structure Clocked (s : Stage) (m : Moment) (marks : List TypingMark)
    (timers : List (Timer (TimerAction Empty))) : Prop where
  animating : liveIds m marks = s.animating
  past : ∀ mark ∈ marks, mark.moment.turn ≤ m.turn
  begins : ∀ timer ∈ timers, ∀ index, timer.action = .beginTyping index →
    timer.period = none ∧ ∃ mark, marks[index]? = some mark ∧
      (mark.moment = m → mark.isStopped = false ∧ s = .waiting mark.id)
  /-- One timer at most will begin to type a text of the moment. -/
  single : ∀ timer ∈ timers, ∀ timer' ∈ timers, timer.Begins m marks → timer'.Begins m marks →
    timer.id = timer'.id
  letters : ∀ timer ∈ timers, ∀ index, timer.action = .typeLetter index →
    ∃ mark, marks[index]? = some mark ∧ (mark.isLive m = true → s = .typing mark.id)

/-- Starts the first text when the passage has been rendered. -/
def startListener : Listener (ListenerAction Empty) :=
  ⟨.passageEnd, some Builtin.typingNamespace, true, .startTyping⟩

/-- Starts the next text when a text is typed out. -/
def stopListener : Listener (ListenerAction Empty) :=
  ⟨.typingStop, some Builtin.typingNamespace, true, .nextTyping⟩

/-- A listener waits for the end of the passage only if texts wait for it, and one waits for the end
of a text as long as that is animated. There may be others from an earlier turn until the queue of
the turn begins. -/
structure Listening (s : Stage) (isPlaying : Bool) (queue : Option (List TypeJob))
    (listeners : List (Listener (ListenerAction Empty))) : Prop where
  fits : ∀ l ∈ listeners, l.Fits
  starts : Listener.of listeners .passageEnd = [] ∨
    Listener.of listeners .passageEnd = [startListener] ∧
      (queue.isSome = true → (isPlaying = true ∨ s.isLanded = true) ∧ queue.getD [] ≠ [])
  stops : ∀ l ∈ Listener.of listeners .typingStop, l = stopListener
  stop : queue.isSome = true →
    Listener.of listeners .typingStop = if s.listens then [stopListener] else []

/-- What was noted down is right so far. -/
def Engine.IsRight (e : Engine Empty Record) : Prop :=
  ∃ phase, Phase.Leads (.idle 0) e.host phase

structure Engine.InStage (s : Stage) (e : Engine Empty Record) : Prop where
  queued : Queued s.first e.texts e.nextTypeId e.handlers
  clocked : Clocked s e.moment e.marks e.clock.timers
  listening : Listening s e.isPlaying e.typeQueue e.listeners
  /-- What can be clicked, and intervals and chains, have nothing to do with texts. -/
  plain : ∀ id, e.Refers id → e.Holds id ShadowHandler.IsPlain
  busy : s.isBusy = true → e.texts ≠ []
  dry : ∀ next, s = .drained next → e.texts = []
  queue : s.listens = true → e.typeQueue.isSome = true
  /-- No text has its turn while the passage is being rendered. -/
  playing : e.isPlaying = true → ∃ next, s = .free next
  record : ∃ phase, Phase.Leads (.idle 0) e.host phase ∧ s.Admits phase

namespace Clocked

variable {s s' : Stage} {m m' : Moment} {marks : List TypingMark}
  {timers timers' : List (Timer (TimerAction Empty))}

/-- Between stages in which no timer for a text may be set, nothing changes about timers. -/
theorem mono (h : Clocked s m marks timers) (hanimating : s'.animating = s.animating)
    (hwaiting : ∀ id, s = .waiting id → s' = .waiting id)
    (htyping : ∀ id, s = .typing id → s' = .typing id) : Clocked s' m marks timers where
  animating := h.animating.trans hanimating.symm
  past := h.past
  begins timer htimer index haction := by
    obtain ⟨hperiod, mark, hmark, hnow⟩ := h.begins timer htimer index haction
    exact ⟨hperiod, mark, hmark, fun hm => (hnow hm).imp_right (hwaiting mark.id)⟩
  single := h.single
  letters timer htimer index haction := by
    obtain ⟨mark, hmark, hlive⟩ := h.letters timer htimer index haction
    exact ⟨mark, hmark, fun hl => htyping mark.id (hlive hl)⟩

/-- All timers for texts had been set before. -/
theorem of_timers (h : Clocked s m marks timers)
    (hold : ∀ timer' ∈ timers', timer'.action.IsTyping → ∃ timer ∈ timers,
      timer'.id = timer.id ∧ timer'.period = timer.period ∧ timer'.action = timer.action) :
    Clocked s m marks timers' where
  animating := h.animating
  past := h.past
  begins timer' htimer' index haction := by
    obtain ⟨timer, htimer, -, hperiod, hsame⟩ := hold timer' htimer' (by rw [haction]; trivial)
    rw [hperiod]
    exact h.begins timer htimer index (hsame.symm.trans haction)
  single := by
    have hbegins {timer' : Timer (TimerAction Empty)} (htimer' : timer' ∈ timers')
        (hb : timer'.Begins m marks) :
        ∃ timer ∈ timers, timer'.id = timer.id ∧ timer.Begins m marks := by
      obtain ⟨index, mark, haction, hmark⟩ := hb
      obtain ⟨timer, htimer, hid, -, hsame⟩ := hold timer' htimer' (by rw [haction]; trivial)
      exact ⟨timer, htimer, hid, index, mark, hsame.symm.trans haction, hmark⟩
    intro timer' htimer' other' hother' hb hb'
    obtain ⟨timer, htimer, hid, hb⟩ := hbegins htimer' hb
    obtain ⟨other, hother, hid', hb'⟩ := hbegins hother' hb'
    rw [hid, hid']
    exact h.single timer htimer other hother hb hb'
  letters timer' htimer' index haction := by
    obtain ⟨timer, htimer, -, -, hsame⟩ := hold timer' htimer' (by rw [haction]; trivial)
    exact h.letters timer htimer index (hsame.symm.trans haction)

/-- A turn begins. What is typed or waits to be belongs to this turn or an earlier one, not to the
one that begins. -/
theorem newTurn (h : Clocked s m marks timers) (hturn : m'.turn = m.turn + 1) (next : Nat) :
    Clocked (.free next) m' marks timers := by
  have hne {mark : TypingMark} (hmark : mark ∈ marks) : mark.moment ≠ m' := by
    intro hnow
    have hle := h.past mark hmark
    rw [hnow, hturn] at hle
    exact Nat.not_succ_le_self _ hle
  have hdead {mark : TypingMark} (hmark : mark ∈ marks) : ¬ mark.isLive m' = true := by
    simp [TypingMark.isLive, hne hmark]
  refine ⟨?_, fun mark hmark => ?_, ?_, ?_, ?_⟩
  · unfold liveIds
    rw [List.filter_eq_nil_iff.mpr fun mark hmark => hdead hmark]
    rfl
  · rw [hturn]
    exact Nat.le_trans (h.past mark hmark) (Nat.le_succ _)
  · intro timer htimer index haction
    obtain ⟨hperiod, mark, hmark, -⟩ := h.begins timer htimer index haction
    exact ⟨hperiod, mark, hmark, fun hnow => (hne (List.mem_of_getElem? hmark) hnow).elim⟩
  · rintro timer htimer timer' htimer' ⟨index, mark, -, hmark, hnow⟩
    exact (hne (List.mem_of_getElem? hmark) hnow).elim
  · intro timer htimer index haction
    obtain ⟨mark, hmark, -⟩ := h.letters timer htimer index haction
    exact ⟨mark, hmark, fun hlive => (hdead (List.mem_of_getElem? hmark) hlive).elim⟩

end Clocked

namespace Listening

variable {s s' : Stage} {isPlaying : Bool} {queue : Option (List TypeJob)}
  {listeners listeners' : List (Listener (ListenerAction Empty))}

theorem mono (h : Listening s isPlaying queue listeners) (hlistens : s'.listens = s.listens)
    (hlanded : s.isLanded = true → s'.isLanded = true) :
    Listening s' isPlaying queue listeners where
  fits := h.fits
  starts := h.starts.imp_right fun ⟨hstart, hqueue⟩ =>
    ⟨hstart, fun hsome => (hqueue hsome).imp_left (Or.imp_right hlanded)⟩
  stops := h.stops
  stop hsome := by
    rw [hlistens]
    exact h.stop hsome

/-- The listeners for other events may change. -/
theorem of_eq (h : Listening s isPlaying queue listeners) (hfits : ∀ l ∈ listeners', l.Fits)
    (hends : Listener.of listeners' .passageEnd = Listener.of listeners .passageEnd)
    (hstops : Listener.of listeners' .typingStop = Listener.of listeners .typingStop) :
    Listening s isPlaying queue listeners' where
  fits := hfits
  starts := by
    rw [hends]
    exact h.starts
  stops := by
    rw [hstops]
    exact h.stops
  stop := by
    rw [hstops]
    exact h.stop

end Listening

namespace Engine.InStage

variable {s s' : Stage} {e e' : Engine Empty Record}

theorem isRight (h : e.InStage s) : e.IsRight :=
  let ⟨phase, hleads, _⟩ := h.record
  ⟨phase, hleads⟩

/-- Work that has nothing to do with texts does not lead out of a stage. -/
theorem aside (h : e.InStage s) (ha : e.Aside e') : e'.InStage s := by
  have hpart := ha.part
  simp only [Engine.typingPart, Prod.mk.injEq] at hpart
  obtain ⟨⟨hqueue, hnext, hmarks⟩, hplaying, hmoment, hhost, hends, hstops⟩ := hpart
  have htexts : e'.texts = e.texts := congrArg (·.getD []) hqueue
  refine ⟨?_, ?_, ?_, ?_, ?_, ?_, ?_, ?_, ?_⟩
  · rw [htexts, hnext]
    exact ⟨h.queued.ids, h.queued.next, fun job hjob =>
      Engine.Holds.mono (h.queued.kinds job hjob) ha.handlers ShadowHandler.IsText.withStore⟩
  · rw [hmarks, hmoment]
    exact h.clocked.of_timers ha.timers
  · rw [hplaying, hqueue]
    exact h.listening.of_eq (fun l hl => (ha.listeners l hl).elim (h.listening.fits l) id) hends hstops
  · exact fun id hid => (ha.refers id hid).elim
      (fun hold => (h.plain id hold).mono ha.handlers ShadowHandler.IsPlain.withStore) fun hnew => hnew
  · rw [htexts]
    exact h.busy
  · rw [htexts]
    exact h.dry
  · rw [hqueue]
    exact h.queue
  · rw [hplaying]
    exact h.playing
  · rw [hhost]
    exact h.record

theorem not_playing (h : e.InStage s) (hs : ∀ next, s ≠ .free next) : e.isPlaying = false := by
  refine Bool.eq_false_of_not_eq_true fun hplaying => ?_
  obtain ⟨next, rfl⟩ := h.playing hplaying
  exact hs next rfl

/-! ### Notices -/

/-- What is noted down about a task in a stage. -/
theorem notice_eq (h : e.InStage s) (t : Task) :
    e.notice t = ⟨e.occurrence t, s.animating, List.range' s.first e.texts.length⟩ := by
  unfold Engine.notice Engine.animating
  rw [h.clocked.animating, h.queued.ids]

/-- A task is noted down that leads to another stage, as far as notices are concerned. -/
theorem record_noting (h : e.InStage s) {t : Task}
    (hstep : ∀ phase, s.Admits phase → ∃ phase', phase.Step (e.notice t) phase' ∧ s'.Admits phase') :
    ∃ phase, Phase.Leads (.idle 0) (e.noting t).host phase ∧ s'.Admits phase := by
  obtain ⟨phase, hleads, hadmits⟩ := h.record
  obtain ⟨phase', hphase, hadmits'⟩ := hstep phase hadmits
  exact ⟨phase', .step hleads hphase, hadmits'⟩

/-- The queue of a busy stage has a first text. -/
theorem length_texts (h : e.InStage s) (hs : s.isBusy = true) :
    ∃ count, e.texts.length = count + 1 :=
  Nat.exists_eq_add_one.mpr (List.length_pos_iff.mpr (h.busy hs))

/-- The first text of the queue has the identity that the stage says. -/
theorem id_eq (h : e.InStage s) {job : TypeJob} {rest : List TypeJob}
    (htexts : e.texts = job :: rest) : job.id = s.first := by
  have hids := h.queued.ids
  rw [htexts] at hids
  exact (List.cons.inj hids).1

/-- A task is noted down that is nothing to texts. -/
theorem noting_other (h : e.InStage s) (hs : s.isOpen = true ∨ s.isLanded = true) {t : Task}
    (ht : e.occurrence t = .other) : (e.noting t).InStage s := by
  refine { h with record := h.record_noting fun phase hphase => ?_ }
  rw [h.notice_eq, ht]
  cases s with
  | free next =>
      rcases hphase with rfl | ⟨id, rfl, rfl⟩
      · exact ⟨_, .idle, .inl rfl⟩
      · exact ⟨_, .shown, .inr ⟨id, rfl, rfl⟩⟩
  | landed next =>
      rcases hphase with rfl | ⟨id, rfl, rfl⟩
      · exact ⟨_, .idle, .inl rfl⟩
      · exact ⟨_, .shown, .inr ⟨id, rfl, rfl⟩⟩
  | rendering id =>
      obtain ⟨count, hcount⟩ := h.length_texts rfl
      rw [hcount]
      cases hphase
      exact ⟨_, .rendering, rfl⟩
  | waiting id =>
      obtain ⟨count, hcount⟩ := h.length_texts rfl
      rw [hcount]
      rcases hphase with rfl | rfl
      · exact ⟨_, .wait, .inr rfl⟩
      · exact ⟨_, .waiting, .inr rfl⟩
  | typing id =>
      obtain ⟨count, hcount⟩ := h.length_texts rfl
      rw [hcount]
      cases hphase
      exact ⟨_, .typing, rfl⟩
  | ending id => simp [Stage.isOpen, Stage.isLanded] at hs
  | drained next => simp [Stage.isOpen, Stage.isLanded] at hs

/-- The turn of the first text has come. -/
theorem noting_text {next : Nat} (h : e.InStage (.free next)) (hplaying : e.isPlaying = false)
    {job : TypeJob} {rest : List TypeJob} (htexts : e.texts = job :: rest) (arg : HandlerArg) :
    (e.noting (.invoke job.handler arg)).InStage (.rendering next) := by
  obtain ⟨handler, hhandler, hkind⟩ := h.queued.kinds job (by rw [htexts]; exact List.mem_cons_self)
  have hid : job.id = next := h.id_eq htexts
  have hwhat : e.occurrence (.invoke job.handler arg) = .started next := by
    obtain ⟨call, hcall, hcallback⟩ := hkind.callback
    simp only [Engine.occurrence, hhandler, Option.bind_some, ShadowHandler.text?, hcallback]
    rw [hcall, hid]
  refine { h with
    clocked := h.clocked.mono rfl (fun _ h => by cases h) fun _ h => by cases h
    listening := h.listening.mono rfl id
    busy := fun _ => by rw [show (e.noting _).texts = e.texts from rfl, htexts]; simp
    dry := fun _ h => by cases h
    queue := fun h => by cases h
    playing := fun h => by rw [show (e.noting _).isPlaying = false from hplaying] at h; cases h
    record := h.record_noting fun phase hphase => ?_ }
  rw [h.notice_eq, hwhat, htexts]
  rcases hphase with rfl | ⟨id, rfl, rfl⟩
  · exact ⟨_, .first, rfl⟩
  · exact ⟨_, .next, rfl⟩

/-- A text that waited for its first letter begins to be typed. Its timer is gone. -/
theorem noting_begin {id : Nat} (h : e.InStage (.waiting id))
    (hgone : ∀ timer ∈ e.clock.timers, ¬ timer.Begins e.moment e.marks) (detail : String) :
    (e.noting (.trigger .typingStart detail)).InStage (.typing id) := by
  obtain ⟨count, hcount⟩ := h.length_texts rfl
  have hquiet := h.not_playing fun _ h => by cases h
  refine { h with
    clocked := { h.clocked with
      begins := fun timer htimer index haction => ?_
      letters := fun timer htimer index haction => ?_ }
    listening := h.listening.mono rfl fun h => h
    dry := fun _ h => by cases h
    playing := fun hp => (Bool.eq_false_iff.mp hquiet hp).elim
    record := h.record_noting fun phase hphase => ?_ }
  · -- a timer that is still set for a first letter is for a text that is past
    obtain ⟨hperiod, mark, hmark, -⟩ := h.clocked.begins timer htimer index haction
    exact ⟨hperiod, mark, hmark, fun hnow =>
      (hgone timer htimer ⟨index, mark, haction, hmark, hnow⟩).elim⟩
  · obtain ⟨mark, hmark, hlive⟩ := h.clocked.letters timer htimer index haction
    exact ⟨mark, hmark, fun hl => by cases hlive hl⟩
  · rw [h.notice_eq, hcount]
    rcases hphase with rfl | rfl
    · exact ⟨_, .begin, rfl⟩
    · exact ⟨_, .beginWaiting, rfl⟩

/-- It is announced that the last text is typed out. -/
theorem noting_complete {next : Nat} (h : e.InStage (.drained next)) (detail : String) :
    (e.noting (.trigger .typingComplete detail)).InStage (.free next) := by
  refine { h with
    clocked := h.clocked.mono rfl (fun _ h => by cases h) fun _ h => by cases h
    listening := h.listening.mono rfl id
    dry := fun _ h => by cases h
    queue := fun h => by cases h
    playing := fun _ => ⟨next, rfl⟩
    record := h.record_noting fun phase hphase => ?_ }
  rw [h.notice_eq, h.dry next rfl]
  cases hphase
  exact ⟨_, .complete, .inl rfl⟩

/-- A turn begins. Nothing of the turns before it is left that could start or type a text. -/
theorem noting_turn (h : e.InStage s) (hs : s.isOpen = true) (title detail : String) :
    ((e.beginTurn title).noting (.trigger .passageInit detail)).InStage (.free e.nextTypeId) := by
  have hclocked : Clocked (.free e.nextTypeId) (e.beginTurn title).moment e.marks e.clock.timers :=
    h.clocked.newTurn rfl e.nextTypeId
  have hnotice : (e.beginTurn title).notice (.trigger .passageInit detail) =
      ⟨.turn e.nextTypeId, [], []⟩ := by
    unfold Engine.notice Engine.animating
    rw [show liveIds (e.beginTurn title).moment (e.beginTurn title).marks = [] from hclocked.animating]
    rfl
  refine ⟨⟨rfl, rfl, fun job hjob => (by cases hjob)⟩, hclocked,
    ⟨h.listening.fits, ?_, h.listening.stops, fun h => (by cases h)⟩, fun id hid => h.plain id ?_,
    fun h => (by cases h), fun _ h => (by cases h), fun h => (by cases h), fun _ => ⟨_, rfl⟩, ?_⟩
  · exact h.listening.starts.imp_right fun hstart => ⟨hstart.1, fun h => (by cases h)⟩
  · -- nothing can be clicked any more, but chains and intervals go on until their moment is over
    cases hid with
    | click hk => cases hk
    | item hk => exact .item hk
    | tick htimer haction => exact .tick htimer haction
  · obtain ⟨phase, hleads, hadmits⟩ := h.record
    refine ⟨_, .step hleads ?_, .inl rfl⟩
    rw [hnotice]
    exact .turn (hadmits.not_drained hs)

end Engine.InStage

end StoryEngine
