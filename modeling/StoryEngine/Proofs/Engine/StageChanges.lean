import StoryEngine.Proofs.Engine.Stage
/-!
# StoryEngine.Proofs.Engine.StageChanges

How the texts of a turn get from one stage to the next: they join the queue and leave it, their
typing is made, stopped and given up, timers are set for it, and those who listen are called.
-/

namespace StoryEngine

variable {α : Type}

/-! ### Timers -/

/-- The mark of a text that is typed out or given up. -/
def TypingMark.stop (mark : TypingMark) : TypingMark :=
  { mark with isStopped := true }

/-- A timer for a text invokes nothing else. -/
theorem RefersTo.of_append {clickables : List Clickable} {chains : Array TimedChain}
    {timers : List (Timer (TimerAction Empty))} {timer : Timer (TimerAction Empty)} {id : HandlerId}
    (h : RefersTo clickables chains (timers ++ [timer]) id) (htyping : timer.action.IsTyping) :
    RefersTo clickables chains timers id := by
  cases h with
  | click hk => exact .click hk
  | item hk => exact .item hk
  | tick htimer haction =>
      rcases List.mem_append.mp htimer with hold | hnew
      · exact .tick hold haction
      · rw [← List.mem_singleton.mp hnew, haction] at htyping
        exact htyping.elim

/-- What is given up among the marks of other moments is nothing to the present one. -/
theorem filter_modify_of_not {p : TypingMark → Bool} {change : TypingMark → TypingMark}
    {marks : List TypingMark} {index : Nat}
    (h : ∀ mark, marks[index]? = some mark → p mark = false ∧ p (change mark) = false) :
    (marks.modify index change).filter p = marks.filter p := by
  induction marks generalizing index with
  | nil => rw [List.modify_nil]
  | cons mark rest ih =>
      cases index with
      | zero =>
          obtain ⟨hold, hnew⟩ := h mark rfl
          simp [hold, hnew]
      | succ index =>
          have hrest : (rest.modify index change).filter p = rest.filter p := ih h
          simp [List.filter_cons, hrest]

/-- A mark is left as it is when another text is stopped. -/
theorem getElem?_modify_stop {marks : List TypingMark} {index index' : Nat} {mark : TypingMark}
    (hmark : marks[index']? = some mark) :
    (marks.modify index TypingMark.stop)[index']? =
      some (if index = index' then mark.stop else mark) := by
  rw [List.getElem?_modify, hmark]
  split <;> rfl

/-- The only mark of its kind is of another kind now. -/
theorem filter_modify_of_singleton {p : TypingMark → Bool} {change : TypingMark → TypingMark}
    {marks : List TypingMark} {index : Nat} {mark : TypingMark} {id : Nat}
    (hone : (marks.filter p).map (·.id) = [id]) (hmark : marks[index]? = some mark)
    (hold : p mark = true) (hnew : p (change mark) = false) :
    (marks.modify index change).filter p = [] := by
  induction marks generalizing index with
  | nil => cases hmark
  | cons first rest ih =>
      cases index with
      | zero =>
          cases hmark
          rw [List.filter_cons, if_pos hold, List.map_cons, List.cons.injEq,
            List.map_eq_nil_iff] at hone
          simp [hnew, hone.2]
      | succ index =>
          have hmem : mark ∈ rest.filter p :=
            List.mem_filter.mpr ⟨List.mem_of_getElem? hmark, hold⟩
          have hfirst : ¬ p first = true := by
            intro hfirst
            rw [List.filter_cons, if_pos hfirst, List.map_cons, List.cons.injEq,
              List.map_eq_nil_iff] at hone
            rw [hone.2] at hmem
            cases hmem
          rw [List.filter_cons, if_neg hfirst] at hone
          have hrest := ih hone hmark
          simp [hfirst, hrest]

namespace Clocked

variable {s : Stage} {m : Moment} {marks : List TypingMark}
  {timers : List (Timer (TimerAction Empty))} {id : Nat}

/-- No timer will begin to type a text before its typing is made. -/
theorem not_begins_push (h : Clocked (.rendering id) m marks timers)
    {timer : Timer (TimerAction Empty)} (htimer : timer ∈ timers) :
    ¬ timer.Begins m (marks ++ [⟨id, m, false⟩]) := by
  rintro ⟨index, mark', haction, hmark', hm⟩
  obtain ⟨-, mark, hmark, hnow⟩ := h.begins timer htimer index haction
  rw [List.getElem?_append_left (List.getElem?_eq_some_iff.mp hmark).1, hmark] at hmark'
  cases hmark'
  cases (hnow hm).2

/-- The typing of a text is made. -/
theorem push (h : Clocked (.rendering id) m marks timers) :
    Clocked (.waiting id) m (marks ++ [⟨id, m, false⟩]) timers := by
  have hkept {index : Nat} {mark : TypingMark} (hmark : marks[index]? = some mark) :
      (marks ++ [⟨id, m, false⟩])[index]? = some mark := by
    rw [List.getElem?_append_left (List.getElem?_eq_some_iff.mp hmark).1, hmark]
  -- timers have texts by their index, and no index changes
  refine ⟨?_, fun mark hmark => ?_, ?_, ?_, ?_⟩
  · have hanimating := h.animating
    unfold liveIds at hanimating ⊢
    rw [List.filter_append, List.map_append, hanimating]
    simp [TypingMark.isLive, Stage.animating]
  · rcases List.mem_append.mp hmark with hmem | hnew
    · exact h.past mark hmem
    · rw [List.mem_singleton.mp hnew]
  · intro timer htimer index haction
    obtain ⟨hperiod, mark, hmark, hnow⟩ := h.begins timer htimer index haction
    exact ⟨hperiod, mark, hkept hmark, fun hm => by cases (hnow hm).2⟩
  · exact fun timer htimer timer' htimer' hbegins _ => (h.not_begins_push htimer hbegins).elim
  · intro timer htimer index haction
    obtain ⟨mark, hmark, hlive⟩ := h.letters timer htimer index haction
    exact ⟨mark, hkept hmark, fun hl => by cases hlive hl⟩

/-- A timer is set for the first letter of the text that waits for it. -/
theorem setBegin (h : Clocked (.waiting id) m marks timers)
    (hgone : ∀ timer ∈ timers, ¬ timer.Begins m marks) {index : Nat}
    (hmark : marks[index]? = some ⟨id, m, false⟩) {timer : Timer (TimerAction Empty)}
    (haction : timer.action = .beginTyping index) (hperiod : timer.period = none) :
    Clocked (.waiting id) m marks (timers ++ [timer]) := by
  refine { h with begins := ?_, single := ?_, letters := ?_ }
  · intro timer' htimer' index' haction'
    rcases List.mem_append.mp htimer' with hold | hnew
    · exact h.begins timer' hold index' haction'
    · rw [List.mem_singleton.mp hnew] at haction' ⊢
      rw [haction] at haction'
      cases haction'
      exact ⟨hperiod, _, hmark, fun _ => ⟨rfl, rfl⟩⟩
  · intro timer' htimer' timer'' htimer'' hbegins hbegins'
    rcases List.mem_append.mp htimer' with hold | hnew
    · exact (hgone timer' hold hbegins).elim
    · rcases List.mem_append.mp htimer'' with hold' | hnew'
      · exact (hgone timer'' hold' hbegins').elim
      · rw [List.mem_singleton.mp hnew, List.mem_singleton.mp hnew']
  · intro timer' htimer' index' haction'
    rcases List.mem_append.mp htimer' with hold | hnew
    · exact h.letters timer' hold index' haction'
    · rw [List.mem_singleton.mp hnew, haction] at haction'
      cases haction'

/-- No timer will begin to type another text while one is being typed. -/
theorem not_begins (h : Clocked s m marks timers) (hs : ∀ id, s ≠ .waiting id)
    {timer : Timer (TimerAction Empty)} (htimer : timer ∈ timers) : ¬ timer.Begins m marks := by
  rintro ⟨index, mark, haction, hmark, hm⟩
  obtain ⟨-, mark', hmark', hnow⟩ := h.begins timer htimer index haction
  rw [hmark] at hmark'
  cases hmark'
  exact hs mark.id (hnow hm).2

/-- An interval is set for the letters of the text that is being typed. -/
theorem setLetters (h : Clocked (.typing id) m marks timers) {index : Nat}
    (hmark : marks[index]? = some ⟨id, m, false⟩) {timer : Timer (TimerAction Empty)}
    (haction : timer.action = .typeLetter index) :
    Clocked (.typing id) m marks (timers ++ [timer]) := by
  refine { h with begins := ?_, single := ?_, letters := ?_ }
  · intro timer' htimer' index' haction'
    rcases List.mem_append.mp htimer' with hold | hnew
    · exact h.begins timer' hold index' haction'
    · rw [List.mem_singleton.mp hnew, haction] at haction'
      cases haction'
  · intro timer' htimer' timer'' htimer'' hbegins hbegins'
    rcases List.mem_append.mp htimer' with hold | hnew
    · exact (h.not_begins (fun _ h => by cases h) hold hbegins).elim
    · obtain ⟨index', mark, haction', -⟩ := hbegins
      rw [List.mem_singleton.mp hnew, haction] at haction'
      cases haction'
  · intro timer' htimer' index' haction'
    rcases List.mem_append.mp htimer' with hold | hnew
    · exact h.letters timer' hold index' haction'
    · rw [List.mem_singleton.mp hnew, haction] at haction'
      cases haction'
      exact ⟨_, hmark, fun _ => rfl⟩

/-- When a text is stopped, no timer begins to type one that it would not have begun before. -/
theorem begins_of_stop (h : Clocked s m marks timers) {index : Nat}
    {timer : Timer (TimerAction Empty)} (htimer : timer ∈ timers)
    (hbegins : timer.Begins m (marks.modify index TypingMark.stop)) : timer.Begins m marks := by
  obtain ⟨index', mark', haction, hmark', hm⟩ := hbegins
  obtain ⟨-, mark, hmark, -⟩ := h.begins timer htimer index' haction
  rw [getElem?_modify_stop hmark] at hmark'
  cases hmark'
  refine ⟨index', mark, haction, hmark, ?_⟩
  split at hm <;> exact hm

/-- What a stopped text keeps, if no text of the moment is stopped that waits for its first
letter. -/
theorem modify_stop {s' : Stage} (h : Clocked s m marks timers) {index : Nat}
    (hanimating : liveIds m (marks.modify index TypingMark.stop) = s'.animating)
    (hwaiting : ∀ mark, marks[index]? = some mark → mark.moment = m → ∀ id, s ≠ .waiting id)
    (hkeeps : ∀ id, s = .waiting id → s' = .waiting id)
    (htyping : ∀ index' mark, index' ≠ index → marks[index']? = some mark → mark.isLive m = true →
      s = .typing mark.id → s' = .typing mark.id) :
    Clocked s' m (marks.modify index TypingMark.stop) timers := by
  refine ⟨hanimating, fun mark hmark => ?_, ?_, ?_, ?_⟩
  · obtain ⟨index', hindex'⟩ := List.mem_iff_getElem?.mp hmark
    rw [List.getElem?_modify] at hindex'
    obtain ⟨old, hold, rfl⟩ := Option.map_eq_some_iff.mp hindex'
    have hpast := h.past old (List.mem_of_getElem? hold)
    split <;> exact hpast
  · intro timer htimer index' haction
    obtain ⟨hperiod, mark, hmark, hnow⟩ := h.begins timer htimer index' haction
    refine ⟨hperiod, _, getElem?_modify_stop hmark, fun hm => ?_⟩
    by_cases hindex : index = index'
    · subst hindex
      rw [if_pos rfl] at hm
      exact (hwaiting mark hmark hm mark.id (hnow hm).2).elim
    · rw [if_neg hindex] at hm ⊢
      exact (hnow hm).imp_right (hkeeps mark.id)
  · exact fun timer htimer timer' htimer' h₁ h₂ =>
      h.single timer htimer timer' htimer' (h.begins_of_stop htimer h₁) (h.begins_of_stop htimer' h₂)
  · intro timer htimer index' haction
    obtain ⟨mark, hmark, hlive⟩ := h.letters timer htimer index' haction
    refine ⟨_, getElem?_modify_stop hmark, fun hl => ?_⟩
    by_cases hindex : index = index'
    · rw [if_pos hindex] at hl
      cases hl
    · rw [if_neg hindex] at hl ⊢
      exact htyping index' mark (Ne.symm hindex) hmark hl (hlive hl)

/-- A text of an earlier moment is given up. -/
theorem giveUp (h : Clocked s m marks timers) {index : Nat} {mark : TypingMark}
    (hmark : marks[index]? = some mark) (hpast : mark.moment ≠ m) :
    Clocked s m (marks.modify index TypingMark.stop) timers := by
  have hpast : ∀ mark', marks[index]? = some mark' → mark'.moment ≠ m := by
    intro mark' hmark'
    rw [hmark] at hmark'
    cases hmark'
    exact hpast
  refine h.modify_stop ?_ (fun mark hmark hm => (hpast mark hmark hm).elim) (fun _ h => h)
    fun _ _ _ _ _ h => h
  rw [← h.animating]
  unfold liveIds
  rw [filter_modify_of_not fun mark hmark => ?_]
  simp [TypingMark.isLive, TypingMark.stop, hpast mark hmark]

/-- The text that is being typed is typed out. -/
theorem stop (h : Clocked (.typing id) m marks timers) {index : Nat}
    (hmark : marks[index]? = some ⟨id, m, false⟩) :
    Clocked (.ending id) m (marks.modify index TypingMark.stop) timers := by
  have hlive : TypingMark.isLive m ⟨id, m, false⟩ = true := by simp [TypingMark.isLive]
  have hnone : (marks.modify index TypingMark.stop).filter (·.isLive m) = [] :=
    filter_modify_of_singleton h.animating hmark hlive rfl
  refine h.modify_stop ?_ (fun _ _ _ _ h => by cases h) (fun _ h => by cases h) ?_
  · unfold liveIds
    rw [hnone]
    rfl
  · -- any other text of the moment that is not typed out would be left
    intro index' mark hindex hmark' hl _
    have hmem : mark ∈ marks.modify index TypingMark.stop := by
      refine List.mem_of_getElem? (i := index') ?_
      rw [List.getElem?_modify, hmark']
      exact congrArg some (if_neg (Ne.symm hindex))
    have hmem' := List.mem_filter.mpr ⟨hmem, hl⟩
    rw [hnone] at hmem'
    cases hmem'

end Clocked

namespace Engine.InStage

variable {s : Stage} {e : Engine Empty Record}

/-- Each listener for the end of the passage starts the first text. -/
theorem eq_startListener (h : e.InStage s) {l : Listener (ListenerAction Empty)}
    (hl : l ∈ Listener.of e.listeners .passageEnd) : l = startListener := by
  rcases h.listening.starts with hnone | ⟨hone, -⟩
  · rw [hnone] at hl
    cases hl
  · rw [hone] at hl
    exact List.mem_singleton.mp hl

/-! ### The queue -/

/-- All listeners that have to do with starting texts belong to one namespace. -/
theorem of_dropTyping (h : e.InStage s) {event : Event}
    (hevent : event = .passageEnd ∨ event = .typingStop) :
    Listener.of (Listener.off e.listeners none Builtin.typingNamespace) event = [] := by
  rw [Listener.of_off_none, List.filter_eq_nil_iff]
  intro l hl
  rcases hevent with rfl | rfl
  · rw [h.eq_startListener hl]
    decide
  · rw [h.listening.stops l hl]
    decide

/-- Before the queue of a turn begins, nothing needs to listen. -/
theorem dropTyping (h : e.InStage s) (hnone : e.typeQueue = none) :
    Engine.InStage s { e with
      listeners := Listener.off e.listeners none Builtin.typingNamespace } := by
  refine { h with listening := ⟨fun l hl => h.listening.fits l (List.mem_filter.mp hl).1,
    .inl (h.of_dropTyping (.inl rfl)), fun l hl => ?_, fun hsome => ?_⟩ }
  · rw [h.of_dropTyping (.inr rfl)] at hl
    cases hl
  · change e.typeQueue.isSome = true at hsome
    rw [hnone] at hsome
    cases hsome

/-- The queue of a turn begins. Nothing listens any more for the texts of another turn. -/
theorem openQueue (h : e.InStage s) (hnone : e.typeQueue = none)
    {l : Listener (ListenerAction Empty)} (hfits : l.Fits) (hevent : l.event = .passageInit) :
    Engine.InStage s { e with
      listeners := Listener.off e.listeners none Builtin.typingNamespace ++ [l]
      typeQueue := some e.texts } := by
  have htexts : e.texts = [] := by
    unfold Engine.texts
    rw [hnone]
    rfl
  have hof (event : Event) (hevent' : event = .passageEnd ∨ event = .typingStop) :
      Listener.of (Listener.off e.listeners none Builtin.typingNamespace ++ [l]) event = [] := by
    have hne : l.event ≠ event := by
      rw [hevent]
      rcases hevent' with rfl | rfl <;> decide
    rw [Listener.of_append, if_neg hne, h.of_dropTyping hevent']
  have hquiet : s.listens = false := by
    refine Bool.eq_false_of_not_eq_true fun hlistens => ?_
    have hsome := h.queue hlistens
    rw [hnone] at hsome
    cases hsome
  refine { h with
    listening := ⟨fun other hother => ?_, .inl (hof _ (.inl rfl)), fun l hl => ?_, fun _ => ?_⟩
    busy := fun hbusy => (h.busy hbusy htexts).elim
    dry := fun _ _ => htexts
    queue := fun _ => rfl }
  · rcases List.mem_append.mp hother with hold | hnew
    · exact h.listening.fits other (List.mem_filter.mp hold).1
    · rw [List.mem_singleton.mp hnew]
      exact hfits
  · rw [hof _ (.inr rfl)] at hl
    cases hl
  · rw [hquiet]
    exact hof _ (.inr rfl)

/-- A text is put at the end of the queue, with a new handler. -/
theorem enqueue (h : e.InStage s) (hsome : e.typeQueue.isSome = true)
    (hs : ∀ next, s ≠ .drained next) {handler : ShadowHandler Empty}
    (hkind : handler.IsText e.nextTypeId) :
    Engine.InStage s { e with
      nextTypeId := e.nextTypeId + 1
      handlers := e.handlers.push handler
      typeQueue := some (e.texts ++ [⟨e.nextTypeId, ⟨e.handlers.size⟩⟩]) } := by
  have hkeeps : e.KeepsHandlers { e with handlers := e.handlers.push handler } := .of_push rfl
  have hnext := h.queued.next
  refine { h with
    queued := ⟨?_, ?_, fun job hjob => ?_⟩
    listening := ⟨h.listening.fits, h.listening.starts.imp_right fun hstart => ?_,
      h.listening.stops, fun _ => h.listening.stop hsome⟩
    plain := fun id hid => (h.plain id hid).mono hkeeps ShadowHandler.IsPlain.withStore
    busy := fun _ => List.append_ne_nil_of_right_ne_nil _ (List.cons_ne_nil _ _)
    dry := fun next hdrained => (hs next hdrained).elim
    queue := fun _ => rfl }
  · -- the text gets the first identity that is new, and this is the one the queue goes on with
    show (e.texts ++ [_]).map TypeJob.id = List.range' s.first (e.texts ++ [_]).length
    rw [List.map_append, h.queued.ids, List.length_append, List.length_singleton,
      List.range'_1_concat, hnext]
    rfl
  · show s.first + (e.texts ++ [_]).length = e.nextTypeId + 1
    rw [List.length_append, List.length_singleton, ← hnext]
    rfl
  · rcases List.mem_append.mp hjob with hold | hnew
    · exact Engine.Holds.mono (h.queued.kinds job hold) hkeeps ShadowHandler.IsText.withStore
    · rw [List.mem_singleton.mp hnew]
      exact ⟨handler, Array.getElem?_push_size, hkind⟩
  · exact ⟨hstart.1, fun _ => ⟨(hstart.2 hsome).1,
      List.append_ne_nil_of_right_ne_nil _ (List.cons_ne_nil _ _)⟩⟩

/-- A text waits for the end of the passage. -/
theorem listenStart (h : e.InStage s) (hnone : Listener.of e.listeners .passageEnd = [])
    (hplaying : e.isPlaying = true) (htexts : e.texts ≠ []) :
    Engine.InStage s { e with listeners := e.listeners ++ [startListener] } := by
  have hof : Listener.of (e.listeners ++ [startListener]) .passageEnd = [startListener] := by
    rw [Listener.of_append, hnone]
    rfl
  have hstops : Listener.of (e.listeners ++ [startListener]) .typingStop =
      Listener.of e.listeners .typingStop :=
    Listener.of_append _ _ _
  refine { h with listening := ⟨fun l hl => ?_, .inr ⟨hof, fun _ => ⟨.inl hplaying, htexts⟩⟩, ?_, ?_⟩ }
  · rcases List.mem_append.mp hl with hold | hnew
    · exact h.listening.fits l hold
    · rw [List.mem_singleton.mp hnew]
      rfl
  · rw [hstops]
    exact h.listening.stops
  · rw [hstops]
    exact h.listening.stop

/-- Nothing listens for the end of the passage when it is not being rendered. -/
theorem of_passageEnd (h : e.InStage s) (hplaying : e.isPlaying = false)
    (hlanded : s.isLanded = false) (hsome : e.typeQueue.isSome = true) :
    Listener.of e.listeners .passageEnd = [] := by
  refine h.listening.starts.resolve_right fun hstart => ?_
  rcases (hstart.2 hsome).1 with hp | hl
  · rw [hplaying] at hp
    cases hp
  · rw [hlanded] at hl
    cases hl

theorem isSome_typeQueue (htexts : e.texts ≠ []) : e.typeQueue.isSome = true := by
  unfold Engine.texts at htexts
  cases hqueue : e.typeQueue with
  | none => rw [hqueue] at htexts; exact (htexts rfl).elim
  | some queue => rfl

/-- The first text leaves the queue, and does not come into it again. -/
theorem queued_tail {first : Nat} {texts : List TypeJob} {next : Nat}
    {handlers : Array (ShadowHandler Empty)} (h : Queued first texts next handlers)
    (htexts : texts ≠ []) : Queued (first + 1) texts.tail next handlers := by
  obtain ⟨job, rest, rfl⟩ := List.exists_cons_of_ne_nil htexts
  refine ⟨(List.cons.inj h.ids).2, ?_, fun job hjob => h.kinds job (List.mem_cons_of_mem _ hjob)⟩
  have hnext := h.next
  rw [List.length_cons] at hnext
  rw [List.tail_cons]
  omega

/-- A text is shown at once, and leaves the queue. -/
theorem dequeue {id : Nat} (h : e.InStage (.rendering id)) :
    Engine.InStage (.free (id + 1)) { e with typeQueue := e.typeQueue.map List.tail } := by
  have htexts := h.busy rfl
  have hsome := isSome_typeQueue htexts
  have hquiet := h.not_playing fun _ h => by cases h
  have htail : Engine.texts { e with typeQueue := e.typeQueue.map List.tail } = e.texts.tail := by
    unfold Engine.texts
    cases e.typeQueue <;> rfl
  refine { h with
    queued := ?_
    clocked := h.clocked.mono rfl (fun _ h => by cases h) fun _ h => by cases h
    listening := ⟨h.listening.fits, .inl (h.of_passageEnd hquiet rfl hsome), h.listening.stops,
      fun _ => h.listening.stop hsome⟩
    busy := fun h => by cases h
    dry := fun _ h => by cases h
    queue := fun h => by cases h
    playing := fun _ => ⟨_, rfl⟩
    record := ?_ }
  · rw [htail]
    exact queued_tail h.queued htexts
  · obtain ⟨phase, hleads, rfl⟩ := h.record
    exact ⟨_, hleads, .inr ⟨id, rfl, rfl⟩⟩

/-! ### Typing -/

/-- The typing of a text that was rendered is made, and a listener waits for its end. -/
theorem makeTyping {id : Nat} (h : e.InStage (.rendering id)) {tree : Tree} {t : Typing}
    (ht : t.mark = ⟨id, e.moment, false⟩) {l : Listener (ListenerAction Empty)}
    (hfits : l.Fits) (hevent : l.event = .keydown) :
    Engine.InStage (.waiting id) { e with
      tree := tree
      typings := e.typings.push t
      listeners := e.listeners ++ [l] ++ [stopListener] } := by
  have hsome := isSome_typeQueue (h.busy rfl)
  have hquiet := h.not_playing fun _ h => by cases h
  have hmarks : (e.typings.push t).toList.map Typing.mark = e.marks ++ [⟨id, e.moment, false⟩] := by
    rw [Array.toList_push, List.map_append, List.map_singleton, ht]
    rfl
  have hends : Listener.of (e.listeners ++ [l] ++ [stopListener]) .passageEnd = [] := by
    rw [Listener.of_append, Listener.of_append, hevent]
    exact h.of_passageEnd hquiet rfl hsome
  have hstops : Listener.of (e.listeners ++ [l] ++ [stopListener]) .typingStop =
      [stopListener] := by
    rw [Listener.of_append, Listener.of_append, hevent, h.listening.stop hsome]
    rfl
  refine { h with
    clocked := ?_
    listening := ⟨fun other hother => ?_, .inl hends, fun other hother => ?_, fun _ => hstops⟩
    dry := fun _ h => by cases h
    queue := fun _ => hsome
    playing := fun hp => (Bool.eq_false_iff.mp hquiet hp).elim
    record := ?_ }
  · show Clocked (.waiting id) e.moment ((e.typings.push t).toList.map Typing.mark) _
    rw [hmarks]
    exact h.clocked.push
  · rcases List.mem_append.mp hother with hmem | hnew
    · rcases List.mem_append.mp hmem with hmem | hnew
      · exact h.listening.fits other hmem
      · rw [List.mem_singleton.mp hnew]
        exact hfits
    · rw [List.mem_singleton.mp hnew]
      rfl
  · rw [hstops] at hother
    exact List.mem_singleton.mp hother
  · obtain ⟨phase, hleads, hphase⟩ := h.record
    exact ⟨phase, hleads, .inl hphase⟩

/-- The timer for the first letter of a text is set. -/
theorem setBegin {id : Nat} (h : e.InStage (.waiting id))
    (hgone : ∀ timer ∈ e.clock.timers, ¬ timer.Begins e.moment e.marks) {index : Nat}
    (hmark : e.marks[index]? = some ⟨id, e.moment, false⟩) (delay : Nat) :
    Engine.InStage (.waiting id) { e with
      clock := (e.clock.setTimeout delay (.beginTyping index)).2 } :=
  { h with
    clocked := h.clocked.setBegin hgone hmark rfl rfl
    plain := fun id hid => h.plain id (hid.of_append trivial) }

/-- The interval for the letters of a text is set. -/
theorem setLetters {id : Nat} (h : e.InStage (.typing id)) {index : Nat}
    (hmark : e.marks[index]? = some ⟨id, e.moment, false⟩) (delay : Nat) :
    Engine.InStage (.typing id) { e with
      clock := (e.clock.setInterval delay (.typeLetter index)).2 } :=
  { h with
    clocked := h.clocked.setLetters hmark rfl
    plain := fun id hid => h.plain id (hid.of_append trivial) }

/-- A text of an earlier moment is given up. -/
theorem giveUp (h : e.InStage s) {index : Nat} {mark : TypingMark}
    (hmark : e.marks[index]? = some mark) (hpast : mark.moment ≠ e.moment) :
    Engine.InStage s { e with
      typings := e.typings.modify index fun t => { t with isStopped := true } } := by
  refine { h with clocked := ?_ }
  show Clocked s e.moment ((e.typings.modify index _).toList.map Typing.mark) e.clock.timers
  rw [map_mark_modify _ _ _ TypingMark.stop fun _ => rfl]
  exact h.clocked.giveUp hmark hpast

/-- The first text of the queue is the one to leave it. -/
theorem textsAfter (h : e.InStage s) (htexts : e.texts ≠ []) :
    (e.typeQueue.map (Builtin.textsAfter s.first)).getD [] = e.texts.tail := by
  obtain ⟨job, rest, hcons⟩ := List.exists_cons_of_ne_nil htexts
  have hid := h.id_eq hcons
  rw [hcons, List.tail_cons, typeQueue_of_texts hcons]
  exact if_pos hid

/-- A text is typed out, and leaves the queue. -/
theorem stop {id : Nat} (h : e.InStage (.typing id)) {index : Nat}
    (hmark : e.marks[index]? = some ⟨id, e.moment, false⟩) :
    Engine.InStage (.ending id) { e with
      typings := e.typings.modify index fun t => { t with isStopped := true }
      typeQueue := e.typeQueue.map (Builtin.textsAfter id) } := by
  have htexts := h.busy rfl
  have hsome := isSome_typeQueue htexts
  have hquiet := h.not_playing fun _ h => by cases h
  have htail : Engine.texts { e with
      typings := e.typings.modify index fun t => { t with isStopped := true }
      typeQueue := e.typeQueue.map (Builtin.textsAfter id) } = e.texts.tail :=
    h.textsAfter htexts
  refine { h with
    queued := ?_
    clocked := ?_
    listening := ⟨h.listening.fits, .inl (h.of_passageEnd hquiet rfl hsome), h.listening.stops,
      fun _ => h.listening.stop hsome⟩
    busy := fun h => by cases h
    dry := fun _ h => by cases h
    queue := fun _ => by
      show (e.typeQueue.map (Builtin.textsAfter id)).isSome = true
      rw [Option.isSome_map]
      exact hsome
    playing := fun hp => (Bool.eq_false_iff.mp hquiet hp).elim }
  · rw [htail]
    exact queued_tail h.queued htexts
  · show Clocked _ e.moment ((e.typings.modify index _).toList.map Typing.mark) e.clock.timers
    rw [map_mark_modify _ _ _ TypingMark.stop fun _ => rfl]
    exact h.clocked.stop hmark

/-! ### Passages -/

/-- The passage of a turn is about to be rendered. -/
theorem beginShow {next : Nat} (h : e.InStage (.free next)) (hnone : e.typeQueue = none) :
    e.beginShow.InStage (.free next) := by
  have hvoid (hsome : e.typeQueue.isSome = true) : False := by
    rw [hnone] at hsome
    cases hsome
  exact { h with
    listening := ⟨h.listening.fits, h.listening.starts.imp_right fun hstart =>
      ⟨hstart.1, fun hsome => (hvoid hsome).elim⟩, h.listening.stops, fun hsome => (hvoid hsome).elim⟩
    playing := fun _ => ⟨next, rfl⟩ }

/-- The passage has been rendered. -/
theorem endShow {next : Nat} (h : e.InStage (.free next)) :
    Engine.InStage (.landed next) { e with isPlaying := false } :=
  { h with
    clocked := h.clocked.mono rfl (fun _ h => by cases h) fun _ h => by cases h
    listening := ⟨h.listening.fits, h.listening.starts.imp_right fun hstart =>
      ⟨hstart.1, fun hsome => ⟨.inr rfl, (hstart.2 hsome).2⟩⟩, h.listening.stops, h.listening.stop⟩
    busy := fun h => by cases h
    dry := fun _ h => by cases h
    queue := fun h => by cases h
    playing := fun h => by cases h }

/-! ### Events -/

/-- Those who wait for the end of the passage are called, and do not wait any more. -/
theorem takeEnd {next : Nat} (h : e.InStage (.landed next)) :
    Engine.InStage (.free next) { e with
      listeners := (Listener.take e.listeners .passageEnd).2 } := by
  have hquiet := h.not_playing fun _ h => by cases h
  have hends := Listener.of_take_self e.listeners .passageEnd fun l hl => by
    rw [h.eq_startListener hl]
    rfl
  have hstops := Listener.of_take_of_ne e.listeners .passageEnd .typingStop (by decide)
  refine { h with
    clocked := h.clocked.mono rfl (fun _ h => by cases h) fun _ h => by cases h
    listening := ⟨fun l hl => h.listening.fits l (List.mem_filter.mp hl).1, .inl hends, ?_, ?_⟩
    busy := fun h => by cases h
    dry := fun _ h => by cases h
    queue := fun h => by cases h
    playing := fun _ => ⟨next, rfl⟩ }
  · rw [hstops]
    exact h.listening.stops
  · rw [hstops]
    exact h.listening.stop

/-- Those who wait for the end of a text are called, and do not wait any more. -/
theorem listening_takeStop {id : Nat} (h : e.InStage (.ending id)) (hs : s.listens = false) :
    Listening s e.isPlaying e.typeQueue (Listener.take e.listeners .typingStop).2 := by
  have hquiet := h.not_playing fun _ h => by cases h
  have hends := (Listener.of_take_of_ne e.listeners .typingStop .passageEnd (by decide)).trans
    (h.of_passageEnd hquiet rfl (h.queue rfl))
  have hstops := Listener.of_take_self e.listeners .typingStop fun l hl => by
    rw [h.listening.stops l hl]
    rfl
  refine ⟨fun l hl => h.listening.fits l (List.mem_filter.mp hl).1, .inl hends, fun l hl => ?_,
    fun _ => ?_⟩
  · rw [hstops] at hl
    cases hl
  · rw [hs]
    exact hstops

/-- The end of a text is noted down, and the one who waits for it is called. The queue has run dry,
or the turn of the next text has come. -/
theorem takeStop {id : Nat} (h : e.InStage (.ending id)) (detail : String) :
    Engine.InStage (if e.texts = [] then .drained (id + 1) else .free (id + 1))
      { e.noting (.trigger .typingStop detail) with
        listeners := (Listener.take e.listeners .typingStop).2 } := by
  have hquiet := h.not_playing fun _ h => by cases h
  split
  · rename_i htexts
    refine { h with
      clocked := h.clocked.mono rfl (fun _ h => by cases h) fun _ h => by cases h
      listening := h.listening_takeStop rfl
      busy := fun h => by cases h
      dry := fun _ _ => htexts
      queue := fun h => by cases h
      playing := fun hp => (Bool.eq_false_iff.mp hquiet hp).elim
      record := h.record_noting fun phase hphase => ?_ }
    rw [h.notice_eq, htexts]
    cases hphase
    exact ⟨_, .stopLast, rfl⟩
  · rename_i htexts
    obtain ⟨count, hcount⟩ := Nat.exists_eq_add_one.mpr (List.length_pos_iff.mpr htexts)
    refine { h with
      clocked := h.clocked.mono rfl (fun _ h => by cases h) fun _ h => by cases h
      listening := h.listening_takeStop rfl
      busy := fun h => by cases h
      dry := fun _ h => by cases h
      queue := fun h => by cases h
      playing := fun _ => ⟨_, rfl⟩
      record := h.record_noting fun phase hphase => ?_ }
    rw [h.notice_eq, hcount]
    cases hphase
    exact ⟨_, .stop, .inl rfl⟩

end Engine.InStage

end StoryEngine
