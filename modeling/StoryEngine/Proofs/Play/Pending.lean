import StoryEngine.Proofs.Play.Onward
/-!
# StoryEngine.Proofs.Play.Pending

How an engine goes on from any point of what it does, with the firings of timers of interest
(`GoesOn`). A timer that is pending stays so, with its identity and its time, until it fires or the
player moves on, unless work may cancel it (`Engine.Expects`). A timer that is gone stays gone, and
never fires again (`GoesOn.lacks`).
-/

namespace StoryEngine

variable {η σ : Type} {terms : Terms η σ} {clears : TimerId → Prop} {m : Moment}

/-! ### A timer that is pending -/

/-- The timer is pending in the moment, and work may not cancel it. -/
structure Engine.Expects (clears : TimerId → Prop) (timer : Timer (TimerAction η)) (m : Moment)
    (e : Engine η σ) : Prop where
  regular : e.Regular
  pending : timer ∈ e.clock.timers
  present : m = ⟨e.state.passage, e.state.turns⟩
  known : ∀ id, clears id → id < e.clock.nextId
  kept : e.repeatTimer ≠ some timer.id ∧ ¬ clears timer.id

namespace Engine.Expects

variable {timer : Timer (TimerAction η)} {e e' : Engine η σ}

theorem keep (h : e.Expects clears timer m) (hregular : e'.Regular) (hpending : timer ∈ e'.clock.timers)
    (hpresent : (⟨e'.state.passage, e'.state.turns⟩ : Moment) = ⟨e.state.passage, e.state.turns⟩)
    (hnextId : e.clock.nextId ≤ e'.clock.nextId)
    (hticking : ∀ id, e'.repeatTimer = some id → e.repeatTimer = some id ∨ clears id) :
    e'.Expects clears timer m where
  regular := hregular
  pending := hpending
  present := h.present.trans hpresent.symm
  known id hid := Nat.lt_of_lt_of_le (h.known id hid) hnextId
  kept := by
    refine ⟨fun htick => ?_, h.kept.2⟩
    rcases hticking timer.id htick with hold | hnew
    · exact h.kept.1 hold
    · exact h.kept.2 hnew

theorem congr (h : e.Expects clears timer m) (hagenda : e'.agenda = e.agenda) :
    e'.Expects clears timer m := by
  obtain ⟨⟨hclock, -, -, -⟩, -, -, hticking, hmoment⟩ := Engine.agenda_eq_iff.mp hagenda
  exact h.keep (h.regular.congr hagenda) (hclock ▸ h.pending) hmoment (Nat.le_of_eq (hclock ▸ rfl))
    fun id hid => .inl (hticking ▸ hid)

/-- Other timers may be cancelled. -/
theorem allow (h : e.Expects clears timer m) {clears' : TimerId → Prop}
    (hknown : ∀ id, clears' id → id < e.clock.nextId) (hkept : ¬ clears' timer.id) :
    e.Expects clears' timer m :=
  { h with known := hknown, kept := ⟨h.kept.1, hkept⟩ }

end Engine.Expects

/-- Whatever happens in one step, the timer stays pending unless the player moves on. -/
theorem TimerStep.expects {timer : Timer (TimerAction η)} {e e' : Engine η σ}
    (h : TimerStep terms e e') (hends : ¬ terms.endsTurn) (he : e.Expects terms.clears timer m) :
    m.turn < e'.state.turns ∨ e'.Expects terms.clears timer m := by
  have hregular : e'.Regular := h.regular he.known he.regular
  have hnextId := h.nextId_le
  have hkeep (hpending : timer ∈ e'.clock.timers)
      (hpresent : (⟨e'.state.passage, e'.state.turns⟩ : Moment) = ⟨e.state.passage, e.state.turns⟩)
      (hticking : ∀ id, e'.repeatTimer = some id → e.repeatTimer = some id ∨ terms.clears id) :
      m.turn < e'.state.turns ∨ e'.Expects terms.clears timer m :=
    .inr (he.keep hregular hpending hpresent hnextId hticking)
  cases h with
  | still h => exact .inr (he.congr h)
  | timeout | pulse | interval | chain =>
      exact hkeep (List.mem_append_left _ he.pending) rfl fun _ => .inl
  | clear id h =>
      refine hkeep (List.mem_filter.mpr ⟨he.pending, bne_iff_ne.mpr fun heq => ?_⟩) rfl fun _ => .inl
      rcases h with hold | hnew
      · exact he.kept.1 (heq ▸ hold)
      · exact he.kept.2 (heq ▸ hnew)
  | forgetRepeat | forgetTimed | listen | unlisten | handler =>
      exact hkeep he.pending rfl fun _ => .inl
  | clearRepeats h => exact absurd h hends
  | clearTimed h => exact absurd h hends
  | tick other h => exact hkeep he.pending rfl fun id hid => .inr (h id hid)
  | turn title =>
      have hturn : m.turn = e.state.turns := congrArg Moment.turn he.present
      exact .inl (hturn ▸ Nat.lt_succ_self _)

/-! ### A timer that is gone -/

/-- The timer has been set and is no longer pending. -/
def Engine.Lacks (id : TimerId) (e : Engine η σ) : Prop :=
  id < e.clock.nextId ∧ e.clock.Gone id

theorem Engine.Lacks.lasts {id : TimerId} {e : Engine η σ} (he : e.Lacks id)
    {clock : Clock (TimerAction η)} (h : e.clock.Lasts clock) : Lacks id { e with clock := clock } := by
  refine ⟨h.nextId.symm ▸ he.1, fun timer' htimer' => ?_⟩
  obtain ⟨timer, htimer, hid, -⟩ := h.timers timer' htimer'
  exact hid ▸ he.2 timer htimer

theorem Engine.Lacks.addTimer {id : TimerId} {e : Engine η σ} (he : e.Lacks id) (delay : Nat)
    (period : Option Nat) (action : TimerAction η) :
    Lacks id { e with clock := (e.clock.addTimer delay period action).2 } := by
  refine ⟨Nat.lt_succ_of_lt he.1, fun timer htimer => ?_⟩
  rcases Clock.Sound.mem_addTimer.mp htimer with hold | rfl
  · exact he.2 timer hold
  · exact Nat.ne_of_gt he.1

/-- No identity is used twice. -/
theorem TimerStep.lacks {id : TimerId} {e e' : Engine η σ} (h : TimerStep terms e e')
    (he : e.Lacks id) : e'.Lacks id := by
  cases h with
  | still h =>
      have hclock : e'.clock = e.clock := (Engine.agenda_eq_iff.mp h).1.1
      rw [Engine.Lacks, hclock]
      exact he
  | timeout delay action => exact he.addTimer delay none action
  | pulse period action => exact he.addTimer _ _ action
  | interval handler moment delay => exact he.addTimer _ _ (.repeatTick handler moment)
  | @chain k first => exact he.addTimer first.delay none (.timedStep e.chains.size)
  | clear other => exact he.lasts (.clearTimer e.clock other)
  | clearRepeats => exact he.lasts (.clearTimers e.clock e.repeatTimers)
  | clearTimed => exact he.lasts (.clearTimers e.clock e.timedTimers)
  | _ => exact he

section Firings

variable {e e' : Engine Empty σ} {n limit : Nat} {fired : Timer (TimerAction Empty)}
  {clock : Clock (TimerAction Empty)}

/-! ### Firings of other timers -/

/-- A timer stays pending until the player moves on. -/
theorem Engine.Expects.lastsUntil {timer : Timer (TimerAction Empty)} :
    LastsUntil clears m.turn (Engine.Expects clears timer m : Engine Empty σ → Prop) where
  regular _ he := he.regular
  turns _ he := (congrArg Moment.turn he.present).symm
  step _ _ hstep he := hstep.expects id he
  taken event e he := by
    have hregular : Engine.Regular { e with listeners := (Listener.take e.listeners event).2 } :=
      he.regular.withListeners fun l hl => .inl (List.mem_filter.mp hl).1
    exact he.keep hregular he.pending rfl (Nat.le_refl _) fun _ => .inl

/-- A clause of a chain is taken. -/
theorem Engine.Expects.takeItem {timer : Timer (TimerAction Empty)} (he : e.Expects clears timer m)
    (chain : Nat) (id : TimerId) : (Builtin.takeItem chain id e).2.Expects clears timer m := by
  rcases takeItem_cases chain id e with ⟨htake, -⟩ | ⟨k, item, rest, hthere, -, htake⟩
  · rw [htake]
    exact he.keep { he.regular with } he.pending rfl (Nat.le_refl _) fun _ => .inl
  · have hregular := he.regular.takeClause (Array.getElem?_eq_some_iff.mp hthere).1 id rest
    rw [htake]
    cases rest with
    | nil => exact he.keep hregular he.pending rfl (Nat.le_refl _) fun _ => .inl
    | cons next rest =>
        exact he.keep hregular (List.mem_append_left _ he.pending) rfl (Nat.le_succ _) fun _ => .inl

/-- Another timer fires. Whatever it runs, the timer stays pending unless the player moves on. -/
theorem Engine.Expects.fireOther {timer : Timer (TimerAction Empty)}
    (he : e.Expects (fun _ => False) timer m) (hdue : e.clock.takeDue limit = some (fired, clock))
    (hother : fired.id ≠ timer.id)
    (hrun : Run.reporting (runTimer Host.idle (perform Host.idle n) fired) { e with clock := clock } =
      (.ok (), e')) : e'.OrPast m.turn (Engine.Expects (fun _ => False) timer m) := by
  have hclock := he.regular.clock
  obtain ⟨hregular, hknown⟩ := he.regular.take hdue
  have hpending : timer ∈ clock.timers := (hclock.mem_takeDue hdue).mpr (.inl ⟨he.pending, hother.symm⟩)
  have htaken : Engine.Expects (e.MayCancel fired) timer m { e with clock := clock } := by
    refine ⟨hregular, hpending, he.present, hknown, he.kept.1, ?_⟩
    rintro (hid | hticking)
    · exact hother hid.symm
    · exact he.kept.1 hticking
  have hlasts : LastsUntil (Engine.MayCancel { e with clock := clock } fired) m.turn
      (Engine.Expects (e.MayCancel fired) timer m : Engine Empty σ → Prop) := Engine.Expects.lastsUntil
  have hfire := hlasts.fire (fun f e he => he.congr rfl)
    (fun chain _ => .inr (htaken.takeItem chain fired.id)) htaken hrun
  refine hfire.imp id fun hexpects => ?_
  exact hexpects.allow (fun _ => False.elim) id

theorem Engine.Lacks.takeItem {id : TimerId} (he : e.Lacks id) (chain : Nat) (other : TimerId) :
    (Builtin.takeItem chain other e).2.Lacks id := by
  rcases takeItem_cases chain other e with ⟨htake, -⟩ | ⟨k, item, rest, -, -, htake⟩
  · rw [htake]
    exact he
  · rw [htake]
    cases rest with
    | nil => exact he
    | cons next rest => exact he.addTimer next.delay none (.timedStep chain)

/-- Nothing brings a timer back that is gone. -/
theorem Engine.Lacks.stays (id : TimerId) : Engine.Stays (σ := σ) (Engine.Lacks id) where
  step h he := h.lacks he
  taken _ he := he
  clause chain other he := he.takeItem chain other
  lasts h he := he.lasts h
  report _ he := he

/-- A timer that is gone does not fire, and stays gone when others do. -/
theorem Engine.Lacks.fire {id : TimerId} (he : e.Lacks id)
    (hdue : e.clock.takeDue limit = some (fired, clock))
    (hrun : Run.reporting (runTimer Host.idle (perform Host.idle n) fired) { e with clock := clock } =
      (.ok (), e')) : fired.id ≠ id ∧ e'.Lacks id :=
  ⟨he.2 fired (Clock.mem_of_takeDue hdue), (Engine.Lacks.stays id).fire hdue hrun he⟩

end Firings

/-! ### Going on -/

/-- The firing of a timer, if it is of interest. -/
def firingOf (watched : Timer (TimerAction Empty) → Bool) (timer : Timer (TimerAction Empty))
    (taken after : Engine Empty σ) : List (Firing σ) :=
  if watched timer then [⟨timer.id, taken, after⟩] else []

/-- What an engine can become, with the firings meanwhile of the timers that are of interest: it goes
on by steps of the work under way, by tasks, by timers that fire, and by the clock moving to a time by
which nothing is due. -/
inductive GoesOn (watched : Timer (TimerAction Empty) → Bool) (e₀ : Engine Empty σ) :
    List (Firing σ) → Engine Empty σ → Prop
  | start : GoesOn watched e₀ [] e₀
  /-- A step of the work under way. -/
  | step {log : List (Firing σ)} {e e' : Engine Empty σ} (before : GoesOn watched e₀ log e)
      (h : TimerStep (.idle (fun _ => False) False) e e') : GoesOn watched e₀ log e'
  /-- A task that the host or the work under way asks for. -/
  | task {log : List (Firing σ)} {e e' : Engine Empty σ} (before : GoesOn watched e₀ log e) {t : Task}
      (ht : (Terms.idle (σ := σ) (fun _ => False) False).Asks t) {n : Nat} {r : Except Halt Unit}
      (h : perform Host.idle n t e = (r, e')) (hr : Returned r) : GoesOn watched e₀ log e'
  /-- The next timer that is due by a time fires. -/
  | fire {log : List (Firing σ)} {e e' : Engine Empty σ} (before : GoesOn watched e₀ log e)
      {limit n : Nat} {timer : Timer (TimerAction Empty)} {clock : Clock (TimerAction Empty)}
      (hdue : e.clock.takeDue limit = some (timer, clock))
      (hrun : Run.reporting (runTimer Host.idle (perform Host.idle n) timer)
        { e with clock := clock } = (.ok (), e')) :
      GoesOn watched e₀ (log ++ firingOf watched timer { e with clock := clock } e') e'
  /-- The clock moves on to a time by which nothing is due. -/
  | arrive {log : List (Firing σ)} {e : Engine Empty σ} (before : GoesOn watched e₀ log e)
      {limit : Nat} (hdue : e.clock.takeDue limit = none) (hlast : limit ≤ lastTime) :
      GoesOn watched e₀ log (e.arrive limit)

section GoingOn

variable {watched : Timer (TimerAction Empty) → Bool} {e₀ e e' : Engine Empty σ}
  {log more : List (Firing σ)}

/-- The firings of the timers of a chain may be of interest, or others. -/
theorem GoesOn.onward {chain : Nat} (h : GoesOn watched e₀ log e) :
    ∃ log', Onward chain e₀ log' e := by
  induction h with
  | start => exact ⟨[], .start⟩
  | step before h ih =>
      obtain ⟨log', hlog⟩ := ih
      exact ⟨log', hlog.step h⟩
  | task before ht h hr ih =>
      obtain ⟨log', hlog⟩ := ih
      exact ⟨log', hlog.task ht h hr⟩
  | fire before hdue hrun ih =>
      obtain ⟨log', hlog⟩ := ih
      exact ⟨_, hlog.fire hdue hrun⟩
  | arrive before hdue hlast ih =>
      obtain ⟨log', hlog⟩ := ih
      exact ⟨log', hlog.arrive hdue hlast⟩

theorem Onward.goesOn {chain : Nat} {log' : List (Firing σ)} (before : GoesOn watched e₀ log e)
    (h : Onward chain e log' e') : ∃ more, GoesOn watched e₀ (log ++ more) e' := by
  induction h with
  | start => exact ⟨[], (List.append_nil log).symm ▸ before⟩
  | step _ h ih =>
      obtain ⟨more, hmore⟩ := ih
      exact ⟨more, hmore.step h⟩
  | task _ ht h hr ih =>
      obtain ⟨more, hmore⟩ := ih
      exact ⟨more, hmore.task ht h hr⟩
  | fire _ hdue hrun ih =>
      obtain ⟨more, hmore⟩ := ih
      exact ⟨_, (List.append_assoc ..) ▸ hmore.fire hdue hrun⟩
  | arrive _ hdue hlast ih =>
      obtain ⟨more, hmore⟩ := ih
      exact ⟨more, hmore.arrive hdue hlast⟩

/-- The work under way goes on, in whatever way it is made up. -/
theorem GoesOn.work {X : Perform Empty σ → Run Empty σ Unit}
    (hX : Steady (.idle (fun _ => False) False) X) {n : Nat} {r : Except Halt Unit}
    (before : GoesOn watched e₀ log e) (h : X (perform Host.idle n) e = (r, e')) (hr : Returned r) :
    ∃ more, GoesOn watched e₀ (log ++ more) e' :=
  (hX.onward (.start : Onward 0 e [] e) h hr).goesOn before

/-- Whatever the host asks for and returns goes on, and so does all that happens while time passes. -/
theorem GoesOn.hostCall (before : GoesOn watched e₀ log e) {call : HostCall} {n : Nat}
    {r : Except Halt Unit} (h : call.run (perform Host.idle n) e = (r, e')) (hr : Returned r) :
    ∃ more, GoesOn watched e₀ (log ++ more) e' := by
  obtain ⟨log', hlog⟩ := HostCall.onward (.start : Onward 0 e [] e) h hr
  exact hlog.goesOn before

theorem GoesOn.regular (he₀ : e₀.Regular) (h : GoesOn watched e₀ log e) : e.Regular := by
  obtain ⟨log', hlog⟩ : ∃ log', Onward 0 e₀ log' e := h.onward
  exact hlog.regular he₀

/-- What stays true does so however the engine goes on. -/
theorem Engine.Stays.goesOn {I : Engine Empty σ → Prop} (hI : Engine.Stays I)
    (h : GoesOn watched e₀ log e) (he₀ : I e₀) : I e := by
  induction h with
  | start => exact he₀
  | step before h ih => exact hI.step h ih
  | task before ht h hr ih => exact hI.task ht.ne_advance h hr ih
  | fire before hdue hrun ih => exact hI.fire hdue hrun ih
  | arrive before hdue hlast ih => exact hI.lasts (.setNow _ _) ih

/-- A timer that is gone never fires again. -/
theorem GoesOn.lacks {id : TimerId} (he₀ : e₀.Lacks id) (h : GoesOn watched e₀ log e) :
    ∀ f ∈ log, f.id ≠ id := by
  induction h with
  | start => exact List.forall_mem_nil _
  | step before h ih => exact ih
  | task before ht h hr ih => exact ih
  | @fire log e e' before limit n timer clock hdue hrun ih =>
      have hlacks := (Engine.Lacks.stays id).goesOn before he₀
      intro f hf
      rcases List.mem_append.mp hf with hold | hnew
      · exact ih f hold
      · unfold firingOf at hnew
        split at hnew
        · exact List.mem_singleton.mp hnew ▸ (hlacks.fire hdue hrun).1
        · cases hnew
  | arrive before hdue hlast ih => exact ih

end GoingOn

end StoryEngine
