import StoryEngine.Proofs.Engine.Timeless
import StoryEngine.Proofs.Play.Played
/-!
# StoryEngine.Proofs.Play.Tracked

Intervals and chains of clauses are tracked as long as they wait, and where any are tracked, a listener
waits that will cancel them when the player moves on. The listener is called once, and registers only
when the first timer of its kind is set. While a chain goes on, its timers leave and join those that
are tracked, which can be none in between, but the listener is not called unless the player moves on,
and then it cancels them all. So nothing is pending of a passage that has been left when the next one
is rendered.

`swept` performs tasks as an engine does, but raises an alarm, which can be anything, where that is
not so. The alarm is never raised (`timers_tracked`).
-/

namespace StoryEngine

variable {η σ : Type}

/-! ### What is tracked -/

/-- A timer that fires once is gone when it fires. -/
theorem Clock.isPending_of_takeDue {κ : Type} {c c' : Clock κ} {limit : Nat} {timer : Timer κ}
    (h : c.takeDue limit = some (timer, c')) (honce : timer.period = none) :
    c'.isPending timer.id = false := by
  unfold Clock.takeDue at h
  split at h
  · cases h
  · cases h
    simp [Clock.isPending, honce]

theorem Clock.id_ne_of_isPending {κ : Type} {c : Clock κ} {id : TimerId}
    (hgone : c.isPending id = false) {timer : Timer κ} (h : timer ∈ c.timers) : timer.id ≠ id := by
  intro heq
  have hpending : c.isPending id = true := List.any_eq_true.mpr ⟨timer, h, beq_iff_eq.mpr heq⟩
  rw [hgone] at hpending
  cases hpending

/-- What is done by listeners when the player moves on. -/
def ListenerAction.endsTurn : ListenerAction η → Bool
  | .clearRepeats => true
  | .clearTimed => true
  | .dropTyping => true
  | _ => false

/-- Intervals and chains are tracked while they wait, and if there are any of a kind, then what cancels
them is still to come. -/
structure Engine.Tracks (e : Engine η σ) (comes : ListenerAction η → Prop) : Prop where
  repeats : ∀ timer ∈ e.clock.timers, ∀ handler moment,
    timer.action = .repeatTick handler moment → timer.id ∈ e.repeatTimers
  timed : ∀ timer ∈ e.clock.timers, ∀ chain,
    timer.action = .timedStep chain → timer.id ∈ e.timedTimers
  /-- A timer of a chain fires once. -/
  once : ∀ timer ∈ e.clock.timers, ∀ chain, timer.action = .timedStep chain → timer.period = none
  /-- Nobody else listens to the beginning of a passage. -/
  listeners : ∀ l ∈ e.listeners, l.event = .passageInit → l.action.endsTurn = true
  repeatsCleared : e.repeatTimers ≠ [] → comes .clearRepeats
  timedCleared : e.timedTimers ≠ [] → comes .clearTimed

/-- A listener waits to do it when the player moves on. -/
def Engine.Awaits (e : Engine η σ) (action : ListenerAction η) : Prop :=
  ⟨.passageInit, none, true, action⟩ ∈ e.listeners

/-- Intervals and chains are tracked while they wait, and if there are any of a kind, then a listener
waits to cancel them. -/
abbrev Engine.Tracked (e : Engine η σ) : Prop :=
  e.Tracks e.Awaits

namespace Engine.Tracks

variable {e e' : Engine η σ} {comes : ListenerAction η → Prop}

theorem congr (h : e.Tracks comes) (hsame : e'.timing = e.timing) : e'.Tracks comes := by
  obtain ⟨hclock, hlisteners, hrepeats, htimed⟩ :
      e'.clock = e.clock ∧ e'.listeners = e.listeners ∧ e'.repeatTimers = e.repeatTimers ∧
        e'.timedTimers = e.timedTimers := by
    simpa only [Engine.timing, Prod.mk.injEq] using hsame
  constructor
  · rw [hclock, hrepeats]; exact h.repeats
  · rw [hclock, htimed]; exact h.timed
  · rw [hclock]; exact h.once
  · rw [hlisteners]; exact h.listeners
  · rw [hrepeats]; exact h.repeatsCleared
  · rw [htimed]; exact h.timedCleared

theorem mono {comes' : ListenerAction η → Prop} (h : e.Tracks comes)
    (hcomes : ∀ action, comes action → comes' action) : e.Tracks comes' :=
  { h with
    repeatsCleared := fun hsome => hcomes _ (h.repeatsCleared hsome)
    timedCleared := fun hsome => hcomes _ (h.timedCleared hsome) }

/-- Timers are cancelled or taken, or the clock moves on. -/
theorem lasts (h : e.Tracks comes) {clock : Clock (TimerAction η)} (hlasts : e.clock.Lasts clock) :
    Tracks { e with clock := clock } comes where
  repeats timer' htimer' handler moment haction := by
    obtain ⟨timer, htimer, hid, -, hsame⟩ := hlasts.timers timer' htimer'
    rw [hid]
    exact h.repeats timer htimer handler moment (hsame ▸ haction)
  timed timer' htimer' chain haction := by
    obtain ⟨timer, htimer, hid, -, hsame⟩ := hlasts.timers timer' htimer'
    rw [hid]
    exact h.timed timer htimer chain (hsame ▸ haction)
  once timer' htimer' chain haction := by
    obtain ⟨timer, htimer, -, hperiod, hsame⟩ := hlasts.timers timer' htimer'
    rw [hperiod]
    exact h.once timer htimer chain (hsame ▸ haction)
  listeners := h.listeners
  repeatsCleared := h.repeatsCleared
  timedCleared := h.timedCleared

/-- A timer is set. If it is to be tracked, it is, and what cancels it is to come. -/
theorem addTimer (h : e.Tracks comes) (delay : Nat) (period : Option Nat) (action : TimerAction η)
    (repeats timed : List TimerId) (hrepeats : e.repeatTimers ⊆ repeats)
    (htimed : e.timedTimers ⊆ timed)
    (hrepeat : ∀ handler moment, action = .repeatTick handler moment → e.clock.nextId ∈ repeats)
    (hstep : ∀ chain, action = .timedStep chain → e.clock.nextId ∈ timed ∧ period = none)
    (hclearRepeats : repeats ≠ [] → comes .clearRepeats)
    (hclearTimed : timed ≠ [] → comes .clearTimed) :
    Tracks { e with
      clock := (e.clock.addTimer delay period action).2
      repeatTimers := repeats
      timedTimers := timed } comes where
  repeats timer htimer handler moment haction := by
    rcases List.mem_append.mp htimer with hold | hnew
    · exact hrepeats (h.repeats timer hold handler moment haction)
    · obtain rfl := List.mem_singleton.mp hnew
      exact hrepeat handler moment haction
  timed timer htimer chain haction := by
    rcases List.mem_append.mp htimer with hold | hnew
    · exact htimed (h.timed timer hold chain haction)
    · obtain rfl := List.mem_singleton.mp hnew
      exact (hstep chain haction).1
  once timer htimer chain haction := by
    rcases List.mem_append.mp htimer with hold | hnew
    · exact h.once timer hold chain haction
    · obtain rfl := List.mem_singleton.mp hnew
      exact (hstep chain haction).2
  listeners := h.listeners
  repeatsCleared := hclearRepeats
  timedCleared := hclearTimed

/-- A timer of a kind that is not tracked is set. -/
theorem addUntracked (h : e.Tracks comes) (delay : Nat) (period : Option Nat)
    {action : TimerAction η} (haction : action.isTracked = false) :
    Tracks { e with clock := (e.clock.addTimer delay period action).2 } comes :=
  h.addTimer delay period action e.repeatTimers e.timedTimers (List.Subset.refl _)
    (List.Subset.refl _) (fun _ _ heq => by subst heq; cases haction)
    (fun _ heq => by subst heq; cases haction) h.repeatsCleared h.timedCleared

/-- A chain is scheduled, if what cancels it is to come. -/
theorem schedule (h : e.Tracks comes) (chain delay : Nat) (hcomes : comes .clearTimed) :
    Tracks { e with
      clock := (e.clock.setTimeout delay (.timedStep chain)).2
      timedTimers := e.timedTimers ++ [e.clock.nextId] } comes :=
  h.addTimer delay none (.timedStep chain) e.repeatTimers _ (List.Subset.refl _)
    (List.subset_append_left _ _) nofun (fun _ _ => ⟨by simp, rfl⟩) h.repeatsCleared
    (fun _ => hcomes)

/-- An interval is set, if what cancels it is to come. -/
theorem interval (h : e.Tracks comes) (handler : HandlerId) (moment : Moment) (delay : Nat)
    (hcomes : comes .clearRepeats) :
    Tracks { e with
      clock := (e.clock.setInterval delay (.repeatTick handler moment)).2
      repeatTimers := e.repeatTimers ++ [e.clock.nextId] } comes :=
  h.addTimer _ _ (.repeatTick handler moment) _ e.timedTimers (List.subset_append_left _ _)
    (List.Subset.refl _) (fun _ _ _ => by simp) nofun (fun _ => hcomes) h.timedCleared

/-- A timer that is gone is no longer tracked as an interval. -/
theorem forgetRepeat (h : e.Tracks comes) {id : TimerId} (hgone : e.clock.isPending id = false) :
    Tracks { e with repeatTimers := e.repeatTimers.filter (· ≠ id) } comes :=
  { h with
    repeats := fun timer htimer handler moment haction =>
      List.mem_filter.mpr ⟨h.repeats timer htimer handler moment haction,
        decide_eq_true (Clock.id_ne_of_isPending hgone htimer)⟩
    repeatsCleared := fun hsome =>
      h.repeatsCleared fun hnone => hsome (List.filter_eq_nil_iff.mpr (hnone ▸ nofun)) }

/-- A timer that is gone is no longer tracked as a chain. -/
theorem forgetTimed (h : e.Tracks comes) {id : TimerId} (hgone : e.clock.isPending id = false) :
    Tracks { e with timedTimers := e.timedTimers.filter (· ≠ id) } comes :=
  { h with
    timed := fun timer htimer chain haction =>
      List.mem_filter.mpr ⟨h.timed timer htimer chain haction,
        decide_eq_true (Clock.id_ne_of_isPending hgone htimer)⟩
    timedCleared := fun hsome =>
      h.timedCleared fun hnone => hsome (List.filter_eq_nil_iff.mpr (hnone ▸ nofun)) }

/-- All intervals are cancelled. -/
theorem clearRepeats (h : e.Tracks comes) :
    Tracks { e with clock := e.clock.clearTimers e.repeatTimers, repeatTimers := [] } comes :=
  { h.lasts (.clearTimers e.clock e.repeatTimers) with
    repeats := fun timer htimer handler moment haction => by
      obtain ⟨hold, hkept⟩ := List.mem_filter.mp htimer
      have htracked := h.repeats timer hold handler moment haction
      simp [htracked] at hkept
    repeatsCleared := fun hsome => (hsome rfl).elim }

/-- All chains are cancelled. -/
theorem clearTimed (h : e.Tracks comes) :
    Tracks { e with clock := e.clock.clearTimers e.timedTimers, timedTimers := [] } comes :=
  { h.lasts (.clearTimers e.clock e.timedTimers) with
    timed := fun timer htimer chain haction => by
      obtain ⟨hold, hkept⟩ := List.mem_filter.mp htimer
      have htracked := h.timed timer hold chain haction
      simp [htracked] at hkept
    timedCleared := fun hsome => (hsome rfl).elim }

/-- Listeners are removed. -/
theorem unlisten (h : e.Tracks comes) (keep : Listener (ListenerAction η) → Bool) :
    Tracks { e with listeners := e.listeners.filter keep } comes :=
  { h with listeners := fun l hl hevent => h.listeners l (List.mem_filter.mp hl).1 hevent }

/-- What is tracked as nothing is not pending. -/
theorem not_isTracked (h : e.Tracks comes) (hrepeats : e.repeatTimers = [])
    (htimed : e.timedTimers = []) {timer : Timer (TimerAction η)} (htimer : timer ∈ e.clock.timers) :
    timer.action.isTracked = false := by
  cases haction : timer.action with
  | repeatTick handler moment =>
      have hmem := h.repeats timer htimer handler moment haction
      rw [hrepeats] at hmem
      cases hmem
  | timedStep chain =>
      have hmem := h.timed timer htimer chain haction
      rw [htimed] at hmem
      cases hmem
  | _ => rfl

end Engine.Tracks

namespace Engine.Tracked

variable {e : Engine η σ}

/-- A listener registers. -/
theorem listen (h : e.Tracked) (l : Listener (ListenerAction η))
    (hl : l.event = .passageInit → l.action.endsTurn = true) :
    Tracked { e with listeners := e.listeners ++ [l] } := by
  have hmore : Tracks e (Awaits { e with listeners := e.listeners ++ [l] }) :=
    h.mono fun _ hawaits => List.mem_append_left _ hawaits
  refine { hmore with listeners := fun other hother hevent => ?_ }
  rcases List.mem_append.mp hother with hold | hnew
  · exact h.listeners other hold hevent
  · obtain rfl := List.mem_singleton.mp hnew
    exact hl hevent

/-- Listeners are removed, but not those that cancel something. -/
theorem unlisten (h : e.Tracked) (keep : Listener (ListenerAction η) → Bool)
    (hkeep : ∀ action, keep ⟨.passageInit, none, true, action⟩ = true) :
    Tracked { e with listeners := e.listeners.filter keep } := by
  refine (Tracks.unlisten h keep).mono fun action hawaits => ?_
  exact List.mem_filter.mpr ⟨hawaits, hkeep action⟩

end Engine.Tracked

/-- Whatever happens to what is put off in one step, all is still tracked. -/
theorem TimerStep.tracked {terms : Terms η σ} {e e' : Engine η σ} (h : TimerStep terms e e')
    (he : e.Tracked) : e'.Tracked := by
  cases h with
  | still hagenda =>
      have hsame : e'.timing = e.timing := congrArg (·.1) hagenda
      have hlisteners : e'.listeners = e.listeners := congrArg (·.2.1) hsame
      exact (he.congr hsame).mono fun action hawaits => by
        rw [Engine.Awaits, hlisteners]
        exact hawaits
  | timeout delay action h => exact he.addUntracked _ _ h
  | pulse period action h => exact he.addUntracked _ _ h
  | clear id h => exact he.lasts (.clearTimer e.clock id)
  | interval handler moment delay =>
      split
      case isTrue hnone =>
        exact (he.listen repeatsCleaner fun _ => rfl).interval handler moment delay
          (List.mem_append_right _ List.mem_cons_self)
      case isFalse hsome =>
        exact Engine.Tracks.interval he handler moment delay (he.repeatsCleared hsome)
  | @chain k first rest hitems hnow =>
      split
      case isTrue hnone =>
        exact ((he.listen timedCleaner fun _ => rfl).schedule e.chains.size first.delay
          (List.mem_append_right _ List.mem_cons_self)).congr rfl
      case isFalse hsome =>
        exact (Engine.Tracks.schedule he e.chains.size first.delay (he.timedCleared hsome)).congr rfl
  | forgetRepeat id hgone => exact he.forgetRepeat hgone
  | forgetTimed id hgone => exact he.forgetTimed hgone
  | clearRepeats h => exact he.clearRepeats
  | clearTimed h => exact he.clearTimed
  | listen l h hcancels => exact Engine.Tracked.listen he l fun hevent => h hevent ▸ rfl
  | unlisten event name => exact Engine.Tracked.unlisten he _ fun _ => rfl
  | handler h => exact he.congr rfl
  | tick timer h => exact he.congr rfl
  | turn title => exact he.congr rfl

/-! ### The next passage -/

section Tasks

variable {p p' : Perform Empty σ}

/-- The listeners that are called when the player moves on cancel all that is tracked. -/
theorem callListeners_cancel (detail : String) {actions : List (ListenerAction Empty)}
    {e : Engine Empty σ} (hactions : ∀ action ∈ actions, action.endsTurn = true)
    (he : e.Tracks (· ∈ actions)) :
    ∃ e', (∀ p : Perform Empty σ, callListeners Host.idle p detail actions e = (.ok (), e')) ∧
      e'.Tracks fun _ => False := by
  induction actions generalizing e with
  | nil => exact ⟨e, fun _ => rfl, he.mono fun _ hin => by cases hin⟩
  | cons action rest ih =>
      have hrest : ∀ other ∈ rest, other.endsTurn = true := fun other hother =>
        hactions other (List.mem_cons_of_mem action hother)
      have hends := hactions action List.mem_cons_self
      -- what the first listener does not cancel is to be cancelled by the others
      have hcomes {other : ListenerAction Empty} (hother : other ∈ action :: rest)
          (hne : other ≠ action) : other ∈ rest :=
        (List.mem_cons.mp hother).resolve_left hne
      cases action with
      | clearRepeats =>
          exact ih hrest { he.clearRepeats with
            repeatsCleared := fun hsome => (hsome rfl).elim
            timedCleared := fun hsome => hcomes (he.timedCleared hsome) nofun }
      | clearTimed =>
          exact ih hrest { he.clearTimed with
            repeatsCleared := fun hsome => hcomes (he.repeatsCleared hsome) nofun
            timedCleared := fun hsome => (hsome rfl).elim }
      | dropTyping =>
          exact ih hrest { he.unlisten _ with
            repeatsCleared := fun hsome => hcomes (he.repeatsCleared hsome) nofun
            timedCleared := fun hsome => hcomes (he.timedCleared hsome) nofun }
      | _ => cases hends

/-- When the player moves on, all that was pending of the passage that is left is cancelled. -/
theorem trigger_passageInit {e : Engine Empty σ} (he : e.Tracked) (title : String) :
    ∃ e', (∀ p : Perform Empty σ, trigger Host.idle p .passageInit title e = (.ok (), e')) ∧
      e'.Tracked ∧ ∀ timer ∈ e'.clock.timers, timer.action.isTracked = false := by
  let actions := (Listener.take e.listeners .passageInit).1
  have hactions : ∀ action ∈ actions, action.endsTurn = true := by
    intro action haction
    obtain ⟨l, hl, rfl⟩ := List.mem_map.mp haction
    obtain ⟨hmem, hevent⟩ := List.mem_filter.mp hl
    exact he.listeners l hmem (of_decide_eq_true hevent)
  have hcomes : e.Tracks (· ∈ actions) := he.mono fun action hawaits =>
    List.mem_map.mpr ⟨_, List.mem_filter.mpr ⟨hawaits, rfl⟩, rfl⟩
  obtain ⟨e', hrun, hdone⟩ := callListeners_cancel title hactions (hcomes.unlisten _)
  have hrepeats : e'.repeatTimers = [] := by
    by_contra hsome
    exact hdone.repeatsCleared hsome
  have htimed : e'.timedTimers = [] := by
    by_contra hsome
    exact hdone.timedCleared hsome
  exact ⟨e', hrun, hdone.mono fun _ => False.elim,
    fun timer htimer => hdone.not_isTracked hrepeats htimed htimer⟩

/-! ### The watch -/

/-- Call those who listen to the beginning of a passage, and raise the alarm if an interval or a chain
of clauses is still pending after that. -/
def sweep (alarm : Run Empty σ Unit) (p : Perform Empty σ) (title : String) : Run Empty σ Unit := do
  trigger Host.idle p .passageInit title
  if (← get).clock.timers.any (·.action.isTracked) then alarm

/-- Do a task, like `perform`, but raise the alarm where a passage is about to be rendered while an
interval or a chain of clauses of an earlier one is pending. -/
def swept (alarm : Run Empty σ Unit) : Nat → Perform Empty σ
  | 0 => fun _ => throw .outOfFuel
  | fuel + 1 => fun t =>
    match t with
    | .trigger event detail =>
      if event = .passageInit then sweep alarm (swept alarm fuel) detail
      else trigger Host.idle (swept alarm fuel) event detail
    | t => performTask Host.idle (swept alarm fuel) fuel t

theorem sweep_alike (alarm : Run Empty σ Unit) (title : String) :
    (trigger Host.idle p .passageInit title).AlikeIn Engine.Tracked (sweep alarm p' title) := by
  intro e he
  obtain ⟨e', hrun, htracked, hnone⟩ := trigger_passageInit he title
  have hquiet : e'.clock.timers.any (·.action.isTracked) = false :=
    List.any_eq_false.mpr fun timer htimer => by simp [hnone timer htimer]
  refine ⟨?_, fun _ => by rw [hrun p]; exact htracked⟩
  rw [sweep, Run.bind_of_ok (hrun p'), Run.get_bind_apply, hquiet, hrun p]
  rfl

/-! ### Performing tasks -/

/-- Both performers do the same in engines where all is tracked, and it remains so. -/
abbrev TrackAlike (p p' : Perform Empty σ) : Prop :=
  ∀ t, (p t).AlikeIn Engine.Tracked (p' t)

theorem Steady.track_alike {α : Type} {X : Perform Empty σ → Run Empty σ α}
    (hX : Steady (.unlimited Host.idle) X) (hp : TrackAlike p p') : (X p).AlikeIn Engine.Tracked (X p') :=
  hX.keeps (fun _ _ hstep he => hstep.tracked he) fun t _ => hp t

theorem trigger_track_alike (hp : TrackAlike p p') {event : Event} (hevent : event ≠ .passageInit)
    (detail : String) :
    (trigger Host.idle p event detail).AlikeIn Engine.Tracked
      (trigger Host.idle p' event detail) := by
  intro e he
  have hlater : Engine.Tracked { e with listeners := (Listener.take e.listeners event).2 } := by
    refine Engine.Tracked.unlisten he _ fun action => ?_
    simp [hevent.symm]
  exact (steady_callListeners detail fun _ _ _ => trivial).track_alike hp _ hlater

/-- The timer of a chain that fires is no longer tracked, but the one that is set for the next clause
is. -/
theorem takeItem_tracked {e : Engine Empty σ} (he : e.Tracked) (chain : Nat) {id : TimerId}
    (hid : id ∈ e.timedTimers) (hgone : e.clock.isPending id = false) :
    (Builtin.takeItem chain id e).2.Tracked := by
  let left : Engine Empty σ := { e with timedTimers := e.timedTimers.filter (· ≠ id) }
  have hleft : left.Tracked := he.forgetTimed hgone
  -- the listener still waits, though it may be that no chain is tracked for now
  have hawaits : left.Awaits .clearTimed := he.timedCleared (List.ne_nil_of_mem hid)
  rw [Builtin.takeItem, Run.modify_bind_apply, Run.get_bind_apply]
  dsimp only
  cases e.chains[chain]? with
  | none => exact hleft
  | some c =>
      dsimp only
      rw [Run.isStale_bind_apply]
      split
      · exact hleft
      · cases c.items with
        | nil => exact hleft
        | cons item rest =>
            let taken : Engine Empty σ := { left with
              chains := left.chains.modify chain fun c => { c with items := rest } }
            have htaken : taken.Tracked := hleft.congr rfl
            cases rest with
            | nil => exact htaken
            | cons next rest => exact htaken.schedule chain next.delay hawaits

/-- What a timer runs that has just been taken, when it was tracked if it belongs to a chain. -/
theorem runTimer_track_alike (hp : TrackAlike p p') {timer : Timer (TimerAction Empty)}
    {e : Engine Empty σ} (he : e.Tracked)
    (hstep : ∀ chain, timer.action = .timedStep chain →
      timer.id ∈ e.timedTimers ∧ e.clock.isPending timer.id = false) :
    (runTimer Host.idle p timer).AlikeAt Engine.Tracked (runTimer Host.idle p' timer) e := by
  by_cases hchain : ∃ chain, timer.action = .timedStep chain
  · obtain ⟨chain, haction⟩ := hchain
    obtain ⟨hid, hgone⟩ := hstep chain haction
    simp only [runTimer, haction]
    refine .bind ⟨rfl, fun _ => takeItem_tracked he chain hid hgone⟩ fun found => ?_
    cases found with
    | none => exact .own fun _ he => he
    | some taken => exact hp _
  · exact (steady_runTimer trivial (fun _ _ _ _ => trivial) (not_exists.mp hchain)).track_alike hp e he

theorem fireDue_track_alike (hp : TrackAlike p p') (limit fuel : Nat) :
    (fireDue Host.idle p limit fuel).AlikeIn Engine.Tracked
      (fireDue Host.idle p' limit fuel) := by
  induction fuel with
  | zero => exact .own fun _ he => he
  | succ fuel ih =>
      intro e he
      rw [Run.AlikeAt, fireDue_succ, fireDue_succ]
      cases hdue : e.clock.takeDue limit with
      | none => exact ⟨rfl, fun _ => he⟩
      | some taken =>
          obtain ⟨timer, clock⟩ := taken
          have htaken : Engine.Tracked { e with clock := clock } := he.lasts (.takeDue hdue)
          refine Run.AlikeAt.bind (.reporting (fun _ _ he => he.congr rfl) ?_) fun _ => ih
          refine runTimer_track_alike hp htaken fun chain haction => ?_
          have htimer := Clock.mem_of_takeDue hdue
          exact ⟨he.timed timer htimer chain haction,
            Clock.isPending_of_takeDue hdue (he.once timer htimer chain haction)⟩

/-- Under the watch tasks are performed in the same way. -/
theorem swept_alike (alarm : Run Empty σ Unit) (n : Nat) :
    TrackAlike (perform Host.idle n) (swept alarm n) := by
  induction n with
  | zero => exact fun t => .own fun _ he => he
  | succ n ih =>
      intro t
      cases t with
      | render out source => exact (steady_renderTask out source).track_alike ih
      | trigger event detail =>
          by_cases hevent : event = .passageInit
          · subst hevent
            exact sweep_alike alarm detail
          · have hswept : swept alarm (n + 1) (.trigger event detail) =
                trigger Host.idle (swept alarm n) event detail := if_neg hevent
            rw [hswept]
            exact trigger_track_alike ih hevent detail
      | navigate title => exact (steady_navigate trivial title).track_alike ih
      | invoke id arg => exact (steady_invokeHandler id arg).track_alike ih
      | startTyping => exact Builtin.steady_startFirst.track_alike ih
      | advance ms =>
          refine .bind (.own fun _ he => he) fun e => .bind (fireDue_track_alike ih _ n) fun _ => ?_
          exact .own fun e he => he.lasts (.setNow e.clock _)

end Tasks

/-! ### Playing -/

theorem steady_click {terms : Terms Empty σ} (element : ElementId) :
    Steady terms fun p : Perform Empty σ => click p element := by
  refine .get fun e => ?_
  cases takeClickable? element e.clickables with
  | none => exact .pure false
  | some found =>
      obtain ⟨c, others⟩ := found
      exact .nextWhen (.still fun _ => rfl) (.bind (.task trivial) fun _ => .pure true)

theorem HostCall.track_alike {p p' : Perform Empty σ} (hp : TrackAlike p p') (call : HostCall) :
    (call.run p).AlikeIn Engine.Tracked (call.run p') := by
  cases call with
  | addPassage title source => exact .own fun _ he => he.congr rfl
  | render out source => exact hp _
  | navigate title => exact hp _
  | click element => exact .bind ((steady_click element).track_alike hp) fun _ => .own fun _ he => he
  | pressKey key => exact hp _
  | advance ms => exact hp _
  | set name value =>
      have hset : Steady (.unlimited Host.idle) fun _ : Perform Empty σ =>
          Run.changingState fun s => s.set name value :=
        .changingState fun _ _ => State.reassigned_of_set
      exact hset.track_alike hp
  | newOutput => exact .own fun _ he => he.congr rfl
  | takeErrors => exact .own fun _ he => he.congr rfl

theorem Played.tracked {config : Config} {host : σ} {e : Engine Empty σ}
    (he : Played config host e) : e.Tracked := by
  induction he with
  | start => exact ⟨nofun, nofun, nofun, nofun, fun h => (h rfl).elim, fun h => (h rfl).elim⟩
  | @call e e' before call n r hrun hr ih =>
      have halike := HostCall.track_alike (swept_alike (fun e => (.ok (), e)) n) call e ih
      rw [Run.AlikeAt, hrun] at halike
      exact halike.2 hr

/-- Every interval and every chain of clauses that is pending is tracked, and as long as any of a kind
are tracked a listener waits that will cancel them when the player moves on. So when that happens, by
whatever call, none of them is pending any more once the beginning of the next passage has been
announced (`swept`). -/
theorem timers_tracked (config : Config) (host : σ) {e : Engine Empty σ}
    (he : Played config host e) :
    ((∀ timer ∈ e.clock.timers,
        (∀ handler moment, timer.action = .repeatTick handler moment → timer.id ∈ e.repeatTimers) ∧
        ∀ chain, timer.action = .timedStep chain → timer.id ∈ e.timedTimers) ∧
      (e.repeatTimers ≠ [] → repeatsCleaner ∈ e.listeners) ∧
      (e.timedTimers ≠ [] → timedCleaner ∈ e.listeners)) ∧
    ∀ (call : HostCall) (alarm : Run Empty σ Unit) (n : Nat),
      call.run (swept alarm n) e = call.run (perform Host.idle n) e := by
  have htracked := he.tracked
  refine ⟨⟨fun timer htimer => ⟨htracked.repeats timer htimer, htracked.timed timer htimer⟩,
    htracked.repeatsCleared, htracked.timedCleared⟩, fun call alarm n => ?_⟩
  exact (HostCall.track_alike (swept_alike alarm n) call e htracked).1

/-- An interval and a chain of clauses. -/
def intervalAndChain : String :=
  "<<repeat 1s>>tick<</repeat>><<timed 2s>>once<</timed>>"

/-- An interval and a chain of clauses that have just been rendered in a passage. -/
theorem shown_timers_tracked : ∃ e : Engine Empty Unit, Played {} () e ∧
    e.repeatTimers = [1] ∧ e.timedTimers = [2] ∧
    repeatsCleaner ∈ e.listeners ∧ timedCleaner ∈ e.listeners ∧
    ∀ (alarm : Run Empty Unit Unit) (n : Nat),
      (HostCall.navigate "P").run (swept alarm n) e =
        (HostCall.navigate "P").run (perform Host.idle n) e := by
  let given : Engine Empty Unit := (Engine.ofConfig {} ()).addPassage "P" intervalAndChain
  let shown := perform Host.idle 20 (.navigate "P") given
  obtain ⟨hreturned, hrepeats, htimed⟩ :
      Returned shown.1 ∧ shown.2.repeatTimers = [1] ∧ shown.2.timedTimers = [2] := by
    decide +kernel
  have hgiven : Played {} () given :=
    .call .start (.addPassage "P" intervalAndChain) (n := 0) rfl (returned_ok ())
  have hshown : Played {} () shown.2 :=
    .call hgiven (.navigate "P") (n := 20) rfl hreturned
  obtain ⟨⟨-, hrepeatsCleaner, htimedCleaner⟩, hswept⟩ := timers_tracked {} () hshown
  refine ⟨shown.2, hshown, hrepeats, htimed, hrepeatsCleaner ?_, htimedCleaner ?_,
    hswept (.navigate "P")⟩
  · rw [hrepeats]
    exact List.cons_ne_nil 1 []
  · rw [htimed]
    exact List.cons_ne_nil 2 []

end StoryEngine
