import StoryEngine.Proofs.Clock.Sound
import StoryEngine.Proofs.Engine.SteadyTasks
/-!
# StoryEngine.Proofs.Engine.Waiting

A chain of clauses that waits for the next of them to be due (`Engine.Waits`): its clauses are those
that are left, one timer is set for the first of these, and its handler runs what it was made for.
Whatever work does, the chain goes on waiting unless the player moves on (`TimerStep.waits`,
`perform_waits`): nothing else cancels its timer, since timers of other kinds only cancel themselves,
and nobody else sets a timer for it.

All this presupposes that what is pending in an engine is in order (`Engine.Regular`).
-/

namespace StoryEngine

variable {η σ α : Type} {terms : Terms η σ}

/-! ### What is pending in an engine -/

/-- What is pending in an engine is in order. -/
structure Engine.Regular (e : Engine η σ) : Prop where
  clock : e.clock.Sound
  /-- The chains that timers are set for have been made. -/
  chains : ∀ timer ∈ e.clock.timers, ∀ chain, timer.action = .timedStep chain → chain < e.chains.size
  /-- What cancels all that is tracked waits for the player to move on. -/
  listeners : ∀ l ∈ e.listeners, l.action.cancels = true → l.event = .passageInit
  /-- The interval that is ticking has had a timer. -/
  ticking : ∀ id, e.repeatTimer = some id → id < e.clock.nextId

/-- What the agenda of an engine is made up of. -/
theorem Engine.agenda_eq_iff {e e' : Engine η σ} : e'.agenda = e.agenda ↔
    (e'.clock = e.clock ∧ e'.listeners = e.listeners ∧ e'.repeatTimers = e.repeatTimers ∧
      e'.timedTimers = e.timedTimers) ∧ e'.chains = e.chains ∧
    e'.handlers.map ShadowHandler.parts = e.handlers.map ShadowHandler.parts ∧
    e'.repeatTimer = e.repeatTimer ∧
    (⟨e'.state.passage, e'.state.turns⟩ : Moment) = ⟨e.state.passage, e.state.turns⟩ := by
  simp only [Engine.agenda, Engine.timing, Prod.mk.injEq]

namespace Engine.Regular

variable {e e' : Engine η σ}

theorem congr (he : e.Regular) (h : e'.agenda = e.agenda) : e'.Regular := by
  obtain ⟨⟨hclock, hlisteners, -, -⟩, hchains, -, hticking, -⟩ := Engine.agenda_eq_iff.mp h
  refine ⟨hclock ▸ he.clock, ?_, hlisteners ▸ he.listeners, ?_⟩
  · rw [hclock, hchains]
    exact he.chains
  · rw [hclock, hticking]
    exact he.ticking

/-- A new engine has nothing pending. -/
theorem start (config : Config) (registry : Registry (Handler η)) (host : σ) :
    (Engine.ofRegistry config registry host).Regular :=
  ⟨.start, nofun, nofun, nofun⟩

/-- Timers are cancelled or taken, or the clock moves on. -/
theorem lasts (he : e.Regular) {clock : Clock (TimerAction η)} (hclock : clock.Sound)
    (hlasts : e.clock.Lasts clock) : Regular { e with clock := clock } where
  clock := hclock
  chains timer' htimer' chain haction := by
    obtain ⟨timer, htimer, -, -, hsame⟩ := hlasts.timers timer' htimer'
    exact he.chains timer htimer chain (hsame ▸ haction)
  listeners := he.listeners
  ticking id h := hlasts.nextId.symm ▸ he.ticking id h

/-- A timer is set. If it is set for a chain, that has been made. -/
theorem addTimer (he : e.Regular) (delay : Nat) {period : Option Nat} (action : TimerAction η)
    (hperiod : ∀ p, period = some p → 0 < p)
    (haction : ∀ chain, action = .timedStep chain → chain < e.chains.size) :
    Regular { e with clock := (e.clock.addTimer delay period action).2 } where
  clock := he.clock.addTimer delay action hperiod
  chains timer htimer chain h := by
    rcases Clock.Sound.mem_addTimer.mp htimer with hold | rfl
    · exact he.chains timer hold chain h
    · exact haction chain h
  listeners := he.listeners
  ticking id h := Nat.lt_succ_of_lt (he.ticking id h)

theorem addUntracked (he : e.Regular) (delay : Nat) {period : Option Nat} {action : TimerAction η}
    (hperiod : ∀ p, period = some p → 0 < p) (haction : action.isTracked = false) :
    Regular { e with clock := (e.clock.addTimer delay period action).2 } :=
  he.addTimer delay action hperiod fun _ h => by subst h; cases haction

/-- Chains are made. -/
theorem addChains (he : e.Regular) {chains : Array TimedChain} (h : e.chains.size ≤ chains.size) :
    Regular { e with chains := chains } :=
  { he with chains := fun timer htimer chain haction =>
      Nat.lt_of_lt_of_le (he.chains timer htimer chain haction) h }

/-- Other listeners are there, of which those that cancel something wait for the right event. -/
theorem withListeners (he : e.Regular) {listeners : List (Listener (ListenerAction η))}
    (h : ∀ l ∈ listeners, l ∈ e.listeners ∨ (l.action.cancels = true → l.event = .passageInit)) :
    Regular { e with listeners := listeners } := by
  refine { he with listeners := fun l hl hcancels => ?_ }
  rcases h l hl with hold | hnew
  · exact he.listeners l hold hcancels
  · exact hnew hcancels

/-- A listener registers on a condition, along with those that there are. -/
theorem listenWhen (he : e.Regular) {c : Prop} [Decidable c] {l : Listener (ListenerAction η)}
    (h : l.action.cancels = true → l.event = .passageInit) :
    Regular { e with listeners := if c then e.listeners ++ [l] else e.listeners } := by
  refine he.withListeners fun other hother => ?_
  split at hother
  · rcases List.mem_append.mp hother with hold | hnew
    · exact .inl hold
    · exact .inr (List.mem_singleton.mp hnew ▸ h)
  · exact .inl hother

end Engine.Regular

/-- Identities of timers are used up, and none is used twice. -/
theorem TimerStep.nextId_le {e e' : Engine η σ} (h : TimerStep terms e e') :
    e.clock.nextId ≤ e'.clock.nextId := by
  cases h with
  | still h =>
      have hclock : e'.clock = e.clock := (Engine.agenda_eq_iff.mp h).1.1
      exact Nat.le_of_eq (congrArg Clock.nextId hclock.symm)
  | timeout | pulse | interval | chain => exact Nat.le_succ _
  | _ => exact Nat.le_refl _

/-- No turn is taken back. -/
theorem TimerStep.turns_le {e e' : Engine η σ} (h : TimerStep terms e e') :
    e.state.turns ≤ e'.state.turns := by
  cases h with
  | still h =>
      have hmoment := (Engine.agenda_eq_iff.mp h).2.2.2.2
      exact Nat.le_of_eq (congrArg Moment.turn hmoment.symm)
  | turn title => exact Nat.le_succ _
  | _ => exact Nat.le_refl _

/-- What is pending stays in order, if work cancels only timers that have been set. -/
theorem TimerStep.regular {e e' : Engine η σ} (h : TimerStep terms e e')
    (hclears : ∀ id, terms.clears id → id < e.clock.nextId) (he : e.Regular) : e'.Regular := by
  cases h with
  | still h => exact he.congr h
  | timeout delay action h => exact he.addUntracked delay nofun h
  | pulse period action h =>
      refine he.addUntracked _ (fun p hp => ?_) h
      cases hp
      omega
  | clear id h => exact he.lasts (he.clock.clearTimer id) (.clearTimer e.clock id)
  | interval handler moment delay =>
      have hlisteners := he.listenWhen (c := e.repeatTimers = []) (l := repeatsCleaner) fun _ => rfl
      have hperiod : ∀ p, some (max delay 1) = some p → 0 < p := fun p hp => by
        cases hp
        omega
      exact { hlisteners.addTimer _ (.repeatTick handler moment) hperiod nofun with }
  | @chain k first rest hitems hnow =>
      have hlisteners := he.listenWhen (c := e.timedTimers = []) (l := timedCleaner) fun _ => rfl
      have hsize : e.chains.size < (e.chains.push k).size := by
        rw [Array.size_push]
        exact Nat.lt_succ_self _
      have hchains := hlisteners.addChains (Nat.le_of_lt hsize)
      have hmade : ∀ chain, (.timedStep e.chains.size : TimerAction η) = .timedStep chain →
          chain < (e.chains.push k).size := fun chain h => by
        cases h
        exact hsize
      have honce (p : Nat) (hp : none = some p) : 0 < p := nomatch hp
      exact { hchains.addTimer first.delay (.timedStep e.chains.size) honce hmade with }
  | forgetRepeat | forgetTimed | handler => exact { he with }
  | clearRepeats h =>
      exact { he.lasts (he.clock.filter _) (.clearTimers e.clock e.repeatTimers) with }
  | clearTimed h =>
      exact { he.lasts (he.clock.filter _) (.clearTimers e.clock e.timedTimers) with }
  | listen l h hcancels =>
      refine he.withListeners fun other hother => ?_
      rcases List.mem_append.mp hother with hold | hnew
      · exact .inl hold
      · cases List.mem_singleton.mp hnew
        exact .inr fun h => by rw [hcancels] at h; cases h
  | unlisten event name => exact he.withListeners fun l hl => .inl (List.mem_filter.mp hl).1
  | tick timer h => exact ⟨he.clock, he.chains, he.listeners, fun id hid => hclears id (h id hid)⟩
  | turn title => exact ⟨he.clock, he.chains, he.listeners, nofun⟩

/-! ### A chain that waits -/

/-- The timer is set for the next clause of the chain. -/
def TimerAction.isStepOf (chain : Nat) : TimerAction η → Bool
  | .timedStep other => other == chain
  | _ => false

theorem TimerAction.isStepOf_iff {action : TimerAction η} {chain : Nat} :
    action.isStepOf chain = true ↔ action = .timedStep chain := by
  cases action <;> simp [isStepOf]

theorem TimerAction.isStepOf_of_untracked {action : TimerAction η} (h : action.isTracked = false)
    (chain : Nat) : action.isStepOf chain = false := by
  cases action with
  | timedStep other => cases h
  | _ => rfl

/-- The timers of a chain that are pending. -/
def Engine.stepTimers (e : Engine η σ) (chain : Nat) : List (Timer (TimerAction η)) :=
  e.clock.timers.filter (·.action.isStepOf chain)

/-- The timer that a chain has if it waits for the first of some clauses: none, if there are none. -/
def awaited (chain : Nat) (items : List TimedItem) (id : TimerId) (due : Nat) :
    List (Timer (TimerAction η)) :=
  match items with
  | [] => []
  | _ :: _ => [⟨id, due, none, .timedStep chain⟩]

/-- In the engine the chain waits for the first of its clauses to be due at the time, when its handler
will run the body. Of the timers that may be cancelled meanwhile, its own is none. -/
structure Engine.Waits (clears : TimerId → Prop) (chain : Nat) (k : TimedChain) (body : Callback η)
    (due : Nat) (e : Engine η σ) : Prop where
  regular : e.Regular
  there : e.chains[chain]? = some k
  present : k.moment = ⟨e.state.passage, e.state.turns⟩
  handler : (e.handlers.map ShadowHandler.parts)[k.handler.index]? = some (none, some body, none)
  timers : ∃ id, e.stepTimers chain = awaited chain k.items id due
  known : ∀ id, clears id → id < e.clock.nextId
  own : ∀ timer ∈ e.stepTimers chain, e.repeatTimer ≠ some timer.id ∧ ¬ clears timer.id

namespace Engine.Waits

variable {clears : TimerId → Prop} {chain due : Nat} {k : TimedChain} {body : Callback η}
variable {e e' : Engine η σ}

/-- The chain goes on waiting as long as nothing happens to it and its timer. -/
theorem keep (h : e.Waits clears chain k body due) (hregular : e'.Regular)
    (hthere : e'.chains[chain]? = e.chains[chain]?)
    (hpresent : (⟨e'.state.passage, e'.state.turns⟩ : Moment) = ⟨e.state.passage, e.state.turns⟩)
    (hhandlers : ∀ (i : Nat) parts, (e.handlers.map ShadowHandler.parts)[i]? = some parts →
      (e'.handlers.map ShadowHandler.parts)[i]? = some parts)
    (htimers : e'.stepTimers chain = e.stepTimers chain) (hnextId : e.clock.nextId ≤ e'.clock.nextId)
    (hticking : ∀ id, e'.repeatTimer = some id → e.repeatTimer = some id ∨ clears id) :
    e'.Waits clears chain k body due where
  regular := hregular
  there := hthere.trans h.there
  present := h.present.trans hpresent.symm
  handler := hhandlers _ _ h.handler
  timers := htimers.symm ▸ h.timers
  known id hid := Nat.lt_of_lt_of_le (h.known id hid) hnextId
  own timer htimer := by
    rw [htimers] at htimer
    obtain ⟨hrepeat, hkept⟩ := h.own timer htimer
    refine ⟨fun htick => ?_, hkept⟩
    rcases hticking timer.id htick with hold | hnew
    · exact hrepeat hold
    · exact hkept hnew

theorem congr (h : e.Waits clears chain k body due) (hagenda : e'.agenda = e.agenda) :
    e'.Waits clears chain k body due := by
  obtain ⟨⟨hclock, -, -, -⟩, hchains, hhandlers, hticking, hmoment⟩ :=
    Engine.agenda_eq_iff.mp hagenda
  refine h.keep (h.regular.congr hagenda) (hchains ▸ rfl) hmoment
    (fun i parts hparts => hhandlers ▸ hparts) ?_ (Nat.le_of_eq (hclock ▸ rfl))
    (fun id hid => .inl (hticking ▸ hid))
  rw [stepTimers, hclock, stepTimers]

/-- Something else is pending along with the timer of the chain. -/
theorem keepTimers (h : e.Waits clears chain k body due) {clock : Clock (TimerAction η)}
    (hregular : Regular { e with clock := clock })
    (htimers : clock.timers.filter (·.action.isStepOf chain) = e.stepTimers chain)
    (hnextId : e.clock.nextId ≤ clock.nextId) :
    Waits clears chain k body due { e with clock := clock } :=
  h.keep hregular rfl rfl (fun _ _ hparts => hparts) htimers hnextId fun _ hid => .inl hid

end Engine.Waits

/-- A timer is set for something else. -/
theorem Engine.stepTimers_addTimer (e : Engine η σ) {chain : Nat} (delay : Nat) (period : Option Nat)
    {action : TimerAction η} (h : action.isStepOf chain = false) :
    (e.clock.addTimer delay period action).2.timers.filter (·.action.isStepOf chain) =
      e.stepTimers chain := by
  rw [stepTimers, Clock.addTimer, List.filter_append, List.filter_cons, h]
  exact List.append_nil _

/-- The timer of a chain is not among those that may be cancelled. -/
theorem Engine.Waits.stepTimers_clearTimer {clears : TimerId → Prop} {chain due : Nat}
    {k : TimedChain} {body : Callback η} {e : Engine η σ} (h : e.Waits clears chain k body due)
    {id : TimerId} (hid : e.repeatTimer = some id ∨ clears id) :
    (e.clock.clearTimer id).timers.filter (·.action.isStepOf chain) = e.stepTimers chain := by
  have hne : ∀ timer ∈ e.stepTimers chain, (timer.id != id) = true := by
    intro timer htimer
    obtain ⟨hrepeat, hkept⟩ := h.own timer htimer
    refine bne_iff_ne.mpr fun heq => ?_
    rcases hid with hold | hnew
    · exact hrepeat (heq ▸ hold)
    · exact hkept (heq ▸ hnew)
  have hcomm : (e.clock.clearTimer id).timers.filter (·.action.isStepOf chain) =
      (e.stepTimers chain).filter (·.id != id) := List.filter_comm _ _ _
  rw [hcomm, List.filter_eq_self.mpr hne]

theorem ShadowHandler.parts_push {handlers : Array (ShadowHandler η)} (handler : ShadowHandler η)
    {i : Nat} {parts : Option (Callback η) × Option (Callback η) × Option (Callback η)}
    (h : (handlers.map ShadowHandler.parts)[i]? = some parts) :
    ((handlers.push handler).map ShadowHandler.parts)[i]? = some parts := by
  rw [Array.map_push, Array.getElem?_push, if_neg]
  · exact h
  · exact Nat.ne_of_lt (Array.getElem?_eq_some_iff.mp h).1

/-- Whatever happens in one step, the chain goes on waiting unless the player moves on. -/
theorem TimerStep.waits {chain due : Nat} {k : TimedChain} {body : Callback η} {e e' : Engine η σ}
    (h : TimerStep terms e e') (hends : ¬ terms.endsTurn) (he : e.Waits terms.clears chain k body due) :
    k.moment.turn < e'.state.turns ∨ e'.Waits terms.clears chain k body due := by
  have hregular : e'.Regular := h.regular he.known he.regular
  have hnextId := h.nextId_le
  cases h with
  | still h => exact .inr (he.congr h)
  | timeout delay action h =>
      have hother := e.stepTimers_addTimer delay none (action.isStepOf_of_untracked h chain)
      exact .inr (he.keepTimers hregular hother hnextId)
  | pulse period action h =>
      have hother := e.stepTimers_addTimer (max period 1) (some (max period 1))
        (action.isStepOf_of_untracked h chain)
      exact .inr (he.keepTimers hregular hother hnextId)
  | clear id h => exact .inr (he.keepTimers hregular (he.stepTimers_clearTimer h) hnextId)
  | interval handler moment delay =>
      have hother : (.repeatTick handler moment : TimerAction η).isStepOf chain = false := rfl
      exact .inr (he.keep hregular rfl rfl (fun _ _ h => h) (e.stepTimers_addTimer _ _ hother) hnextId
        fun _ => .inl)
  | @chain made first rest hitems hnow =>
      have hlt : chain < e.chains.size := (Array.getElem?_eq_some_iff.mp he.there).1
      have hother : (.timedStep e.chains.size : TimerAction η).isStepOf chain = false :=
        beq_eq_false_iff_ne.mpr (Nat.ne_of_gt hlt)
      refine .inr (he.keep hregular ?_ rfl (fun _ _ h => h) (e.stepTimers_addTimer _ _ hother) hnextId
        fun _ => .inl)
      exact Array.getElem?_push_lt hlt ▸ (Array.getElem?_eq_getElem hlt).symm
  | forgetRepeat | forgetTimed | listen | unlisten =>
      exact .inr (he.keep hregular rfl rfl (fun _ _ h => h) rfl hnextId fun _ => .inl)
  | clearRepeats h => exact absurd h hends
  | clearTimed h => exact absurd h hends
  | handler h =>
      exact .inr (he.keep hregular rfl rfl (fun _ _ => ShadowHandler.parts_push h) rfl hnextId
        fun _ => .inl)
  | tick timer h =>
      exact .inr (he.keep hregular rfl rfl (fun _ _ h => h) rfl hnextId fun id hid => .inr (h id hid))
  | turn title =>
      have hturn : k.moment.turn = e.state.turns := congrArg Moment.turn he.present
      exact .inl (hturn ▸ Nat.lt_succ_self _)

/-! ### Work -/

/-- What work of the built-in macros may do: cancel some timers, and end the turn or not. -/
abbrev Terms.idle (clears : TimerId → Prop) (ends : Prop) : Terms Empty σ :=
  ⟨Host.idle, clears, ends⟩

/-- The computation keeps the property wherever it returns. -/
abbrev Run.Preserves (I : Engine η σ → Prop) (x : Run η σ α) : Prop :=
  x.AlikeIn I x

section Tasks

variable {clears : TimerId → Prop}

/-- What steps keep, and the taking of listeners, is kept by whatever is asked of the engine. -/
theorem perform_preserves {I : Engine Empty σ → Prop}
    (hsteps : ∀ e e', TimerStep (.idle clears True) e e' → I e → I e')
    (htake : ∀ event e, I e → I { e with listeners := (Listener.take e.listeners event).2 })
    (n : Nat) {t : Task} (ht : ∀ ms, t ≠ .advance ms) :
    (perform (Host.idle : Host Empty σ) n t).Preserves I := by
  induction n generalizing t with
  | zero => exact .own fun _ he => he
  | succ n ih =>
      have hkeeps {X : Perform Empty σ → Run Empty σ Unit} (hX : Steady (.idle clears True) X) :
          (X (perform Host.idle n)).Preserves I := hX.keeps hsteps fun t ht => ih ht.ne_advance
      cases t with
      | render out source => exact hkeeps (steady_renderTask out source)
      | trigger event detail =>
          refine .bind (.own fun _ he => he) fun e => ?_
          refine .bind (.own fun e he => htake event e he) fun _ => ?_
          exact hkeeps (steady_callListeners detail fun _ _ _ => trivial)
      | navigate title => exact hkeeps (steady_navigate trivial title)
      | invoke id arg => exact hkeeps (steady_invokeHandler id arg)
      | startTyping => exact hkeeps Builtin.steady_startFirst
      | advance ms => exact (ht ms rfl).elim

/-- The turn is a later one. -/
def Engine.Past (turn : Nat) (e : Engine Empty σ) : Prop :=
  turn < e.state.turns

theorem TimerStep.past {terms : Terms Empty σ} {turn : Nat} {e e' : Engine Empty σ}
    (h : TimerStep terms e e') (he : e.Past turn) : e'.Past turn :=
  Nat.lt_of_lt_of_le he h.turns_le

/-- No task takes a turn back. -/
theorem perform_past (n turn : Nat) {t : Task} (ht : ∀ ms, t ≠ .advance ms) :
    (perform (Host.idle : Host Empty σ) n t).Preserves (Engine.Past turn) := by
  have hsteps (e e' : Engine Empty σ) (h : TimerStep (.idle (fun _ => True) True) e e')
      (he : e.Past turn) : e'.Past turn := h.past he
  exact perform_preserves hsteps (fun _ _ he => he) n ht

/-! ### What lasts until the player moves on -/

/-- The player has moved on, or the engine has the property. -/
def Engine.OrPast (turn : Nat) (I : Engine Empty σ → Prop) (e : Engine Empty σ) : Prop :=
  e.Past turn ∨ I e

/-- Steps keep the property unless the player moves on. In engines with it what is pending is in order,
and it is the turn. -/
structure LastsUntil (clears : TimerId → Prop) (turn : Nat) (I : Engine Empty σ → Prop) : Prop where
  regular : ∀ e, I e → e.Regular
  turns : ∀ e, I e → e.state.turns = turn
  step : ∀ e e', TimerStep (.idle clears False) e e' → I e → e'.OrPast turn I
  taken : ∀ event e, I e → I { e with listeners := (Listener.take e.listeners event).2 }

namespace LastsUntil

variable {turn : Nat} {I : Engine Empty σ → Prop}

theorem stepOrPast (h : LastsUntil clears turn I) {e e' : Engine Empty σ}
    (hstep : TimerStep (.idle clears False) e e') (he : e.OrPast turn I) : e'.OrPast turn I := by
  rcases he with hpast | he
  · exact .inl (hstep.past hpast)
  · exact h.step e e' hstep he

/-- The listeners to an event are called, of which none cancels what is tracked unless the player moves
on. -/
theorem trigger (h : LastsUntil clears turn I) {p : Perform Empty σ}
    (hp : ∀ t, (Terms.idle (σ := σ) clears False).Asks t → (p t).Preserves (Engine.OrPast turn I))
    {event : Event} (hevent : event ≠ .passageInit) (detail : String) {e : Engine Empty σ} (he : I e) :
    (StoryEngine.trigger Host.idle p event detail).AlikeAt (Engine.OrPast turn I)
      (StoryEngine.trigger Host.idle p event detail) e := by
  have hcancels : ∀ action ∈ (Listener.take e.listeners event).1, action.cancels = true → False := by
    intro action haction hcancel
    obtain ⟨l, hl, rfl⟩ := List.mem_map.mp haction
    obtain ⟨hmem, heq⟩ := List.mem_filter.mp hl
    have hinit := (h.regular e he).listeners l hmem hcancel
    exact hevent ((of_decide_eq_true heq).symm.trans hinit)
  have hcalls : Steady (.idle clears False) fun p : Perform Empty σ =>
      callListeners Host.idle p detail (Listener.take e.listeners event).1 :=
    steady_callListeners detail hcancels
  exact hcalls.keeps (fun _ _ hstep => h.stepOrPast hstep) hp _ (.inr (h.taken event e he))

/-- When the player moves on, it is past. -/
theorem navigate (h : LastsUntil clears turn I) {p : Perform Empty σ}
    (hp : ∀ t, (∀ ms, t ≠ .advance ms) → (p t).Preserves (Engine.Past turn))
    (title : String) {e : Engine Empty σ} (he : I e) :
    (StoryEngine.navigate p title).AlikeAt (Engine.OrPast turn I) (StoryEngine.navigate p title) e := by
  refine ⟨rfl, fun hr => ?_⟩
  rw [StoryEngine.navigate, Run.get_bind_apply] at hr ⊢
  cases hsource : Entries.find? title e.passages with
  | none => exact .inr he
  | some source =>
      rw [hsource] at hr
      have hnext : Steady (.idle clears True) fun p : Perform Empty σ => (do
          p (.trigger .passageInit title)
          showPassage p source
          p (.trigger .passageEnd title) : Run Empty σ Unit) := steady_showNext trivial title source
      have hkept := hnext.keeps (fun _ _ hstep he => hstep.past he) fun t ht => hp t ht.ne_advance
      have hpast : (e.beginTurn title).Past turn :=
        Nat.lt_of_le_of_lt (Nat.le_of_eq (h.turns e he).symm) (Nat.lt_succ_self _)
      exact .inl ((hkept _ hpast).2 hr)

/-- Whatever is asked of the engine, the property lasts until the player moves on. -/
theorem perform (h : LastsUntil clears turn I) (n : Nat) {t : Task} (ht : ∀ ms, t ≠ .advance ms)
    (hinit : ∀ title, t ≠ .trigger .passageInit title) :
    (StoryEngine.perform (Host.idle : Host Empty σ) n t).Preserves (Engine.OrPast turn I) := by
  have hpast {n : Nat} {t : Task} (ht : ∀ ms, t ≠ .advance ms) {e : Engine Empty σ}
      (he : e.Past turn) :
      (StoryEngine.perform (Host.idle : Host Empty σ) n t).AlikeAt (Engine.OrPast turn I)
        (StoryEngine.perform Host.idle n t) e :=
    ⟨rfl, fun hr => .inl ((perform_past n turn ht e he).2 hr)⟩
  induction n generalizing t with
  | zero => exact .own fun _ he => he
  | succ n ih =>
      have hp (t : Task) (ht : (Terms.idle (σ := σ) clears False).Asks t) :
          (StoryEngine.perform (Host.idle : Host Empty σ) n t).Preserves (Engine.OrPast turn I) :=
        ih ht.ne_advance fun title heq => by subst heq; exact ht
      have hkeeps {X : Perform Empty σ → Run Empty σ Unit} (hX : Steady (.idle clears False) X) :
          (X (StoryEngine.perform Host.idle n)).Preserves (Engine.OrPast turn I) :=
        hX.keeps (fun _ _ hstep => h.stepOrPast hstep) hp
      cases t with
      | render out source => exact hkeeps (steady_renderTask out source)
      | trigger event detail =>
          rintro e (he | he)
          · exact hpast ht he
          · exact h.trigger hp (fun heq => hinit detail (heq ▸ rfl)) detail he
      | navigate title =>
          rintro e (he | he)
          · exact hpast ht he
          · exact h.navigate (fun t ht => perform_past n _ ht) title he
      | invoke id arg => exact hkeeps (steady_invokeHandler id arg)
      | startTyping => exact hkeeps Builtin.steady_startFirst
      | advance ms => exact (ht ms rfl).elim

end LastsUntil

variable {chain due : Nat} {k : TimedChain} {body : Callback Empty}

/-- The player has moved on since the chain was made, or the chain waits. -/
def Engine.WaitsOrPast (clears : TimerId → Prop) (chain : Nat) (k : TimedChain)
    (body : Callback Empty) (due : Nat) (e : Engine Empty σ) : Prop :=
  e.OrPast k.moment.turn (Engine.Waits clears chain k body due)

/-- A chain goes on waiting until the player moves on. -/
theorem Engine.Waits.lastsUntil : LastsUntil clears k.moment.turn
    (Engine.Waits clears chain k body due : Engine Empty σ → Prop) where
  regular _ he := he.regular
  turns _ he := (congrArg Moment.turn he.present).symm
  step _ _ hstep he := hstep.waits id he
  taken event e he := by
    have hregular : Engine.Regular { e with listeners := (Listener.take e.listeners event).2 } :=
      he.regular.withListeners fun l hl => .inl (List.mem_filter.mp hl).1
    exact he.keep hregular rfl rfl (fun _ _ h => h) rfl (Nat.le_refl _) fun _ => .inl

/-- Whatever is asked of the engine, the chain goes on waiting unless the player moves on. -/
theorem perform_waits (n : Nat) {t : Task} (ht : ∀ ms, t ≠ .advance ms)
    (hinit : ∀ title, t ≠ .trigger .passageInit title) :
    (perform (Host.idle : Host Empty σ) n t).Preserves
      (Engine.WaitsOrPast clears chain k body due) :=
  Engine.Waits.lastsUntil.perform n ht hinit

end Tasks

end StoryEngine
