import StoryEngine.Proofs.Engine.Sure
import StoryEngine.Proofs.Engine.Waiting
/-!
# StoryEngine.Proofs.Play.NextClause

What happens to a chain of clauses that waits when a timer fires. If it is the chain's own, the first
clause that is left is taken, a timer is set for the next one, and then the clause is rendered
(`Engine.Waits.fireOwn`). If not, the chain goes on waiting, whatever the timer runs
(`Engine.Waits.fireOther`): a timer may cancel itself and the interval that is ticking, and neither is
the chain's. What no step of any work undoes stays true whatever fires (`Engine.Stays`).
-/

namespace StoryEngine

variable {η σ : Type}

/-! ### The next clause -/

/-- The engine in which the first clause of a chain has been taken: a timer is set for the next one, if
there is one. -/
def Engine.takeClause (e : Engine η σ) (chain : Nat) (id : TimerId) (rest : List TimedItem) :
    Engine η σ :=
  let left : Engine η σ := { e with
    timedTimers := e.timedTimers.filter (· ≠ id)
    chains := e.chains.modify chain fun k => { k with items := rest } }
  match rest with
  | [] => left
  | next :: _ => { left with
      clock := (e.clock.setTimeout next.delay (.timedStep chain)).2
      timedTimers := left.timedTimers ++ [e.clock.nextId] }

/-- When a timer of a chain fires, the first clause that is left is taken, unless the chain is stale or
none is left. -/
theorem takeItem_cases (chain : Nat) (id : TimerId) (e : Engine η σ) :
    (Builtin.takeItem chain id e =
        (.ok none, { e with timedTimers := e.timedTimers.filter (· ≠ id) }) ∧
      ∀ k, e.chains[chain]? = some k → k.moment = ⟨e.state.passage, e.state.turns⟩ → k.items = []) ∨
    ∃ k item rest, e.chains[chain]? = some k ∧ k.items = item :: rest ∧
      Builtin.takeItem chain id e =
        (.ok (some (k.handler, item)), e.takeClause chain id rest) := by
  rw [Builtin.takeItem, Run.modify_bind_apply, Run.get_bind_apply]
  dsimp only
  cases hchain : e.chains[chain]? with
  | none => exact .inl ⟨rfl, nofun⟩
  | some k =>
      dsimp only
      rw [Run.isStale_bind_apply]
      by_cases hmoment : (⟨e.state.passage, e.state.turns⟩ : Moment) = k.moment
      · rw [if_neg (by simpa using hmoment)]
        cases hitems : k.items with
        | nil =>
            refine .inl ⟨rfl, fun other hother _ => ?_⟩
            cases hother
            exact hitems
        | cons item rest =>
            refine .inr ⟨k, item, rest, rfl, hitems, ?_⟩
            cases rest <;> rfl
      · rw [if_pos (by simpa using hmoment)]
        refine .inl ⟨rfl, fun other hother hpresent => ?_⟩
        cases hother
        exact absurd hpresent.symm hmoment

theorem Engine.Regular.takeClause {e : Engine η σ} (he : e.Regular) {chain : Nat}
    (hthere : chain < e.chains.size) (id : TimerId) (rest : List TimedItem) :
    (e.takeClause chain id rest).Regular := by
  have hsize : e.chains.size ≤ (e.chains.modify chain fun k => { k with items := rest }).size :=
    Nat.le_of_eq (Array.size_modify ..).symm
  have hleft := he.addChains hsize
  cases rest with
  | nil => exact { hleft with }
  | cons next rest =>
      have honce (p : Nat) (hp : none = some p) : 0 < p := nomatch hp
      have hmade (other : Nat) (h : (.timedStep chain : TimerAction η) = .timedStep other) :
          other < (e.chains.modify chain fun k => { k with items := next :: rest }).size := by
        cases h
        exact Nat.lt_of_lt_of_le hthere hsize
      exact { hleft.addTimer next.delay (.timedStep chain) honce hmade with }

/-- A clause that is taken leaves what is pending in order. -/
theorem Engine.Regular.takeItem {e : Engine η σ} (he : e.Regular) (chain : Nat) (id : TimerId) :
    (Builtin.takeItem chain id e).2.Regular ∧
      e.clock.nextId ≤ (Builtin.takeItem chain id e).2.clock.nextId := by
  rcases takeItem_cases chain id e with ⟨htake, -⟩ | ⟨k, item, rest, hthere, -, htake⟩
  · rw [htake]
    exact ⟨{ he with }, Nat.le_refl _⟩
  · rw [htake]
    refine ⟨he.takeClause (Array.getElem?_eq_some_iff.mp hthere).1 id rest, ?_⟩
    cases rest with
    | nil => exact Nat.le_refl _
    | cons next rest => exact Nat.le_succ _

/-- The time at which the first of some clauses is due, if the chain begins to wait for it now. -/
def dueAfter (now : Nat) : List TimedItem → Nat
  | [] => now
  | next :: _ => Clock.later now next.delay

namespace Engine.Waits

variable {clears : TimerId → Prop} {chain due : Nat} {k : TimedChain} {body : Callback η}
variable {e : Engine η σ}

/-- A chain that no timer is set for waits once one is set for the first of its clauses. -/
theorem arm (hregular : e.Regular) (hthere : e.chains[chain]? = some k)
    (hpresent : k.moment = ⟨e.state.passage, e.state.turns⟩)
    (hhandler : (e.handlers.map ShadowHandler.parts)[k.handler.index]? = some (none, some body, none))
    (hnone : e.stepTimers chain = []) (hknown : ∀ id, clears id → id < e.clock.nextId)
    {next : TimedItem} {rest : List TimedItem} (hitems : k.items = next :: rest) :
    Waits clears chain k body (Clock.later e.clock.now next.delay)
      { e with clock := (e.clock.setTimeout next.delay (.timedStep chain)).2 } := by
  have hlt : chain < e.chains.size := (Array.getElem?_eq_some_iff.mp hthere).1
  have honce (p : Nat) (hp : none = some p) : 0 < p := nomatch hp
  have hmade (other : Nat) (h : (.timedStep chain : TimerAction η) = .timedStep other) :
      other < e.chains.size := by
    cases h
    exact hlt
  -- the only timer of the chain is the new one
  have htimers :
      stepTimers { e with clock := (e.clock.setTimeout next.delay (.timedStep chain)).2 } chain =
        [⟨e.clock.nextId, Clock.later e.clock.now next.delay, none, .timedStep chain⟩] := by
    rw [stepTimers] at hnone ⊢
    rw [Clock.setTimeout, Clock.addTimer, List.filter_append, hnone]
    simp [TimerAction.isStepOf]
  refine ⟨hregular.addTimer next.delay (.timedStep chain) honce hmade, hthere, hpresent, hhandler,
    ⟨e.clock.nextId, ?_⟩, fun id hid => Nat.lt_succ_of_lt (hknown id hid), fun timer htimer => ?_⟩
  · rw [htimers, hitems]
    rfl
  · rw [htimers] at htimer
    obtain rfl := List.mem_singleton.mp htimer
    exact ⟨fun htick => Nat.lt_irrefl _ (hregular.ticking _ htick),
      fun hid => Nat.lt_irrefl _ (hknown _ hid)⟩

/-- A chain whose timer has fired waits for the next of its clauses once the first has been taken. -/
theorem takeClause (hregular : e.Regular) (hthere : e.chains[chain]? = some k)
    (hpresent : k.moment = ⟨e.state.passage, e.state.turns⟩)
    (hhandler : (e.handlers.map ShadowHandler.parts)[k.handler.index]? = some (none, some body, none))
    (hnone : e.stepTimers chain = []) (hknown : ∀ id, clears id → id < e.clock.nextId)
    (id : TimerId) (rest : List TimedItem) :
    (e.takeClause chain id rest).Waits clears chain { k with items := rest } body
      (dueAfter e.clock.now rest) := by
  let left : Engine η σ := { e with
    timedTimers := e.timedTimers.filter (· ≠ id)
    chains := e.chains.modify chain fun k => { k with items := rest } }
  have hleft : left.Regular := { hregular.addChains (Nat.le_of_eq (Array.size_modify ..).symm) with }
  have hchain : left.chains[chain]? = some { k with items := rest } := by
    rw [Array.getElem?_modify, if_pos rfl, hthere]
    rfl
  cases rest with
  | nil =>
      refine ⟨hleft, hchain, hpresent, hhandler, ⟨id, hnone⟩, hknown, fun timer htimer => ?_⟩
      change timer ∈ e.stepTimers chain at htimer
      rw [hnone] at htimer
      cases htimer
  | cons next rest =>
      have hlt : chain < e.chains.size := (Array.getElem?_eq_some_iff.mp hthere).1
      have harmed := arm hleft hchain hpresent hhandler hnone hknown rfl
      exact harmed.keep (hregular.takeClause hlt id (next :: rest)) rfl rfl (fun _ _ h => h) rfl
        (Nat.le_refl _) fun _ => .inl

/-- A clause of another chain is taken. -/
theorem takeOther (h : e.Waits clears chain k body due) {other : Nat} (hne : other ≠ chain)
    (hthere : other < e.chains.size) (id : TimerId) (rest : List TimedItem) :
    (e.takeClause other id rest).Waits clears chain k body due := by
  have hregular := h.regular.takeClause hthere id rest
  have hkept :
      (e.chains.modify other fun k => { k with items := rest })[chain]? = e.chains[chain]? := by
    rw [Array.getElem?_modify, if_neg hne]
  cases rest with
  | nil =>
      exact h.keep hregular hkept rfl (fun _ _ h => h) rfl (Nat.le_refl _) fun _ => .inl
  | cons next rest =>
      have hother : (.timedStep other : TimerAction η).isStepOf chain = false :=
        beq_eq_false_iff_ne.mpr hne
      exact h.keep hregular hkept rfl (fun _ _ h => h) (e.stepTimers_addTimer _ _ hother)
        (Nat.le_succ _) fun _ => .inl

/-- A timer of another kind fires. -/
theorem take (h : e.Waits clears chain k body due) {limit : Nat} {timer : Timer (TimerAction η)}
    {clock : Clock (TimerAction η)} (hdue : e.clock.takeDue limit = some (timer, clock))
    (hother : timer.action.isStepOf chain = false) :
    Waits clears chain k body due { e with clock := clock } := by
  have hclock := h.regular.clock
  have hregular := h.regular.lasts (hclock.takeDue hdue) (.takeDue hdue)
  exact h.keepTimers hregular (hclock.filter_takeDue hdue hother)
    (Nat.le_of_eq (hclock.now_takeDue hdue).2.1.symm)

/-- Other timers may be cancelled. -/
theorem allow (h : e.Waits clears chain k body due) {clears' : TimerId → Prop}
    (hknown : ∀ id, clears' id → id < e.clock.nextId)
    (hown : ∀ timer ∈ e.stepTimers chain, ¬ clears' timer.id) :
    e.Waits clears' chain k body due :=
  { h with known := hknown, own := fun timer htimer => ⟨(h.own timer htimer).1, hown timer htimer⟩ }

/-- The timer of the chain fires when the clause is due that it is set for. That clause is taken, and
the chain waits for the next one. -/
theorem takeOwn (h : e.Waits clears chain k body due) {limit : Nat} {timer : Timer (TimerAction η)}
    {clock : Clock (TimerAction η)} (hdue : e.clock.takeDue limit = some (timer, clock))
    (hown : timer.action.isStepOf chain = true) :
    ∃ item rest, k.items = item :: rest ∧ clock.now = due ∧
      Builtin.takeItem chain timer.id { e with clock := clock } =
        (.ok (some (k.handler, item)),
          Engine.takeClause { e with clock := clock } chain timer.id rest) ∧
      (Engine.takeClause { e with clock := clock } chain timer.id rest).Waits clears chain
        { k with items := rest } body (dueAfter due rest) := by
  have hclock := h.regular.clock
  obtain ⟨hnow, hnextId, hmem, -⟩ := hclock.now_takeDue hdue
  have hregular := h.regular.lasts (hclock.takeDue hdue) (.takeDue hdue)
  obtain ⟨id, htimers⟩ := h.timers
  have htimer : timer ∈ e.stepTimers chain := List.mem_filter.mpr ⟨hmem, hown⟩
  rw [htimers] at htimer
  cases hitems : k.items with
  | nil =>
      rw [hitems] at htimer
      cases htimer
  | cons item rest =>
      rw [hitems] at htimer htimers
      obtain rfl := List.mem_singleton.mp htimer
      -- nothing is set for the chain until the next clause is
      have hgone : clock.timers.filter (·.action.isStepOf chain) = [] := by
        rw [Clock.Sound.filter_takeDue_once hdue rfl]
        rw [Engine.stepTimers] at htimers
        rw [htimers]
        simp [awaited]
      have hlt : chain < e.chains.size := (Array.getElem?_eq_some_iff.mp h.there).1
      refine ⟨item, rest, rfl, hnow, ?take, ?waits⟩
      case take =>
        rcases takeItem_cases chain id { e with clock := clock } with
          ⟨-, hnone⟩ | ⟨other, item', rest', hother, hitems', htake⟩
        · rw [hnone k h.there h.present] at hitems
          cases hitems
        · cases h.there.symm.trans hother
          cases hitems.symm.trans hitems'
          exact htake
      case waits =>
        have hknown (id : TimerId) (hid : clears id) : id < clock.nextId :=
          hnextId.symm ▸ h.known id hid
        rw [show due = clock.now from hnow.symm]
        exact takeClause hregular h.there h.present h.handler hgone hknown id rest

end Engine.Waits

/-! ### Firings -/

/-- What a timer runs may cancel the timer itself, and the interval that is ticking. -/
def Engine.MayCancel (e : Engine η σ) (timer : Timer (TimerAction η)) (id : TimerId) : Prop :=
  id = timer.id ∨ e.repeatTimer = some id

/-- A timer is taken to fire. What may be cancelled then has been set. -/
theorem Engine.Regular.take {e : Engine η σ} (he : e.Regular) {limit : Nat}
    {timer : Timer (TimerAction η)} {clock : Clock (TimerAction η)}
    (hdue : e.clock.takeDue limit = some (timer, clock)) :
    Regular { e with clock := clock } ∧ ∀ id, e.MayCancel timer id → id < clock.nextId := by
  obtain ⟨-, hnextId, hmem, -⟩ := he.clock.now_takeDue hdue
  refine ⟨he.lasts (he.clock.takeDue hdue) (.takeDue hdue), fun id hid => ?_⟩
  rw [hnextId]
  rcases hid with rfl | hticking
  · exact he.clock.known timer hmem
  · exact he.ticking id hticking

section Firings

variable {clears : TimerId → Prop} {ends : Prop} {I : Engine Empty σ → Prop}

/-- An interval that fires is cancelled or ticks. -/
theorem runRepeatTick_preserves
    (hsteps : ∀ e e', TimerStep (.idle clears ends) e e' → I e → I e') {p : Perform Empty σ}
    (hp : ∀ t, (Terms.idle (σ := σ) clears ends).Asks t → (p t).Preserves I) (handler : HandlerId)
    (moment : Moment) {id : TimerId} (hid : clears id) {e : Engine Empty σ}
    (hticking : ∀ id, e.repeatTimer = some id → clears id) (he : I e) :
    (Builtin.runRepeatTick p handler moment id).AlikeAt I (Builtin.runRepeatTick p handler moment id)
      e := by
  have hdrop : Steady (.idle clears ends) fun _ : Perform Empty σ =>
      (do Run.changeClock fun c => c.clearTimer id; Builtin.forgetRepeat id : Run Empty σ Unit) :=
    Builtin.steady_dropRepeat hid
  have htask : Steady (.idle clears ends) fun p : Perform Empty σ => p (.invoke handler .nothing) :=
    .task trivial
  have htick := Builtin.steady_ticking hid hticking htask
  rw [Run.AlikeAt, Builtin.runRepeatTick, Run.isStale_bind_apply]
  split
  · exact hdrop.keeps hsteps hp e he
  · exact htick.keeps hsteps hp e he

/-- What a timer runs keeps what its parts keep. It may cancel the timer, and end the interval that is
ticking. -/
theorem runTimer_preserves (hsteps : ∀ e e', TimerStep (.idle clears ends) e e' → I e → I e')
    {p : Perform Empty σ}
    (hp : ∀ t, (Terms.idle (σ := σ) clears ends).Asks t → (p t).Preserves I)
    (hclause : ∀ handler item, (p (.invoke handler (.item item))).Preserves I)
    {timer : Timer (TimerAction Empty)} {e : Engine Empty σ} (hid : clears timer.id)
    (hticking : ∀ id, e.repeatTimer = some id → clears id)
    (htake : ∀ chain, timer.action = .timedStep chain → I (Builtin.takeItem chain timer.id e).2)
    (he : I e) :
    (runTimer Host.idle p timer).AlikeAt I (runTimer Host.idle p timer) e := by
  cases haction : timer.action with
  | repeatTick handler moment =>
      simp only [runTimer, haction]
      exact runRepeatTick_preserves hsteps hp handler moment hid hticking he
  | timedStep chain =>
      simp only [runTimer, haction]
      refine .bind ⟨rfl, fun _ => htake chain haction⟩ fun found => ?_
      cases found with
      | none => exact .own fun _ he => he
      | some taken => exact hclause _ _
  | _ =>
      have hsteady : Steady (.idle clears ends) fun p : Perform Empty σ =>
          runTimer Host.idle p timer :=
        steady_runTimer hid (by simp [haction]) (by simp [haction])
      exact hsteady.keeps hsteps hp e he

/-- Whatever can happen to an engine, the property stays true. -/
structure Engine.Stays (I : Engine Empty σ → Prop) : Prop where
  step {terms : Terms Empty σ} {e e' : Engine Empty σ} : TimerStep terms e e' → I e → I e'
  taken {e : Engine Empty σ} (event : Event) :
    I e → I { e with listeners := (Listener.take e.listeners event).2 }
  clause {e : Engine Empty σ} (chain : Nat) (id : TimerId) :
    I e → I (Builtin.takeItem chain id e).2
  lasts {e : Engine Empty σ} {clock : Clock (TimerAction Empty)} :
    e.clock.Lasts clock → I e → I { e with clock := clock }
  report {e : Engine Empty σ} (f : Failure) : I e → I (Run.report f e).2

namespace Engine.Stays

theorem performs (hI : Engine.Stays I) (n : Nat) {t : Task} (ht : ∀ ms, t ≠ .advance ms) :
    (perform (Host.idle : Host Empty σ) n t).Preserves I := by
  have hsteps (e e' : Engine Empty σ) (h : TimerStep (.idle (fun _ => True) True) e e') (he : I e) :
      I e' := hI.step h he
  exact perform_preserves hsteps (fun event _ => hI.taken event) n ht

/-- It stays true when a task is done. -/
theorem task (hI : Engine.Stays I) {n : Nat} {t : Task} (ht : ∀ ms, t ≠ .advance ms)
    {e e' : Engine Empty σ} {r : Except Halt Unit} (hrun : perform Host.idle n t e = (r, e'))
    (hr : Returned r) (he : I e) : I e' := by
  have hkept := hI.performs n ht e he
  rw [Run.AlikeAt, hrun] at hkept
  exact hkept.2 hr

/-- It stays true when a timer fires. -/
theorem fire (hI : Engine.Stays I) {n limit : Nat} {timer : Timer (TimerAction Empty)}
    {clock : Clock (TimerAction Empty)} {e e' : Engine Empty σ}
    (hdue : e.clock.takeDue limit = some (timer, clock))
    (hrun : Run.reporting (runTimer Host.idle (perform Host.idle n) timer) { e with clock := clock } =
      (.ok (), e')) (he : I e) : I e' := by
  have hsteps (e e' : Engine Empty σ) (h : TimerStep (.idle (fun _ => True) True) e e') (he : I e) :
      I e' := hI.step h he
  have htaken := hI.lasts (.takeDue hdue) he
  have hkept := Run.AlikeAt.reporting (fun f _ => hI.report f)
    (runTimer_preserves hsteps (fun t ht => hI.performs n ht.ne_advance)
      (fun handler item => hI.performs n fun _ hadvance => by cases hadvance) trivial
      (fun _ _ => trivial) (fun chain _ => hI.clause chain timer.id htaken) htaken)
  rw [Run.AlikeAt, hrun] at hkept
  exact hkept.2 (returned_ok ())

end Engine.Stays

/-- No turn is taken back. -/
theorem Engine.Past.stays (turn : Nat) : Engine.Stays (σ := σ) (Engine.Past turn) where
  step h he := h.past he
  taken _ he := he
  clause {e} chain id he := by
    rcases takeItem_cases chain id e with ⟨htake, -⟩ | ⟨k, item, rest, -, -, htake⟩
    · rw [htake]
      exact he
    · rw [htake]
      cases rest <;> exact he
  lasts _ he := he
  report _ he := he

variable {chain due : Nat} {k : TimedChain} {body : Callback Empty}

/-- A clause of another chain that is taken does not concern the chain. -/
theorem takeItem_waits {other : Nat} (hne : other ≠ chain) (id : TimerId) {e : Engine Empty σ}
    (he : e.Waits clears chain k body due) :
    (Builtin.takeItem other id e).2.Waits clears chain k body due := by
  rcases takeItem_cases other id e with ⟨htake, -⟩ | ⟨c, item, rest, hthere, -, htake⟩
  · rw [htake]
    exact he.keep { he.regular with } rfl rfl (fun _ _ h => h) rfl (Nat.le_refl _) fun _ => .inl
  · rw [htake]
    exact he.takeOther hne (Array.getElem?_eq_some_iff.mp hthere).1 id rest

/-- A timer fires. Whatever it runs, what lasts until the player moves on does so if the timer itself
may be cancelled, and the interval that is ticking. -/
theorem LastsUntil.fire {turn n : Nat} {I : Engine Empty σ → Prop} {e e' : Engine Empty σ}
    {timer : Timer (TimerAction Empty)} (h : LastsUntil (e.MayCancel timer) turn I)
    (hreport : ∀ f e, I e → I (Run.report f e).2)
    (htake : ∀ chain, timer.action = .timedStep chain →
      (Builtin.takeItem chain timer.id e).2.OrPast turn I)
    (he : I e)
    (hrun : Run.reporting (runTimer Host.idle (StoryEngine.perform Host.idle n) timer) e =
      (.ok (), e')) : e'.OrPast turn I := by
  have hnoted (f : Failure) (e : Engine Empty σ) (he : e.OrPast turn I) :
      (Run.report f e).2.OrPast turn I := he.imp id (hreport f e)
  have hkept := Run.AlikeAt.reporting hnoted
    (runTimer_preserves (fun _ _ hstep => h.stepOrPast hstep)
      (fun t ht => h.perform n ht.ne_advance fun title heq => by subst heq; exact ht)
      (fun handler item => h.perform n nofun nofun) (.inl rfl) (fun _ => .inr) htake (.inr he))
  rw [Run.AlikeAt, hrun] at hkept
  exact hkept.2 (returned_ok ())

/-- A timer of another kind fires. Whatever it runs, the chain goes on waiting unless the player moves
on. -/
theorem Engine.Waits.fireOther {e e' : Engine Empty σ}
    (he : e.Waits (fun _ => False) chain k body due) {limit n : Nat}
    {timer : Timer (TimerAction Empty)} {clock : Clock (TimerAction Empty)}
    (hdue : e.clock.takeDue limit = some (timer, clock))
    (hother : timer.action.isStepOf chain = false)
    (hrun : Run.reporting (runTimer Host.idle (perform Host.idle n) timer) { e with clock := clock } =
      (.ok (), e')) : e'.WaitsOrPast (fun _ => False) chain k body due := by
  have hclock := he.regular.clock
  obtain ⟨-, -, hmem, -⟩ := hclock.now_takeDue hdue
  have htaken : Engine.Waits (e.MayCancel timer) chain k body due { e with clock := clock } := by
    refine (he.take hdue hother).allow (he.regular.take hdue).2 fun own hown => ?_
    have hsame : Engine.stepTimers { e with clock := clock } chain = e.stepTimers chain :=
      hclock.filter_takeDue hdue hother
    have hstep : own ∈ e.stepTimers chain := hsame ▸ hown
    obtain ⟨howned, haction⟩ := List.mem_filter.mp hstep
    rintro (hid | hticking)
    · rw [hclock.eq_of_id howned hmem hid, hother] at haction
      cases haction
    · exact (he.own own hstep).1 hticking
  have htake (other : Nat) (haction : timer.action = .timedStep other) :
      (Builtin.takeItem other timer.id { e with clock := clock }).2.WaitsOrPast (e.MayCancel timer)
        chain k body due := by
    rw [haction] at hother
    exact .inr (takeItem_waits (beq_eq_false_iff_ne.mp hother) timer.id htaken)
  have hlasts : LastsUntil (Engine.MayCancel { e with clock := clock } timer) k.moment.turn
      (Engine.Waits (e.MayCancel timer) chain k body due : Engine Empty σ → Prop) :=
    Engine.Waits.lastsUntil
  refine (hlasts.fire (fun f e he => he.congr rfl) htake htaken hrun).imp id fun hwaits => ?_
  exact hwaits.allow (fun _ => False.elim) fun _ _ => id

/-! ### The clause that is due -/

/-- Put what a clause has been rendered to behind what the wrapper holds. -/
def Builtin.placeClause (wrapper : ElementId) (transition : Bool) (item : TimedItem)
    (fragment : OutputId) : Run η σ Unit := do
  let target ← itemTarget wrapper item
  if transition then
    let insert ← appendTransition target "macro-timed-insert macro-timed-in" "macro-timed-in"
    Run.changeTree fun t => t.appendAll (t.content insert) fragment
  else Run.changeTree fun t => t.appendAll target fragment

theorem Builtin.sure_placeClause (wrapper : ElementId) (transition : Bool) (item : TimedItem)
    (fragment : OutputId) : Sure (placeClause wrapper transition item fragment : Run η σ Unit) := by
  have htarget : Sure (itemTarget wrapper item : Run η σ OutputId) := by
    refine .bind (.ofOk fun e => ⟨_, _, rfl⟩) fun content => .bind .get fun e => ?_
    split <;> exact .ofOk fun e => ⟨_, _, rfl⟩
  refine .bind htarget fun target => ?_
  split
  · exact .bind (.ofOk fun e => ⟨_, _, rfl⟩) fun insert => .changeTree _
  · exact .changeTree _

/-- The timer fires for the chain in the first engine, and the engine becomes the second: the clause is
taken, rendered to a new output, in its handler's context and with the values that its handler
remembers, and what it has been rendered to is put behind what the wrapper holds. -/
inductive Engine.ShowsClause (chain : Nat) (id : TimerId) (wrapper : ElementId) (transition : Bool)
    (item : TimedItem) : Engine Empty σ → Engine Empty σ → Prop
  | intro {taken scheduled opened rendered placed : Engine Empty σ} {handler : HandlerId}
      {h : ShadowHandler Empty} {fragment : OutputId} {n : Nat}
      (htake : Builtin.takeItem chain id taken = (.ok (some (handler, item)), scheduled))
      (hhandler : scheduled.handlers[handler.index]? = some h)
      (hopen : Run.withTree Tree.newOutput (scheduled.enterShadow h) = (.ok fragment, opened))
      (hrender : perform Host.idle n (.render fragment item.contents) opened = (.ok (), rendered))
      (hplace : Builtin.placeClause wrapper transition item fragment rendered = (.ok (), placed)) :
      ShowsClause chain id wrapper transition item taken
        (placed.leaveShadow handler scheduled.state.overlays.length scheduled.current)

/-- Where a computation does not fail, nothing is noted. -/
theorem Run.eq_ok_of_reporting {x : Run η σ Unit} {e e' : Engine η σ}
    (hsure : ∀ f e', x e ≠ (.error (.failure f), e')) (h : Run.reporting x e = (.ok (), e')) :
    x e = (.ok (), e') := by
  rcases hx : x e with ⟨(failure | _) | ⟨⟨⟩⟩, e₁⟩
  · exact absurd hx (hsure failure e₁)
  · rw [Run.reporting, Run.bind_of_error (Run.attempt_of_halt hx)] at h
    cases h
  · rw [Run.reporting_of_ok hx] at h
    exact h

/-- The handler of the chain renders the clause that has been taken. Errors in the clause are displayed
where it is rendered, so nothing keeps it from its place. -/
theorem Engine.ShowsClause.ofTakeItem {taken scheduled e' : Engine Empty σ} {id : TimerId}
    {wrapper : ElementId} {transition : Bool} {item : TimedItem} {handler : HandlerId} {n : Nat}
    (htake : Builtin.takeItem chain id taken = (.ok (some (handler, item)), scheduled))
    (hhandler : (scheduled.handlers.map ShadowHandler.parts)[handler.index]? =
      some (none, some (.timedBody wrapper transition), none))
    (hrun : Run.reporting (Builtin.runTimedStep (perform Host.idle n) chain id) taken = (.ok (), e')) :
    ShowsClause chain id wrapper transition item taken e' := by
  rw [Array.getElem?_map] at hhandler
  obtain ⟨h, hh, hparts⟩ := Option.map_eq_some_iff.mp hhandler
  simp only [ShadowHandler.parts, Prod.mk.injEq] at hparts
  obtain ⟨hstart, hcallback, hdone⟩ := hparts
  have hstep : Builtin.runTimedStep (perform Host.idle n) chain id taken =
      perform Host.idle n (.invoke handler (.item item)) scheduled := Run.bind_of_ok htake
  cases n with
  | zero =>
      have hhalt := hstep.trans (show _ = (Except.error Halt.outOfFuel, scheduled) from rfl)
      rw [Run.reporting, Run.bind_of_error (Run.attempt_of_halt hhalt)] at hrun
      cases hrun
  | succ n =>
      let body : Run Empty σ Unit := Builtin.runTimedBody (perform Host.idle n) wrapper transition item
      let leave (e : Engine Empty σ) : Engine Empty σ :=
        e.leaveShadow handler scheduled.state.overlays.length scheduled.current
      have hinvoke : Builtin.runTimedStep (perform Host.idle (n + 1)) chain id taken =
          Run.andFinally body leave (scheduled.enterShadow h) := hstep.trans
        (invokeHandler_callback (runCallback Host.idle (perform Host.idle n)) hh hstart hcallback hdone
          (.item item))
      have hsure : Sure body :=
        .bind (.ofOk fun e => ⟨_, _, rfl⟩) fun fragment =>
          .bind (sure_perform_render Host.idle n fragment item.contents) fun _ =>
            Builtin.sure_placeClause wrapper transition item fragment
      have hran := Run.eq_ok_of_reporting
        (fun f e₁ hfail => hsure.andFinally leave _ f e₁ (hinvoke.symm.trans hfail)) hrun
      obtain ⟨placed, hbody, rfl⟩ :=
        Run.andFinally_returned (hinvoke.symm.trans hran) (returned_ok ())
      obtain ⟨fragment, opened, hopen, hrest⟩ := Run.bind_eq_ok hbody
      obtain ⟨⟨⟩, rendered, hrender, hplace⟩ := Run.bind_eq_ok hrest
      exact .intro htake hh hopen hrender hplace

/-- The timer of the chain fires: the first clause that is left is rendered, at the time at which it is
due, and the chain waits for the next one, whatever comes of the render, unless the player moves on
meanwhile. -/
theorem Engine.Waits.fireOwn {e e' : Engine Empty σ} {wrapper : ElementId} {transition : Bool}
    (he : e.Waits (fun _ => False) chain k (.timedBody wrapper transition) due) {limit n : Nat}
    {timer : Timer (TimerAction Empty)} {clock : Clock (TimerAction Empty)}
    (hdue : e.clock.takeDue limit = some (timer, clock))
    (hown : timer.action.isStepOf chain = true)
    (hrun : Run.reporting (runTimer Host.idle (perform Host.idle n) timer) { e with clock := clock } =
      (.ok (), e')) :
    ∃ item rest, k.items = item :: rest ∧ clock.now = due ∧
      ShowsClause chain timer.id wrapper transition item { e with clock := clock } e' ∧
      e'.WaitsOrPast (fun _ => False) chain { k with items := rest } (.timedBody wrapper transition)
        (dueAfter due rest) := by
  obtain ⟨item, rest, hitems, hnow, htake, hwaits⟩ := he.takeOwn hdue hown
  have hstep : (runTimer Host.idle (perform Host.idle n) timer : Run Empty σ Unit) =
      Builtin.runTimedStep (perform Host.idle n) chain timer.id := by
    rw [runTimer, TimerAction.isStepOf_iff.mp hown]
  rw [hstep] at hrun
  refine ⟨item, rest, hitems, hnow, .ofTakeItem htake hwaits.handler hrun, ?_⟩
  have hreport (f : Failure) (e : Engine Empty σ)
      (he : e.WaitsOrPast (fun _ => False) chain { k with items := rest }
        (.timedBody wrapper transition) (dueAfter due rest)) :
      (Run.report f e).2.WaitsOrPast (fun _ => False) chain { k with items := rest }
        (.timedBody wrapper transition) (dueAfter due rest) :=
    he.imp id fun hwaits => hwaits.congr rfl
  have hrest : (Builtin.runTimedStep (perform Host.idle n) chain timer.id).AlikeAt
      (Engine.WaitsOrPast (fun _ => False) chain { k with items := rest }
        (.timedBody wrapper transition) (dueAfter due rest))
      (Builtin.runTimedStep (perform Host.idle n) chain timer.id) { e with clock := clock } := by
    refine .bind ⟨rfl, fun _ => .inr (htake ▸ hwaits)⟩ fun found => ?_
    cases found with
    | none => exact .own fun _ he => he
    | some taken => exact perform_waits n nofun nofun
  have hkept := hrest.reporting hreport
  rw [Run.AlikeAt, hrun] at hkept
  exact hkept.2 (returned_ok ())

end Firings

end StoryEngine
