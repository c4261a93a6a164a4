import StoryEngine.Proofs.Display.Present
import StoryEngine.Proofs.Engine.Alike
import StoryEngine.Proofs.Engine.Lasting
/-!
# StoryEngine.Proofs.Engine.Following

What was put off in an earlier turn does nothing any more. A timer that was set for something of an
earlier turn finds it stale, whatever it is, and an interval is cancelled by its next firing
(`runTimer_past`). The key that finishes a text of an earlier turn does so where nobody sees it
(`skipTyping_past`).

Work in an engine in which nothing of an earlier turn is left (`Engine.Follows`). Such work only
invokes handlers that are recent: the texts in the queue have them, and the chains and intervals
that are not stale. Two ways of performing tasks that agree on all tasks but the invocations of
older handlers thus make no difference to it (`Engine.Follows.kept`).
-/

namespace StoryEngine

variable {σ : Type}

/-- What there is in an engine before a new turn begins. -/
def Engine.mark (e : Engine Empty σ) : Mark :=
  ⟨e.tree.extent, e.handlers.size, e.state.turns + 1⟩

/-- The variables and the way through the story are the same, and the passages show the same. -/
structure Engine.Undisturbed (e e' : Engine Empty σ) : Prop where
  state : e'.state = e.state
  display : e'.display = e.display
  shown : e.tree.ShowsSame e'.tree e.display

theorem Engine.Undisturbed.of_eq {e e' : Engine Empty σ} (hstate : e'.state = e.state)
    (hdisplay : e'.display = e.display) (htree : e'.tree = e.tree) : e.Undisturbed e' := by
  refine ⟨hstate, hdisplay, ?_⟩
  rw [htree]
  exact .refl _ _

theorem Engine.Undisturbed.of_samePresent {mark : Mark} {e e' : Engine Empty σ}
    (he : e.Parted mark) (hstate : e'.state = e.state) (hdisplay : e'.display = e.display)
    (h : e.tree.SamePresent mark.extent e.display e'.tree) : e.Undisturbed e' :=
  ⟨hstate, hdisplay, he.tree.showsSame h (.inr rfl)⟩

/-- What a timer of an earlier turn does when it fires: it does not disturb anything, sets no other
timer, and does not fire again. -/
structure Engine.Expires (e : Engine Empty σ) (timer : Timer (TimerAction Empty))
    (e' : Engine Empty σ) : Prop where
  undisturbed : e.Undisturbed e'
  clock : e.clock.Lasts e'.clock
  cleared : timer.action.IsRepeated → ∀ other ∈ e'.clock.timers, other.id ≠ timer.id

theorem Clock.ne_of_mem_clearTimer {κ : Type} {c : Clock κ} {id : TimerId} {timer : Timer κ}
    (h : timer ∈ (c.clearTimer id).timers) : timer.id ≠ id := by
  have hkept := (List.mem_filter.mp h).2
  simpa using hkept

section Past

variable {m e : Engine Empty σ}

/-- The moment of an earlier turn is past. -/
theorem Engine.Parted.moment_ne (he : e.Parted m.mark) {moment : Moment}
    (h : moment.turn ≤ m.state.turns) : e.moment ≠ moment := by
  intro heq
  have hlater : m.state.turns + 1 ≤ e.state.turns := he.turn
  rw [← heq] at h
  exact Nat.not_succ_le_self _ (Nat.le_trans hlater h)

theorem Engine.Parted.isStale_bind_apply {α : Type} (he : e.Parted m.mark) {moment : Moment}
    (h : moment.turn ≤ m.state.turns) (f : Bool → Run Empty σ α) :
    (Run.isStale moment >>= f) e = f true e := by
  have hstale : decide (e.moment ≠ moment) = true := decide_eq_true (he.moment_ne h)
  show f (decide (e.moment ≠ moment)) e = f true e
  rw [hstale]

/-- A text of an earlier turn is there, and it is stale. -/
theorem Engine.Lasts.typing (h : m.Lasts e) (hm : m.Dated) {typing : Nat}
    (htyping : typing < m.typings.size) : ∃ t, e.typings[typing]? = some t ∧
      t.moment.turn ≤ m.state.turns ∧ t.typer.wrapper.index < m.tree.elements.size ∧
        m.IsApart t.typer.full := by
  obtain ⟨t', ht', horigin⟩ := h.typings typing _ (Array.getElem?_eq_getElem htyping)
  obtain ⟨hturn, hwrapper, hfull⟩ := hm.typings _ (Array.getElem_mem htyping)
  simp only [Typing.origin, Prod.mk.injEq] at horigin
  rw [← horigin.1] at hturn
  rw [← horigin.2.1] at hwrapper
  rw [← horigin.2.2] at hfull
  exact ⟨t', ht', hturn, hwrapper, hfull⟩

/-- A pending timer with an identity of an earlier turn is set for something of that turn. -/
theorem Engine.Lasts.knows (h : m.Lasts e) (hm : m.Dated) {timer : Timer (TimerAction Empty)}
    (htimer : timer ∈ e.clock.timers) (hid : timer.id < m.clock.nextId) :
    m.Knows timer.action ∧ (timer.period = none ∨ timer.action.IsRepeated) := by
  obtain ⟨old, hold, -, hperiod, haction⟩ := h.timers timer htimer hid
  rw [hperiod, haction]
  exact (hm.timers old hold).2

theorem runTick_past (he : e.Parted m.mark) {handler : HandlerId} {moment : Moment}
    (h : moment.turn ≤ m.state.turns) (id : TimerId) (p : Perform Empty σ) :
    Builtin.runRepeatTick p handler moment id e = (.ok (), { e with
      clock := e.clock.clearTimer id
      repeatTimers := e.repeatTimers.filter (· ≠ id) }) := by
  rw [Builtin.runRepeatTick, he.isStale_bind_apply h]
  rfl

theorem runStep_past (hm : m.Dated) (h : m.Lasts e) (he : e.Parted m.mark) {chain : Nat}
    (hchain : chain < m.chains.size) (id : TimerId) (p : Perform Empty σ) :
    Builtin.runTimedStep p chain id e = (.ok (), { e with
      timedTimers := e.timedTimers.filter (· ≠ id) }) := by
  obtain ⟨k, hk, hmoment⟩ := h.chains chain _ (Array.getElem?_eq_getElem hchain)
  have hturn : k.moment.turn ≤ m.state.turns := by
    rw [hmoment]
    exact hm.chains _ (Array.getElem_mem hchain)
  have hparted : Engine.Parted m.mark { e with timedTimers := e.timedTimers.filter (· ≠ id) } :=
    he.congr rfl
  have htake : Builtin.takeItem chain id e = (.ok none, { e with
      timedTimers := e.timedTimers.filter (· ≠ id) }) := by
    rw [Builtin.takeItem, Run.modify_bind_apply, Run.get_bind_apply]
    dsimp only
    rw [hk]
    dsimp only
    rw [hparted.isStale_bind_apply hturn]
    rfl
  rw [Builtin.runTimedStep, Run.bind_of_ok htake]
  rfl

theorem beginTyping_past (hm : m.Dated) (h : m.Lasts e) (he : e.Parted m.mark) {typing : Nat}
    (htyping : typing < m.typings.size) (p : Perform Empty σ) :
    Builtin.beginTyping p typing e = (.ok (), { e with
      typings := e.typings.modify typing fun t => { t with isStopped := true } }) := by
  obtain ⟨t, ht, hturn, -⟩ := h.typing hm htyping
  rw [Builtin.beginTyping, Run.get_bind_apply, ht]
  dsimp only
  rw [he.isStale_bind_apply hturn]
  rfl

theorem typeLetter_past (hm : m.Dated) (h : m.Lasts e) (he : e.Parted m.mark) {typing : Nat}
    (htyping : typing < m.typings.size) (id : TimerId) : ∃ typings, ∀ p : Perform Empty σ,
      Builtin.typeLetter p typing id e =
        (.ok (), { e with clock := e.clock.clearTimer id, typings := typings }) := by
  obtain ⟨t, ht, hturn, -⟩ := h.typing hm htyping
  cases hstopped : t.isStopped with
  | true =>
      refine ⟨e.typings, fun p => ?_⟩
      rw [Builtin.typeLetter, Run.get_bind_apply, ht]
      dsimp only
      rw [if_pos hstopped]
      rfl
  | false =>
      refine ⟨e.typings.modify typing fun t => { t with isStopped := true }, fun p => ?_⟩
      rw [Builtin.typeLetter, Run.get_bind_apply, ht]
      dsimp only
      rw [if_neg (by rw [hstopped]; exact Bool.false_ne_true), he.isStale_bind_apply hturn]
      rfl

/-- A timer that was set for something of an earlier turn expires, and asks for nothing. -/
theorem runTimer_past (hm : m.Dated) (h : m.Lasts e) (he : e.Parted m.mark)
    {timer : Timer (TimerAction Empty)} (hknows : m.Knows timer.action) : ∃ e',
      (∀ p, runTimer Host.idle p timer e = (.ok (), e')) ∧ e.Expires timer e' := by
  obtain ⟨id, due, period, action⟩ := timer
  cases action with
  | repeatTick handler moment =>
      refine ⟨_, fun p => runTick_past he hknows id p, .of_eq rfl rfl rfl, .clearTimer _ id, ?_⟩
      exact fun _ _ hother => Clock.ne_of_mem_clearTimer hother
  | timedStep chain =>
      exact ⟨_, fun p => runStep_past hm h he hknows id p, .of_eq rfl rfl rfl, .refl _, nofun⟩
  | settle element className =>
      have hold : element.index < m.mark.extent.elements := hknows
      refine ⟨_, fun p => rfl, .of_samePresent he rfl rfl ?_, .refl _, nofun⟩
      exact .modifyElement hold _
  | beginTyping typing =>
      exact ⟨_, fun p => beginTyping_past hm h he hknows p, .of_eq rfl rfl rfl, .refl _, nofun⟩
  | typeLetter typing =>
      obtain ⟨typings, hrun⟩ := typeLetter_past hm h he hknows id
      refine ⟨_, hrun, .of_eq rfl rfl rfl, .clearTimer _ id, ?_⟩
      exact fun _ _ hother => Clock.ne_of_mem_clearTimer hother
  | host procedure => exact procedure.elim

/-- The content of an element that was there in an earlier turn is not present. -/
theorem Engine.Parted.not_present_content (he : e.Parted m.mark) {id : ElementId}
    (h : id.index < m.tree.elements.size) :
    ¬ m.mark.extent.Present e.display (e.tree.content id) := by
  have hlt : id.index < e.tree.elements.size := Nat.lt_of_lt_of_le h he.tree.extent.elements
  have hel : e.tree.element? id = some e.tree.elements[id.index] := Array.getElem?_eq_getElem hlt
  unfold Tree.content
  rw [hel]
  intro hpresent
  exact Nat.not_lt.mpr ((he.tree.content id _ hel).mp hpresent) h

/-- The key that finishes a text of an earlier turn does not disturb anything. -/
theorem skipTyping_past (hm : m.Dated) (h : m.Lasts e) (he : e.Parted m.mark) {typing : Nat}
    (htyping : typing < m.typings.size) (key : String) :
    e.Undisturbed (Builtin.skipTyping typing key e).2 := by
  obtain ⟨t, ht, -, hwrapper, hfull, hapart⟩ := h.typing hm htyping
  rw [Builtin.skipTyping, Run.get_bind_apply, ht]
  dsimp only
  split
  · refine .of_samePresent he rfl rfl (.finish (he.not_present_content hwrapper) ?_)
    rintro (hrecent | heq)
    · exact Nat.not_lt.mpr hrecent hfull
    · exact hapart (heq.trans h.display)
  · exact .of_eq rfl rfl rfl

end Past

/-! ### Work in a later turn -/

/-- The engine is a later one than `m`, in a place where nothing of `m` is left. -/
structure Engine.Follows (m : Engine Empty σ) (place : Place) (e : Engine Empty σ) : Prop where
  standsIn : e.StandsIn place
  mark : place.mark = m.mark
  lasts : m.Lasts e

namespace Engine.Follows

variable {m e e' : Engine Empty σ} {place : Place}

theorem parted (he : m.Follows place e) : e.Parted m.mark :=
  he.mark ▸ he.standsIn.parted

/-- What the work of an engine leads to follows what the engine does. -/
theorem leads (he : m.Follows place e)
    (h : Carried.Leads (fun _ => Engine.Lasts) place e e') : m.Follows place e' :=
  ⟨h.1, he.mark, he.lasts.trans h.2⟩

/-- A handler whose turn has come is recent. -/
theorem recent_of_due (he : m.Follows place e) {id : HandlerId} (h : e.Due id) :
    m.handlers.size ≤ id.index := by
  cases h with
  | @text job rest hqueue =>
      refine he.parted.texts job ?_
      unfold Engine.texts
      rw [hqueue]
      exact List.mem_cons_self
  | @item index chain hchain hnow =>
      rcases he.parted.chains chain (Array.mem_of_getElem? hchain) with hpast | hrecent
      · rw [hnow] at hpast
        exact (Nat.not_le.mpr hpast he.parted.turn).elim
      · exact hrecent

/-- An engine that follows `m` does so while it works, and only invokes recent handlers. -/
theorem kept : Kept m.Follows (m.handlers.size ≤ ·.index) where
  standsIn := standsIn
  lasts he hstands hmark hlasts _ := ⟨hstands, hmark.trans he.mark, he.lasts.trans hlasts⟩
  due he hdue := he.recent_of_due hdue
  recent he hrecent := by
    rw [he.mark] at hrecent
    exact hrecent

theorem push (he : m.Follows place e) (overlay : Overlay) :
    m.Follows place { e with state := e.state.push overlay } :=
  ⟨he.standsIn.push overlay, he.mark, { he.lasts with }⟩

theorem enterShadow (he : m.Follows place e) (h : ShadowHandler Empty) :
    m.Follows (place.within h.context) (e.enterShadow h) :=
  ⟨he.standsIn.enterShadow h, he.mark, { he.lasts with }⟩

end Engine.Follows

end StoryEngine
