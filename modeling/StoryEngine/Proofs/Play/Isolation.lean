import StoryEngine.Proofs.Engine.Following
import StoryEngine.Proofs.Play.Firings
import StoryEngine.Proofs.Play.Played
/-!
# StoryEngine.Proofs.Play.Isolation

Turns are isolated from one another: when the host has arrived at a passage, nothing that was put
off before is done any more, whatever the host goes on to do (`stale_isolation`). The four kinds of
deferred work come to their ends in different ways. Elements cannot be clicked any more and the
queue of texts is dropped when the turn begins; intervals and chains are cancelled by listeners, and
any that is not finds itself stale when its timer fires; a text that is being typed out is stopped by
its own timer.

A watch over what is done on behalf of an earlier turn. `watched m alarm` performs tasks as an
engine does, but raises an alarm, which can be anything, where a handler is invoked that there was
in `m` already, and where a timer or listener for something of `m` changes a variable or what the
passages show. In an engine that follows `m` the alarm is never raised: watched or not, a call of
the host does the same (`HostCall.run_watched`).
-/

namespace StoryEngine

variable {σ : Type}

/-! ### The watch -/

/-- The listener is for something that was there, or only puts an end to something. The others
start the first text of the queue, and the handler of that is watched. -/
def Engine.Hears (m : Engine Empty σ) : ListenerAction Empty → Prop
  | .clearRepeats => True
  | .clearTimed => True
  | .dropTyping => True
  | .startTyping => False
  | .skipTyping typing => typing < m.typings.size
  | .nextTyping => False
  | .host procedure => procedure.elim

section Watch

open Classical

variable (m : Engine Empty σ) (alarm : Run Empty σ Unit)

/-- Do some work, or raise the alarm instead if it would disturb the engine. -/
noncomputable def watch (x : Run Empty σ Unit) : Run Empty σ Unit := fun e =>
  if e.Undisturbed (x e).2 then x e else alarm e

/-- Run a listener, under watch if it is for something of an earlier turn. -/
noncomputable def watchListener (p : Perform Empty σ) (detail : String)
    (action : ListenerAction Empty) : Run Empty σ Unit :=
  if m.Hears action then watch alarm (runListener Host.idle p detail action)
  else runListener Host.idle p detail action

/-- Run what a timer is set for, under watch if that belongs to an earlier turn. -/
noncomputable def watchTimer (p : Perform Empty σ) (timer : Timer (TimerAction Empty)) :
    Run Empty σ Unit :=
  if timer.id < m.clock.nextId ∨ m.Knows timer.action then watch alarm (runTimer Host.idle p timer)
  else runTimer Host.idle p timer

/-- Call listeners in order, like `callListeners`. -/
noncomputable def watchListeners (p : Perform Empty σ) (detail : String) :
    List (ListenerAction Empty) → Run Empty σ Unit
  | [] => pure ()
  | action :: rest => do
    Run.reporting (watchListener m alarm p detail action)
    watchListeners p detail rest

/-- Call those who listen to an event, like `trigger`. -/
noncomputable def watchTrigger (p : Perform Empty σ) (event : Event) (detail : String) :
    Run Empty σ Unit := do
  let actions := (Listener.take (← get).listeners event).1
  modify fun e => { e with listeners := (Listener.take e.listeners event).2 }
  watchListeners m alarm p detail actions

/-- Fire the timers that are due, like `fireDue`. -/
noncomputable def watchDue (p : Perform Empty σ) (limit : Nat) : Nat → Run Empty σ Unit
  | 0 => throw .outOfFuel
  | fuel + 1 => do
    match ← takeTimer limit with
    | none => pure ()
    | some timer => do
      Run.reporting (watchTimer m alarm p timer)
      watchDue p limit fuel

/-- Let time pass, like `advance`. -/
noncomputable def watchAdvance (p : Perform Empty σ) (fuel ms : Nat) : Run Empty σ Unit := do
  let limit := Clock.later (← get).clock.now ms
  watchDue m alarm p limit fuel
  Run.changeClock fun c => c.setNow limit

/-- Do a task, like `perform`, but raise the alarm instead of anything that would be done on behalf
of an earlier turn and is more than to put an end to it. -/
noncomputable def watched : Nat → Perform Empty σ
  | 0 => fun _ => throw .outOfFuel
  | fuel + 1 => fun t =>
    match t with
    | .invoke id arg =>
      if id.index < m.handlers.size then alarm
      else invokeHandler (runCallback Host.idle (watched fuel)) id arg
    | .trigger event detail => watchTrigger m alarm (watched fuel) event detail
    | .advance ms => watchAdvance m alarm (watched fuel) fuel ms
    | t => performTask Host.idle (watched fuel) fuel t

end Watch

/-! ### The alarm is never raised -/

section Alike

variable {m : Engine Empty σ} {alarm : Run Empty σ Unit} {p p' : Perform Empty σ} {place : Place}
  {e : Engine Empty σ}

/-- Both ways of performing tasks come to the same in engines that follow `m`. -/
abbrev FollowAlike (m : Engine Empty σ) (p p' : Perform Empty σ) : Prop :=
  PerformsAlike m.Follows (m.handlers.size ≤ ·.index) p p'

theorem Made.follow_alike {scope : Scope} {α : Type} {X : Perform Empty σ → Run Empty σ α}
    (hp : FollowAlike m p p') (hX : Made scope place X) :
    ∀ {e : Engine Empty σ}, m.Follows place e → X p e = X p' e :=
  hX.alike Engine.Follows.kept hp fun _ _ _ overlay he => he.push overlay

theorem watch_of_undisturbed {x : Run Empty σ Unit} (h : e.Undisturbed (x e).2) :
    watch alarm x e = x e :=
  if_pos h

theorem hears_undisturbed (hm : m.Dated) (he : m.Follows place e) {action : ListenerAction Empty}
    (h : m.Hears action) (p : Perform Empty σ) (detail : String) :
    e.Undisturbed (runListener Host.idle p detail action e).2 := by
  cases action with
  | clearRepeats => exact .of_eq rfl rfl rfl
  | clearTimed => exact .of_eq rfl rfl rfl
  | dropTyping => exact .of_eq rfl rfl rfl
  | startTyping => exact h.elim
  | skipTyping typing => exact skipTyping_past hm he.lasts he.parted h detail
  | nextTyping => exact h.elim
  | host procedure => exact procedure.elim

theorem watchListener_alike (hm : m.Dated) (hp : FollowAlike m p p') (he : m.Follows place e)
    (detail : String) (action : ListenerAction Empty) :
    watchListener m alarm p detail action e = runListener Host.idle p' detail action e := by
  have halike := (made_runListener detail action).follow_alike hp he
  unfold watchListener
  split
  · rename_i h
    exact (watch_of_undisturbed (hears_undisturbed hm he h p detail)).trans halike
  · exact halike

theorem watchListeners_alike (hm : m.Dated) (hp : FollowAlike m p p') (he : m.Follows place e)
    (detail : String) (actions : List (ListenerAction Empty)) :
    watchListeners m alarm p detail actions e =
      callListeners Host.idle p' detail actions e := by
  induction actions generalizing e with
  | nil => rfl
  | cons action rest ih =>
      refine Run.bind_alike ?_ fun u e₁ h₁ => ih (he.leads ?_)
      · exact Run.reporting_alike (watchListener_alike hm hp he detail action)
      · exact Engine.Lasts.carried.made hp.lasting
          (made_reporting (made_runListener detail action)) he.standsIn h₁ (returned_ok u)

/-- A timer that is taken was pending. -/
theorem takeTimer_eq_some {limit : Nat} {timer : Timer (TimerAction Empty)}
    {e e₁ : Engine Empty σ} (h : takeTimer limit e = (.ok (some timer), e₁)) :
    ∃ clock, e.clock.takeDue limit = some (timer, clock) ∧ e₁ = { e with clock := clock } := by
  rw [takeTimer, Run.get_bind_apply] at h
  cases hdue : e.clock.takeDue limit with
  | none => rw [hdue] at h; cases h
  | some found =>
      obtain ⟨first, clock⟩ := found
      rw [hdue] at h
      cases h
      exact ⟨clock, rfl, rfl⟩

theorem watchTimer_alike (hm : m.Dated) (hp : FollowAlike m p p') (he : m.Follows place e)
    {timer : Timer (TimerAction Empty)} (hobeys : timer.action.Obeys place.mark)
    (hknows : timer.id < m.clock.nextId → m.Knows timer.action) :
    watchTimer m alarm p timer e = runTimer Host.idle p' timer e := by
  have halike := (made_runTimer hobeys).follow_alike hp he
  unfold watchTimer
  split
  · rename_i hpast
    have haction : m.Knows timer.action := hpast.elim hknows id
    obtain ⟨e', hrun, hexpires⟩ := runTimer_past hm he.lasts he.parted haction
    have hundisturbed : e.Undisturbed (runTimer Host.idle p timer e).2 := by
      rw [hrun p]
      exact hexpires.undisturbed
    exact (watch_of_undisturbed hundisturbed).trans halike
  · exact halike

theorem watchDue_alike (hm : m.Dated) (hp : FollowAlike m p p') (he : m.Follows place e)
    (limit fuel : Nat) :
    watchDue m alarm p limit fuel e = fireDue Host.idle p' limit fuel e := by
  have hlasting := @Engine.Lasts.carried σ
  induction fuel generalizing e with
  | zero => rfl
  | succ fuel ih =>
      refine Run.bind_alike rfl fun timer? e₁ h₁ => ?_
      have he₁ := he.leads (hlasting.quickTo (quickTo_takeTimer limit) he.standsIn h₁)
      obtain ⟨r, e₂, h₂, -, -, hobeys⟩ := quickTo_takeTimer limit e he.standsIn
      rw [h₂] at h₁
      cases h₁
      cases timer? with
      | none => rfl
      | some timer =>
          have hobeys := hobeys _ rfl timer rfl
          obtain ⟨clock, hdue, -⟩ := takeTimer_eq_some h₂
          have hknows (hid : timer.id < m.clock.nextId) : m.Knows timer.action :=
            (he.lasts.knows hm (Clock.mem_of_takeDue hdue) hid).1
          refine Run.bind_alike ?_ fun u e₂ h₂ => ih (he₁.leads ?_)
          · exact Run.reporting_alike (watchTimer_alike hm hp he₁ hobeys hknows)
          · exact hlasting.made hp.lasting (made_reporting (made_runTimer hobeys)) he₁.standsIn h₂
              (returned_ok u)

/-- Watched or not, an engine that follows `m` performs a task in the same way. -/
theorem watched_alike (alarm : Run Empty σ Unit) (hm : m.Dated) (n : Nat) :
    FollowAlike m (watched m alarm n) (perform Host.idle n) where
  lasting := Engine.Lasts.carried.performs n
  framed := Engine.Frame.carried.performs n
  alike {t place e} he hinvoke := by
    induction n generalizing t place e with
    | zero => rfl
    | succ n ih =>
        have hp : FollowAlike m (watched m alarm n) (perform Host.idle n) :=
          ⟨ih, Engine.Lasts.carried.performs n, Engine.Frame.carried.performs n⟩
        cases t with
        | invoke id arg =>
            have hrecent : ¬ id.index < m.handlers.size := Nat.not_lt.mpr (hinvoke id arg rfl)
            show (if id.index < m.handlers.size then alarm
              else invokeHandler (runCallback Host.idle (watched m alarm n)) id arg) e = _
            rw [if_neg hrecent]
            refine invokeHandler_alike Engine.Follows.kept hp (fun h he => he.enterShadow h) id arg ?_ he
            exact fun callback _ _ he => (made_runCallback callback arg).follow_alike hp he
        | trigger event detail =>
            have hlater : m.Follows place
                { e with listeners := (Listener.take e.listeners event).2 } := by
              refine ⟨he.standsIn.congr he.standsIn.current rfl rfl, he.mark, ?_⟩
              exact { he.lasts with }
            exact watchListeners_alike hm hp hlater detail _
        | advance ms =>
            show watchAdvance m alarm (watched m alarm n) n ms e =
              StoryEngine.advance Host.idle (perform Host.idle n) n ms e
            rw [watchAdvance, StoryEngine.advance, Run.get_bind_apply, Run.get_bind_apply]
            exact Run.bind_alike (watchDue_alike hm hp he _ n) fun _ _ _ => rfl
        | render out source => exact (made_render out source).follow_alike hp he
        | navigate title => exact (made_navigate title).follow_alike hp he
        | startTyping => exact Builtin.made_startFirst.follow_alike hp he

end Alike

/-- Watched or not, a call of the host does the same in an engine that follows `m`. -/
theorem HostCall.run_watched {m e : Engine Empty σ} {place : Place} (hm : m.Dated)
    (he : m.Follows place e) (call : HostCall) (alarm : Run Empty σ Unit) (n : Nat) :
    call.run (watched m alarm n) e = call.run (perform Host.idle n) e := by
  refine (watched_alike alarm hm n).hostCall Engine.Follows.kept he (fun k hk => ?_) call
  exact (he.parted.clickables k hk).1

/-! ### The turns are isolated -/

theorem takeClickable?_eq_none {element : ElementId} {clickables : List Clickable}
    (h : ∀ k ∈ clickables, k.element ≠ element) : takeClickable? element clickables = none := by
  induction clickables with
  | nil => rfl
  | cons first rest ih =>
      rw [takeClickable?, if_neg (h first List.mem_cons_self),
        ih fun k hk => h k (List.mem_cons_of_mem _ hk)]
      rfl

/-- An element that was there in an earlier turn cannot be clicked. -/
theorem click_past {m e : Engine Empty σ} {place : Place} (he : m.Follows place e)
    {element : ElementId} (h : element.index < m.tree.elements.size) (p : Perform Empty σ) :
    click p element e = (.ok false, e) := by
  have hnone : takeClickable? element e.clickables = none := by
    refine takeClickable?_eq_none fun k hk heq => ?_
    have hrecent : m.tree.elements.size ≤ k.element.index := (he.parted.clickables k hk).2
    rw [heq] at hrecent
    exact Nat.not_lt.mpr hrecent h
  rw [click, Run.get_bind_apply, hnone]
  rfl

/-- When the host has arrived at a passage and then calls the engine any number of times, no call
that comes next does anything on behalf of the turns before: under a watch that raises an alarm when
a handler of theirs is invoked, or when a timer or a listener of theirs changes a variable or what
the passages show, it does the same, whatever the alarm does (`watched`). A timer that was set in
those turns fires at most once after the arrival, up to the end of that call. To click an element
that was there has no effect, and tells that it cannot be clicked; those that could be clicked were
among them. -/
theorem stale_isolation (config : Config) (host : σ) {m e₁ e : Engine Empty σ}
    {fired : List TimerId} (h : Arrives config host m e₁) (hlater : Continues e₁ fired e) :
    (∀ (call : HostCall) (alarm : Run Empty σ Unit) (n : Nat),
      call.run (watched m alarm n) e = call.run (perform Host.idle n) e) ∧
    (∀ timer ∈ m.clock.timers, timer.id < m.clock.nextId) ∧
    (∀ (call : HostCall) (n : Nat), ∀ id < m.clock.nextId,
      (fired ++ call.firings n e).count id ≤ 1) ∧
    (∀ k ∈ m.clickables, k.element.index < m.tree.elements.size) ∧
    ∀ (p : Perform Empty σ) (element : ElementId), element.index < m.tree.elements.size →
      click p element e = (.ok false, e) := by
  obtain ⟨-, -, hm⟩ := h.before
  have he := hlater.follows h.follows
  have hspent := hlater.spent hm h.follows
  refine ⟨fun call alarm n => call.run_watched hm he alarm n,
    fun timer htimer => (hm.timers timer htimer).1, fun call n => (hspent.hostCall hm he call n).1,
    hm.clickables, fun p element hold => click_past he hold p⟩

/-- A link is left behind when the host goes to its passage once more: another one is there then, and
the first cannot be clicked. -/
theorem click_of_left_passage : ∃ (m e₁ e : Engine Empty Unit) (fired : List TimerId),
    Arrives {} () m e₁ ∧ Continues e₁ fired e ∧ m.clickables.map (·.element) = [⟨0⟩] ∧
      e.clickables.map (·.element) = [⟨1⟩] ∧
        click (perform Host.idle 20) ⟨0⟩ e = (.ok false, e) := by
  let home := HostCall.navigate "home"
  let start : Engine Empty Unit := Engine.ofConfig {} ()
  let story := (HostCall.addPassage "home" "<<link 'go'>><</link>>").run (perform Host.idle 0) start
  let first := home.run (perform Host.idle 20) story.2
  let second := home.run (perform Host.idle 20) first.2
  let third := (HostCall.advance 1000).run (perform Host.idle 20) second.2
  obtain ⟨hstory, hfirst, hsecond, hthird, hold, hnew, hsize⟩ :
      Returned story.1 ∧ Returned first.1 ∧ second.1.toBool = true ∧ Returned third.1 ∧
        first.2.clickables.map (·.element) = [⟨0⟩] ∧
          third.2.clickables.map (·.element) = [⟨1⟩] ∧ first.2.tree.elements.size = 1 := by
    decide +kernel
  have hplayed : Played {} () first.2 := (Played.start.next _ 0 hstory).next home 20 hfirst
  have hok : second.1 = .ok () := by
    cases hs : second.1 with
    | ok u => rfl
    | error halt => rw [hs] at hsecond; cases hsecond
  have harrives : Arrives {} () first.2 second.2 :=
    .navigate hplayed "home" (n := 20) (Prod.ext hok rfl)
  have hlater : Continues second.2 ([] ++ (HostCall.advance 1000).firings 20 second.2) third.2 :=
    Continues.start.next (.advance 1000) 20 hthird
  have hthere : 0 < first.2.tree.elements.size := hsize ▸ Nat.zero_lt_one
  have hclick := (stale_isolation {} () harrives hlater).2.2.2.2 (perform Host.idle 20) ⟨0⟩ hthere
  exact ⟨first.2, second.2, third.2, _, harrives, hlater, hold, hnew, hclick⟩

end StoryEngine
