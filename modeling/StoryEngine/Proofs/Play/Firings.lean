import StoryEngine.Proofs.Engine.Timeless
import StoryEngine.Proofs.Play.Arrival
/-!
# StoryEngine.Proofs.Play.Firings

Which timers fire while the host plays on (`Continues`). A timer that was set before the host set
out for a passage fires at most once after it has arrived (`Arrives.spent`): timers that fire once
are gone by then, and an interval finds that it is stale and is cancelled. Identities of timers are
not used twice, so what is gone stays gone.
-/

namespace StoryEngine

variable {σ : Type}

/-! ### Firings -/

/-- The timers that fire while those that are due by a time are fired, in order. -/
def firings (p : Perform Empty σ) (limit : Nat) : Nat → Engine Empty σ → List TimerId
  | 0, _ => []
  | fuel + 1, e =>
    match e.clock.takeDue limit with
    | none => []
    | some (timer, clock) =>
      timer.id ::
        match Run.reporting (runTimer Host.idle p timer) { e with clock := clock } with
        | (.ok _, e') => firings p limit fuel e'
        | (.error _, _) => []

/-- The timers that fire during a call of the host. -/
def HostCall.firings : HostCall → Nat → Engine Empty σ → List TimerId
  | .advance ms, n + 1, e =>
    StoryEngine.firings (perform Host.idle n) (Clock.later e.clock.now ms) n e
  | _, _, _ => []

/-- What an engine can become when its host calls it any number of times, as long as every call
returns, with the timers that fire meanwhile. -/
inductive Continues (e₀ : Engine Empty σ) : List TimerId → Engine Empty σ → Prop
  | start : Continues e₀ [] e₀
  | call {fired : List TimerId} {e e' : Engine Empty σ} (before : Continues e₀ fired e)
      (call : HostCall) {n : Nat} {r : Except Halt Unit}
      (h : call.run (perform Host.idle n) e = (r, e')) (hr : Returned r) :
      Continues e₀ (fired ++ call.firings n e) e'

/-- A call that returns leads on. -/
theorem Continues.next {e₀ e : Engine Empty σ} {fired : List TimerId}
    (before : Continues e₀ fired e) (call : HostCall) (n : Nat)
    (hr : Returned (call.run (perform Host.idle n) e).1) :
    Continues e₀ (fired ++ call.firings n e) (call.run (perform Host.idle n) e).2 :=
  .call before call (Prod.eta _).symm hr

/-- A timer that fires once is gone when it fires. -/
theorem Clock.ne_of_mem_takeDue {κ : Type} {c c' : Clock κ} {limit : Nat} {timer other : Timer κ}
    (h : c.takeDue limit = some (timer, c')) (hperiod : timer.period = none)
    (hother : other ∈ c'.timers) : other.id ≠ timer.id := by
  unfold Clock.takeDue at h
  split at h
  · cases h
  · cases h
    simp only [hperiod] at hother
    have hkept := (List.mem_filter.mp hother).2
    simpa using hkept

/-! ### Timers of an earlier turn -/

theorem Engine.Follows.take {m e : Engine Empty σ} {place : Place} (he : m.Follows place e)
    {limit : Nat} {timer : Timer (TimerAction Empty)} {clock : Clock (TimerAction Empty)}
    (hdue : e.clock.takeDue limit = some (timer, clock)) :
    m.Follows place { e with clock := clock } :=
  ⟨(Change.clock clock (.takeDue hdue)).standsIn he.standsIn, he.mark,
    he.lasts.trans (.of_clock (.takeDue hdue))⟩

/-- The timers that were set before fire at most once, and are not pending any more when they
have fired. -/
structure Engine.Spent (m : Engine Empty σ) (fired : List TimerId) (e : Engine Empty σ) :
    Prop where
  once : ∀ id < m.clock.nextId, fired.count id ≤ 1
  gone : ∀ id ∈ fired, id < m.clock.nextId → ∀ timer ∈ e.clock.timers, timer.id ≠ id

namespace Engine.Spent

variable {m e e' : Engine Empty σ} {fired : List TimerId} {place : Place}

theorem nil (m e : Engine Empty σ) : m.Spent [] e :=
  ⟨fun _ _ => Nat.zero_le 1, nofun⟩

/-- What is gone stays gone. -/
theorem ofLasts (h : m.Spent fired e) (he : m.Lasts e) (hlasts : e.Lasts e') :
    m.Spent fired e' := by
  refine ⟨h.once, fun id hid hlt timer' htimer' heq => ?_⟩
  have hbefore : timer'.id < e.clock.nextId := heq ▸ Nat.lt_of_lt_of_le hlt he.nextId
  obtain ⟨timer, htimer, hsame, -⟩ := hlasts.timers timer' htimer' hbefore
  exact h.gone id hid hlt timer htimer (hsame.symm.trans heq)

/-- A timer that fires has not fired before. -/
theorem once_fired (h : m.Spent fired e) {timer : Timer (TimerAction Empty)}
    (htimer : timer ∈ e.clock.timers) (id : TimerId) (hid : id < m.clock.nextId) :
    (fired ++ [timer.id]).count id ≤ 1 := by
  rw [List.count_append]
  by_cases heq : timer.id = id
  · have hnot : id ∉ fired := fun hmem => h.gone id hmem hid timer htimer heq
    rw [List.count_eq_zero_of_not_mem hnot, heq, List.count_singleton_self]
  · have hother : [timer.id].count id = 0 :=
      List.count_eq_zero_of_not_mem fun hmem => heq (List.mem_singleton.mp hmem).symm
    rw [hother]
    exact h.once id hid

/-- A timer fires. -/
theorem fire (h : m.Spent fired e) (hm : m.Dated) (he : m.Follows place e)
    {p : Perform Empty σ} {limit : Nat} {timer : Timer (TimerAction Empty)}
    {clock : Clock (TimerAction Empty)} (hdue : e.clock.takeDue limit = some (timer, clock))
    (hrun : Run.reporting (runTimer Host.idle p timer) { e with clock := clock } = (.ok (), e'))
    (hlasts : e.Lasts e') : m.Spent (fired ++ [timer.id]) e' := by
  have hpending := Clock.mem_of_takeDue hdue
  refine ⟨h.once_fired hpending, fun id hid hlt => ?_⟩
  rcases List.mem_append.mp hid with hold | hnew
  · exact (h.ofLasts he.lasts hlasts).gone id hold hlt
  · cases List.mem_singleton.mp hnew
    obtain ⟨hknows, hperiod⟩ := he.lasts.knows hm hpending hlt
    have htaken := he.take hdue
    obtain ⟨e₁, hexpire, hexpires⟩ := runTimer_past hm htaken.lasts htaken.parted hknows
    rw [Run.reporting_of_ok (hexpire p)] at hrun
    cases hrun
    rcases hperiod with hnone | hrepeated
    · intro timer' htimer' heq
      obtain ⟨other, hother, hsame, -⟩ := hexpires.clock.timers timer' htimer'
      exact Clock.ne_of_mem_takeDue hdue hnone hother (hsame.symm.trans heq)
    · exact hexpires.cleared hrepeated

/-- No timer fires during a call of the host other than to let time pass. -/
theorem quiet (h : m.Spent fired e) (he : m.Follows place e) {call : HostCall} {n : Nat}
    (hquiet : call.firings n e = []) :
    (∀ id < m.clock.nextId, (fired ++ call.firings n e).count id ≤ 1) ∧
      ∀ r e', call.run (perform Host.idle n) e = (r, e') → Returned r →
        m.Spent (fired ++ call.firings n e) e' := by
  rw [hquiet, List.append_nil]
  refine ⟨h.once, fun r e' hrun hr => h.ofLasts he.lasts ?_⟩
  exact (Engine.Lasts.carried.hostCall he.standsIn (fun _ _ _ => trivial) hrun hr).2

/-- Timers fire one after another. -/
theorem firings (h : m.Spent fired e) (hm : m.Dated) (he : m.Follows place e) (n limit fuel : Nat) :
    let fired' := fired ++ StoryEngine.firings (perform Host.idle n) limit fuel e
    (∀ id < m.clock.nextId, fired'.count id ≤ 1) ∧
      ∀ r e', fireDue Host.idle (perform Host.idle n) limit fuel e = (r, e') → Returned r →
        m.Spent fired' e' := by
  have hlasting := @Engine.Lasts.carried σ
  induction fuel generalizing fired e with
  | zero =>
      rw [StoryEngine.firings, List.append_nil]
      refine ⟨h.once, fun r e' hrun hr => ?_⟩
      cases hrun
      exact (hr rfl).elim
  | succ fuel ih =>
      rw [StoryEngine.firings, fireDue_succ]
      cases hdue : e.clock.takeDue limit with
      | none =>
          dsimp only
          rw [List.append_nil]
          refine ⟨h.once, fun r e' hrun _ => ?_⟩
          cases hrun
          exact h
      | some found =>
          obtain ⟨timer, clock⟩ := found
          have hpending := Clock.mem_of_takeDue hdue
          have hobeys := he.standsIn.parted.timers timer hpending
          have htaken := he.take hdue
          dsimp only
          rcases hrun : Run.reporting (runTimer Host.idle (perform Host.idle n) timer)
            { e with clock := clock } with ⟨halt | u, e₁⟩
          · refine ⟨h.once_fired hpending, fun r e' hrest hr => ?_⟩
            rw [Run.bind_of_error hrun] at hrest
            cases hrest
            cases Run.reporting_eq_ok hrun hr
          · have hleads := hlasting.made (hlasting.performs n)
              (made_reporting (made_runTimer hobeys)) htaken.standsIn hrun (returned_ok u)
            have hlasts : e.Lasts e₁ := (Engine.Lasts.of_clock (.takeDue hdue)).trans hleads.2
            have hnext := ih (h.fire hm he hdue hrun hlasts) (htaken.leads hleads)
            rw [List.append_cons, Run.bind_of_ok hrun]
            exact hnext

/-- Timers fire during a call of the host. -/
theorem hostCall (h : m.Spent fired e) (hm : m.Dated) (he : m.Follows place e) (call : HostCall)
    (n : Nat) :
    (∀ id < m.clock.nextId, (fired ++ call.firings n e).count id ≤ 1) ∧
      ∀ r e', call.run (perform Host.idle n) e = (r, e') → Returned r →
        m.Spent (fired ++ call.firings n e) e' := by
  cases call with
  | advance ms =>
      cases n with
      | zero => exact h.quiet he rfl
      | succ n =>
          obtain ⟨honce, hspent⟩ := h.firings hm he n (Clock.later e.clock.now ms) n
          refine ⟨honce, fun r e' hrun hr => ?_⟩
          change StoryEngine.advance Host.idle (perform Host.idle n) n ms e = (r, e') at hrun
          rw [StoryEngine.advance, Run.get_bind_apply] at hrun
          rcases Run.bind_returned hrun hr with ⟨u, e₁, hfire, hset⟩ | ⟨failure, hfire, -⟩
          · cases hset
            exact { hspent _ _ hfire (returned_ok u) with }
          · exact hspent _ _ hfire (returned_failure failure)
  | _ => exact h.quiet he rfl

end Engine.Spent

namespace Continues

variable {m e₁ e : Engine Empty σ} {fired : List TimerId} {place : Place}

theorem follows (h : Continues e₁ fired e) (he₁ : m.Follows place e₁) : m.Follows place e := by
  induction h with
  | start => exact he₁
  | call before call hrun hr ih =>
      exact ih.leads (Engine.Lasts.carried.hostCall ih.standsIn (fun _ _ _ => trivial) hrun hr)

/-- The timers of an earlier turn fire at most once. -/
theorem spent (h : Continues e₁ fired e) (hm : m.Dated) (he₁ : m.Follows place e₁) :
    m.Spent fired e := by
  induction h with
  | start => exact .nil m e₁
  | @call fired e e' before call n r hrun hr ih =>
      exact (ih.hostCall hm (before.follows he₁) call n).2 r e' hrun hr

end Continues

end StoryEngine
