import StoryEngine.Proofs.Engine.Break
import StoryEngine.Proofs.Engine.LoopControl
import StoryEngine.Proofs.Play.Played
/-!
# StoryEngine.Proofs.Play.LoopControl

Whether the wish to leave a loop outlives the loop. As long as no handler is made in a loop, save
those of intervals, no call of the host leaves such a wish behind (`Played.loopBreak`). A link that
is made in a loop does, if it is clicked and its payload is to break the loop off
(`Played.click_break`): by then the loop has ended, and nobody takes the wish back. Whatever the
host has rendered next shows nothing.
-/

namespace StoryEngine

variable {σ : Type}

namespace Played

variable {config : Config} {host : σ} {e e' : Engine Empty σ}

theorem confined (before : Played config host e) (he : e.Sound) {call : HostCall} {n : Nat}
    {r : Except Halt Unit} (h : call.run (perform Host.idle n) e = (r, e')) (hr : Returned r) :
    e.Confined { context := e.current } e' := by
  refine (Engine.Confined.carried.hostCall before.standsIn (fun k hk left => ?_) h hr).2
  exact Engine.mayInvoke_of_holds (fun _ => he.clickables k hk) ShadowHandler.IsClick.not_isTick

/-- What is registered between the calls of the host is of the right kind. -/
theorem sound (h : Played config host e) : e.Sound := by
  induction h with
  | start => exact ⟨nofun, nofun, nofun, nofun⟩
  | call before call hrun hr ih => exact (before.confined ih hrun hr).sound ih

/-- No loop is being left between the calls of the host if no handler was made in a loop. -/
theorem loopBreak (h : Played config host e) (hdefers : e.DefersOutsideLoops) :
    e.loopBreak = none := by
  induction h with
  | start => rfl
  | @call e e' before call n r hrun hr ih =>
      have hconfined := before.confined before.sound hrun hr
      have hbefore : e.loopBreak = none := ih (hdefers.before hconfined.frame.handlers)
      have hrest := before.atRest
      by_contra hwish
      have hsome : e'.loopBreak.isSome = true := Option.isSome_iff_ne_none.mpr hwish
      -- a wish that was not there before belongs to a loop or a tick, and the host is in neither
      rcases hconfined.wish before.sound hdefers hsome with hleft | hplace | htimer
      · rw [hbefore] at hleft
        cases hleft
      · change areInLoop (callsOf e.current) = true at hplace
        rw [hrest.current] at hplace
        cases hplace
      · rw [hrest.repeatTimer] at htimer
        cases htimer

/-- A click of a link whose payload is to break off a loop. -/
theorem click_break (h : Played config host e) (hwish : e.loopBreak = none)
    (hdepth : 0 < config.maxRenderDepth) {element : ElementId} {k : Clickable}
    {others : List Clickable} {handler : ShadowHandler Empty}
    (hclick : takeClickable? element e.clickables = some (k, others))
    (hh : e.handlers[k.handler.index]? = some handler)
    (hcallback : handler.callback = some (.payload "<<break>>")) (hdone : handler.done = none)
    (n : Nat) :
    ∃ r e', (HostCall.click element).run (perform Host.idle (n + 2)) e = (r, e') ∧ Returned r ∧
      e'.loopBreak = if areInLoop handler.context.calls then some .«break» else none := by
  have hstart : handler.start = none := by
    obtain ⟨other, hother, hkind⟩ := h.sound.clickables k (takeClickable?_mem hclick).1
    rw [hh] at hother
    cases hother
    exact hkind.start
  have hlimit : e.renderDepth < e.config.maxRenderDepth := by
    rw [h.atRest.renderDepth, h.config_eq]
    exact hdepth
  let taken : Engine Empty σ := { e with clickables := if k.once then others else e.clickables }
  have hinvoke := invoke_break (e := taken) h.registry hwish hlimit hh hstart hcallback hdone n
  obtain ⟨r, e', hr, hreturned, hleft⟩ := hinvoke .nothing
  exact ⟨r, e', HostCall.click_apply hclick hr, hreturned, hleft⟩

end Played

/-- The wish to leave a loop outlives no call of the host if no handler but those of intervals was
made in a loop, and a click whose payload is to break off a loop leaves one behind exactly if its
handler was made in a loop. -/
theorem loop_control_outlives_call (config : Config) (host : σ) :
    (∀ e : Engine Empty σ, Played config host e → e.DefersOutsideLoops → e.loopBreak = none) ∧
    ∀ (e : Engine Empty σ) (element : ElementId) (k : Clickable) (others : List Clickable)
        (handler : ShadowHandler Empty) (n : Nat),
      Played config host e → e.loopBreak = none → 0 < config.maxRenderDepth →
      takeClickable? element e.clickables = some (k, others) →
      e.handlers[k.handler.index]? = some handler →
      handler.callback = some (.payload "<<break>>") → handler.done = none →
      ∃ r e', (HostCall.click element).run (perform Host.idle (n + 2)) e = (r, e') ∧ Returned r ∧
        (e'.loopBreak = none ↔ areInLoop handler.context.calls = false) := by
  refine ⟨fun e he hdefers => he.loopBreak hdefers, ?_⟩
  intro e element k others handler n he hwish hdepth hclick hh hcallback hdone
  obtain ⟨r, e', hr, hreturned, hleft⟩ :=
    he.click_break hwish hdepth hclick hh hcallback hdone n
  refine ⟨r, e', hr, hreturned, ?_⟩
  rw [hleft]
  cases areInLoop handler.context.calls with
  | true => exact iff_of_false nofun nofun
  | false => exact iff_of_true rfl rfl

/-- After a loop that is broken off on the spot, no loop is being left. -/
theorem no_loop_left_after_loop :
    let e := (perform Host.idle 20 (.render ⟨0⟩ "<<for _i range 2>>a<<break>>b<</for>>")
      (Engine.ofConfig {} ())).2
    e.DefersOutsideLoops ∧ e.loopBreak = none := by
  intro e
  obtain ⟨hreturned, hsize⟩ :
      Returned (perform Host.idle 20 (.render ⟨0⟩ "<<for _i range 2>>a<<break>>b<</for>>")
        (Engine.ofConfig {} ())).1 ∧ e.handlers.size = 0 := by
    decide +kernel
  have hdefers : e.DefersOutsideLoops := by
    intro index h hh
    have hlt : index < e.handlers.size := (Array.getElem?_eq_some_iff.mp hh).1
    rw [hsize] at hlt
    exact absurd hlt (Nat.not_lt_zero index)
  have hplayed : Played {} () e := .call .start (.render ⟨0⟩ _) (n := 20) rfl hreturned
  exact ⟨hdefers, (loop_control_outlives_call {} ()).1 e hplayed hdefers⟩

/-- A link that was made in a loop breaks the loop off when it is clicked, long after its end. -/
theorem click_leaves_ended_loop : ∃ e : Engine Empty Unit,
    Played {} () e ∧ e.loopBreak = some .«break» := by
  let rendered := perform Host.idle 20
    (.render ⟨0⟩ "<<for _i range 1>><<link 'go'>><<break>><</link>><</for>>")
    (Engine.ofConfig {} ())
  let clicked := (HostCall.click ⟨0⟩).run (perform Host.idle 20) rendered.2
  obtain ⟨hrendered, hclicked, hwish⟩ :
      Returned rendered.1 ∧ Returned clicked.1 ∧ clicked.2.loopBreak = some .«break» := by
    decide +kernel
  have hplayed : Played {} () rendered.2 := .call .start (.render ⟨0⟩ _) (n := 20) rfl hrendered
  exact ⟨clicked.2, .call hplayed (.click ⟨0⟩) (n := 20) rfl hclicked, hwish⟩

end StoryEngine
