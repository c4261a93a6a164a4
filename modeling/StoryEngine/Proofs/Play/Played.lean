import StoryEngine.Proofs.Engine.Alike
/-!
# StoryEngine.Proofs.Play.Played

Playing a story with the built-in macros: an engine is made, and then its host calls it again and
again, each time when the last call has returned (`Played`). Between the calls nothing is under way
(`Engine.AtRest`): every call is framed, and an engine is at rest when it is made.

So whenever a call of the host returns, whether with a result or with a failure, nothing is left over
from it (`quiescent_and_balanced`). Within a call, a render at any depth leaves the overlays, the
context and the number of renders as it found them, and renders never nest deeper than the settings
allow. This is carried by the type of engines (`Engine.renderDepth_le`), so no change of an engine can
break it.
-/

namespace StoryEngine

variable {σ : Type}

/-! ### Calls of the host -/

/-- What the host of an engine can ask it for. -/
inductive HostCall where
  | addPassage (title source : String)
  /-- Render source text at the end of an output. -/
  | render (out : OutputId) (source : String)
  | navigate (title : String)
  | click (element : ElementId)
  | pressKey (key : String)
  /-- Let time pass, in milliseconds. -/
  | advance (ms : Nat)
  /-- Give a variable a value. -/
  | set (name : String) (value : Value)
  /-- Make an output apart from that of the passages. -/
  | newOutput
  /-- Take the failures that nobody has handled. -/
  | takeErrors

/-- Do what the host asks for. -/
def HostCall.run (p : Perform Empty σ) : HostCall → Run Empty σ Unit
  | addPassage title source => modify fun e => e.addPassage title source
  | render out source => p (.render out source)
  | navigate title => p (.navigate title)
  | click element => do let _ ← StoryEngine.click p element
  | pressKey key => StoryEngine.pressKey p key
  | advance ms => p (.advance ms)
  | set name value => Run.changingState fun s => s.set name value
  | newOutput => do let _ ← Run.withTree fun t => t.newOutput
  | takeErrors => modify fun e => e.takeErrors.2

/-- What an engine can become that is made with the settings and then called any number of times,
as long as every call returns. -/
inductive Played (config : Config) (host : σ) : Engine Empty σ → Prop
  | start : Played config host (Engine.ofConfig config host)
  | call {e e' : Engine Empty σ} (before : Played config host e) (call : HostCall) {n : Nat}
      {r : Except Halt Unit} (h : call.run (perform Host.idle n) e = (r, e')) (hr : Returned r) :
      Played config host e'

/-- A call that returns leads on. -/
theorem Played.next {config : Config} {host : σ} {e : Engine Empty σ}
    (before : Played config host e) (call : HostCall) (n : Nat)
    (hr : Returned (call.run (perform Host.idle n) e).1) :
    Played config host (call.run (perform Host.idle n) e).2 :=
  .call before call (Prod.eta _).symm hr

/-! ### Clicks -/

theorem takeClickable?_mem {element : ElementId} {clickables others : List Clickable}
    {c : Clickable} (h : takeClickable? element clickables = some (c, others)) :
    c ∈ clickables ∧ others ⊆ clickables := by
  induction clickables generalizing others with
  | nil => cases h
  | cons first rest ih =>
      rw [takeClickable?] at h
      split at h
      · cases h
        exact ⟨List.mem_cons_self, List.subset_cons_self _ _⟩
      · obtain ⟨⟨found, left⟩, hfound, heq⟩ := Option.map_eq_some_iff.mp h
        cases heq
        obtain ⟨hmem, hleft⟩ := ih hfound
        exact ⟨List.mem_cons_of_mem _ hmem, List.cons_subset_cons _ hleft⟩

/-- A click that returns has invoked the handler of an element that could be clicked, if there is
one. The element is gone by then if it can be clicked only once. -/
theorem click_returned {p : Perform Empty σ} {element : ElementId} {e e' : Engine Empty σ}
    {r : Except Halt Bool} (h : click p element e = (r, e')) (hr : Returned r) :
    e' = e ∨ ∃ k ∈ e.clickables, ∃ left, left ⊆ e.clickables ∧ ∃ r₁,
      p (.invoke k.handler .nothing) { e with clickables := left } = (r₁, e') ∧ Returned r₁ := by
  rw [click, Run.get_bind_apply] at h
  cases hc : takeClickable? element e.clickables with
  | none => rw [hc] at h; cases h; exact .inl rfl
  | some found =>
      obtain ⟨k, others⟩ := found
      obtain ⟨hmem, hothers⟩ := takeClickable?_mem hc
      have hinvoke {left : List Clickable} (hleft : left ⊆ e.clickables)
          (h : (p (.invoke k.handler .nothing) >>= fun _ => pure true)
            { e with clickables := left } = (r, e')) :
          ∃ left, left ⊆ e.clickables ∧ ∃ r₁,
            p (.invoke k.handler .nothing) { e with clickables := left } = (r₁, e') ∧
              Returned r₁ := by
        rcases Run.bind_returned h hr with ⟨u, e₁, h₁, h₂⟩ | ⟨failure, h₁, -⟩
        · cases h₂
          exact ⟨left, hleft, _, h₁, returned_ok u⟩
        · exact ⟨left, hleft, _, h₁, returned_failure failure⟩
      rw [hc] at h
      refine .inr ⟨k, hmem, ?_⟩
      cases honce : k.once with
      | true => simp only [honce, if_true] at h; exact hinvoke hothers h
      | false =>
          simp only [honce, Bool.false_eq_true, if_false] at h
          exact hinvoke (List.Subset.refl _) h

/-- A click of an element does what its handler does. -/
theorem HostCall.click_apply {p : Perform Empty σ} {element : ElementId} {e e' : Engine Empty σ}
    {k : Clickable} {others : List Clickable} {r : Except Halt Unit}
    (hclick : takeClickable? element e.clickables = some (k, others))
    (h : p (.invoke k.handler .nothing)
      { e with clickables := if k.once then others else e.clickables } = (r, e')) :
    (HostCall.click element).run p e = (r, e') := by
  have hinvoke : StoryEngine.click p element e =
      (p (.invoke k.handler .nothing) >>= fun _ => pure true)
        { e with clickables := if k.once then others else e.clickables } := by
    rw [StoryEngine.click, Run.get_bind_apply, hclick]
    cases honce : k.once with
    | true => simp only [honce, if_true, Run.modify_bind_apply]
    | false => simp only [honce, Bool.false_eq_true, if_false]
  rw [HostCall.run]
  cases r with
  | ok u => exact Run.bind_of_ok (hinvoke.trans (Run.bind_of_ok h))
  | error halt => exact Run.bind_of_error (hinvoke.trans (Run.bind_of_error h))

/-- A call of the host that returns is related like any other work, if the elements that can be
clicked have handlers that may be invoked. -/
theorem Carried.hostCall {R : Place → Engine Empty σ → Engine Empty σ → Prop}
    {Ok : Engine Empty σ → HandlerId → Prop} (hR : Carried R Ok) {call : HostCall} {n : Nat}
    {place : Place} {e e' : Engine Empty σ} {r : Except Halt Unit} (he : e.StandsIn place)
    (hok : ∀ k ∈ e.clickables, ∀ left, Ok { e with clickables := left } k.handler)
    (h : call.run (perform Host.idle n) e = (r, e')) (hr : Returned r) :
    Carried.Leads R place e e' := by
  have hp := hR.performs n
  have hmove {e e' : Engine Empty σ} (he : e.StandsIn place) (h : Move e e') :
      Carried.Leads R place e e' := ⟨h.standsIn he, hR.move h⟩
  cases call with
  | addPassage title source => cases h; exact hmove he (.passages _)
  | render out source => exact hp.free he h hr trivial
  | navigate title => exact hp.free he h hr trivial
  | click element =>
      have hclick {r₁ : Except Halt Bool} {e₁ : Engine Empty σ}
          (h₁ : StoryEngine.click (perform Host.idle n) element e = (r₁, e₁)) (hr₁ : Returned r₁) :
          Carried.Leads R place e e₁ := by
        rcases click_returned h₁ hr₁ with heq | ⟨k, hk, left, hleft, r₂, h₂, hr₂⟩
        · subst heq
          exact hR.leads_refl he
        · have hfirst := hmove he (.unclick hleft)
          exact hR.leads_trans hfirst (hp.invoke hfirst.1 (hok k hk left) h₂ hr₂)
      exact hR.bind hclick (fun _ he₁ h₂ => by cases h₂; exact hR.leads_refl he₁) h hr
  | pressKey key => exact hp.free he h hr trivial
  | advance ms => exact hp.free he h hr trivial
  | set name value =>
      exact hR.quickTo (Quick.changingState fun _ _ => State.reassigned_of_set) he h
  | newOutput =>
      exact hR.quickTo (Quick.bind (.withTree fun t _ _ => .newOutput t) fun _ => .pure ()) he h
  | takeErrors => cases h; exact hmove he (.errors [])

/-- It makes no difference to a call of the host how tasks are performed, if the elements that can
be clicked have handlers that may be invoked. -/
theorem PerformsAlike.hostCall {Q : Place → Engine Empty σ → Prop} {Ok : HandlerId → Prop}
    {p p' : Perform Empty σ} (hQ : Kept Q Ok) (hp : PerformsAlike Q Ok p p') {place : Place}
    {e : Engine Empty σ} (he : Q place e) (hok : ∀ k ∈ e.clickables, Ok k.handler)
    (call : HostCall) : call.run p e = call.run p' e := by
  cases call with
  | render out source => exact hp.free he trivial
  | navigate title => exact hp.free he trivial
  | pressKey key => exact hp.free he trivial
  | advance ms => exact hp.free he trivial
  | click element =>
      refine Run.bind_alike ?_ fun _ _ _ => rfl
      rw [StoryEngine.click, StoryEngine.click, Run.get_bind_apply, Run.get_bind_apply]
      cases hclick : takeClickable? element e.clickables with
      | none => rfl
      | some found =>
          obtain ⟨k, others⟩ := found
          obtain ⟨hk, hothers⟩ := takeClickable?_mem hclick
          have hinvoke {left : List Clickable} (hleft : left ⊆ e.clickables) :
              p (.invoke k.handler .nothing) { e with clickables := left } =
                p' (.invoke k.handler .nothing) { e with clickables := left } := by
            have hfirst : Q place { e with clickables := left } :=
              hQ.lasts he ((Move.unclick hleft).standsIn (hQ.standsIn he)) rfl
                { Engine.Lasts.refl e with } rfl
            exact hp.invoke hfirst (hok k hk)
          cases honce : k.once with
          | true =>
              simp only [honce, if_true, Run.modify_bind_apply]
              exact Run.bind_alike (hinvoke hothers) fun _ _ _ => rfl
          | false =>
              simp only [honce, Bool.false_eq_true, if_false]
              exact Run.bind_alike (hinvoke (List.Subset.refl _)) fun _ _ _ => rfl
  | addPassage title source => rfl
  | set name value => rfl
  | newOutput => rfl
  | takeErrors => rfl

/-! ### Rest -/

/-- Nothing is under way. -/
structure Engine.AtRest (e : Engine Empty σ) : Prop where
  overlays : e.state.overlays = []
  current : e.current = none
  renderDepth : e.renderDepth = 0
  isPlaying : e.isPlaying = false
  repeatTimer : e.repeatTimer = none

theorem Engine.AtRest.ofFrame {e e' : Engine Empty σ} (he : e.AtRest) (h : e.Frame e') :
    e'.AtRest where
  overlays := by
    have hlength := h.length_overlays
    rw [he.overlays] at hlength
    exact List.eq_nil_of_length_eq_zero hlength
  current := h.current.trans he.current
  renderDepth := h.renderDepth.trans he.renderDepth
  isPlaying := by
    have hnot : ¬ e'.isPlaying = true := by
      intro hp
      have hbefore := h.playing hp
      rw [he.isPlaying] at hbefore
      cases hbefore
    exact Bool.eq_false_of_not_eq_true hnot
  repeatTimer := by
    rcases h.repeatTimer with heq | hnone
    · exact heq.trans he.repeatTimer
    · exact hnone

namespace Played

variable {config : Config} {host : σ} {e : Engine Empty σ}

theorem registry (h : Played config host e) : e.registry = Registry.ofBuiltins .builtin := by
  induction h with
  | start => rfl
  | call before call hrun hr ih =>
      have hframe := Engine.Frame.carried.hostCall (.ofRegistry ih) (fun _ _ _ => trivial) hrun hr
      exact hframe.2.registry.trans ih

theorem standsIn (h : Played config host e) : e.StandsIn { context := e.current } :=
  .ofRegistry h.registry

theorem config_eq (h : Played config host e) : e.config = config := by
  induction h with
  | start => rfl
  | call before call hrun hr ih =>
      have hframe := Engine.Frame.carried.hostCall before.standsIn (fun _ _ _ => trivial) hrun hr
      exact hframe.2.config.trans ih

theorem atRest (h : Played config host e) : e.AtRest := by
  induction h with
  | start => exact ⟨rfl, rfl, rfl, rfl, rfl⟩
  | call before call hrun hr ih =>
      exact ih.ofFrame
        (Engine.Frame.carried.hostCall before.standsIn (fun _ _ _ => trivial) hrun hr).2

end Played

/-! ### Quiescence -/

/-- Between calls of the host nothing is under way, and renders are balanced. -/
theorem quiescent_and_balanced (config : Config) (host : σ) :
    (∀ e : Engine Empty σ, Played config host e →
      e.state.overlays = [] ∧ e.current = none ∧ e.renderDepth = 0 ∧ e.isPlaying = false ∧
        e.repeatTimer = none) ∧
    (∀ (e e' : Engine Empty σ) (n : Nat) (out : OutputId) (source : String) (r : Except Halt Unit),
      e.registry = Registry.ofBuiltins .builtin →
      perform Host.idle n (.render out source) e = (r, e') → Returned r →
      e'.state.shape = e.state.shape ∧ e'.current = e.current ∧ e'.renderDepth = e.renderDepth) ∧
    ∀ e : Engine Empty σ, e.renderDepth ≤ e.config.maxRenderDepth := by
  refine ⟨fun e he => ?_, fun e e' n out source r hregistry h hr => ?_, fun e => e.renderDepth_le⟩
  · have hrest := he.atRest
    exact ⟨hrest.overlays, hrest.current, hrest.renderDepth, hrest.isPlaying, hrest.repeatTimer⟩
  · have hframe := Engine.Frame.ofPerform hregistry h hr
    exact ⟨hframe.shape, hframe.current, hframe.renderDepth⟩

/-- A render that captures a variable and has an error inside leaves no overlay. -/
theorem quiescent_after_capture :
    let e := (perform Host.idle 20 (.render ⟨0⟩ "<<capture _x>>a<<stop>><</capture>>")
      (Engine.ofConfig {} ())).2
    e.state.overlays = [] ∧ e.current = none ∧ e.renderDepth = 0 ∧ e.isPlaying = false ∧
      e.repeatTimer = none := by
  refine (quiescent_and_balanced {} ()).1 _ (.call .start (.render _ _) (n := 20) rfl ?_)
  decide +kernel

end StoryEngine
