import StoryEngine.Proofs.Engine.Following
import StoryEngine.Proofs.Play.LoopControl
/-!
# StoryEngine.Proofs.Play.Arrival

The way to a passage (`Arrives`). The host sets out for it by itself or by the click of an element
that leads there, and when it has arrived, nothing of the engine in which it set out is left
(`Arrives.follows`): what could be clicked and the texts in the queue are dropped at once, and the
passages show nothing when the new one begins to be rendered, since those who listen to that only
cancel what is under way (`Engine.Clears`).
-/

namespace StoryEngine

variable {σ : Type}

/-! ### Setting out -/

/-- Render the contents of an element that was clicked for what they do. -/
def runContents (p : Perform Empty σ) (id : HandlerId) (handler : ShadowHandler Empty) :
    Run Empty σ Unit :=
  if handler.callback.isSome then
    runShadowed id (runPart? (runCallback Host.idle p) .nothing handler.callback)
  else pure ()

/-- The host goes to a passage and arrives there: `m` is the engine in which it sets out and `e` the
one in which it has arrived. -/
inductive Arrives (config : Config) (host : σ) : Engine Empty σ → Engine Empty σ → Prop
  /-- The host goes there by itself. -/
  | navigate {m e : Engine Empty σ} (before : Played config host m) (title : String) {n : Nat}
      (h : perform Host.idle n (.navigate title) m = (.ok (), e)) : Arrives config host m e
  /-- The host clicks an element that leads there. First the contents of the element are rendered
  for what they do. -/
  | click {e₀ m e : Engine Empty σ} (before : Played config host e₀) (title : String) {n : Nat}
      {element : ElementId} {k : Clickable} {others : List Clickable}
      {handler : ShadowHandler Empty}
      (hclick : takeClickable? element e₀.clickables = some (k, others))
      (hhandler : e₀.handlers[k.handler.index]? = some handler)
      (hdone : handler.done = some (.goTo title))
      (hcontents : runContents (perform Host.idle n) k.handler handler
        { e₀ with clickables := if k.once then others else e₀.clickables } = (.ok (), m))
      (h : perform Host.idle n (.navigate title) m = (.ok (), e)) : Arrives config host m e

/-! ### Beginning a turn -/

/-- Some timers are cancelled, and some listeners are gone. -/
def Engine.Clears (e e' : Engine Empty σ) : Prop :=
  ∃ clock repeats chains listeners, e.clock.Lasts clock ∧
    e' = { e with
      clock := clock
      repeatTimers := repeats
      timedTimers := chains
      listeners := listeners }

theorem Engine.Clears.trans {e e₁ e' : Engine Empty σ} (h : e.Clears e₁) (h₁ : e₁.Clears e') :
    e.Clears e' := by
  obtain ⟨clock₁, repeats₁, chains₁, listeners₁, hclock₁, rfl⟩ := h
  obtain ⟨clock, repeats, chains, listeners, hclock, rfl⟩ := h₁
  exact ⟨clock, repeats, chains, listeners, hclock₁.trans hclock, rfl⟩

theorem Engine.Clears.of_listeners (e : Engine Empty σ)
    (listeners : List (Listener (ListenerAction Empty))) :
    e.Clears { e with listeners := listeners } :=
  ⟨e.clock, e.repeatTimers, e.timedTimers, listeners, .refl _, rfl⟩

theorem Engine.Clears.lasts {e e' : Engine Empty σ} (h : e.Clears e') : e.Lasts e' := by
  obtain ⟨clock, repeats, chains, listeners, hclock, rfl⟩ := h
  exact { Engine.Lasts.of_clock hclock with }

/-- A listener that waits for a passage to begin only cancels something. -/
theorem runListener_clears {action : ListenerAction Empty} (h : action.event = .passageInit)
    (p : Perform Empty σ) (detail : String) (e : Engine Empty σ) :
    ∃ e', runListener Host.idle p detail action e = (.ok (), e') ∧ e.Clears e' := by
  cases action with
  | clearRepeats => exact ⟨_, rfl, _, _, _, _, .clearTimers _ e.repeatTimers, rfl⟩
  | clearTimed => exact ⟨_, rfl, _, _, _, _, .clearTimers _ e.timedTimers, rfl⟩
  | dropTyping => exact ⟨_, rfl, .of_listeners _ _⟩
  | startTyping => cases h
  | skipTyping typing => cases h
  | nextTyping => cases h
  | host procedure => exact procedure.elim

theorem callListeners_clears {actions : List (ListenerAction Empty)}
    (h : ∀ action ∈ actions, action.event = .passageInit) (p : Perform Empty σ) (detail : String)
    (e : Engine Empty σ) :
    ∃ e', callListeners Host.idle p detail actions e = (.ok (), e') ∧ e.Clears e' := by
  induction actions generalizing e with
  | nil => exact ⟨e, rfl, .of_listeners e e.listeners⟩
  | cons action rest ih =>
      obtain ⟨e₁, hrun, hclears⟩ := runListener_clears (h action List.mem_cons_self) p detail e
      obtain ⟨e', hrest, hclears'⟩ := ih (fun other hother => h other (.tail _ hother)) e₁
      exact ⟨e', (Run.bind_of_ok (Run.reporting_of_ok hrun)).trans hrest, hclears.trans hclears'⟩

/-- Before a passage is rendered, only timers and listeners go. -/
theorem trigger_clears {e e' : Engine Empty σ} (he : e.Sound) {n : Nat} {detail : String}
    {r : Except Halt Unit} (h : perform Host.idle n (.trigger .passageInit detail) e = (r, e'))
    (hr : Returned r) : e.Clears e' := by
  cases n with
  | zero => cases h; exact (hr rfl).elim
  | succ n =>
      have hactions : ∀ action ∈ (Listener.take e.listeners .passageInit).1,
          action.event = .passageInit := by
        intro action haction
        obtain ⟨l, hl, rfl⟩ := List.mem_map.mp haction
        obtain ⟨hmem, hevent⟩ := List.mem_filter.mp hl
        exact (he.listeners l hmem).symm.trans (of_decide_eq_true hevent)
      obtain ⟨e₁, hrun, hclears⟩ := callListeners_clears hactions (perform Host.idle n) detail
        { e with listeners := (Listener.take e.listeners .passageInit).2 }
      have htrigger : perform Host.idle (n + 1) (.trigger .passageInit detail) e = (.ok (), e₁) :=
        hrun
      rw [htrigger] at h
      cases h
      exact (Engine.Clears.of_listeners _ _).trans hclears

/-- With nothing displayed for passages, a tree is parted by what there is in it. -/
theorem Engine.Dated.parted_clear {e : Engine Empty σ} (he : e.Dated) :
    (e.tree.clear e.display).Parted e.mark.extent e.display where
  extent := ⟨Nat.le_of_eq Array.size_modify.symm, Nat.le_refl _, Nat.le_refl _⟩
  nodes out hout node hnode := by
    have hempty : (e.tree.clear e.display).nodes out = [] := by
      rcases hout with hrecent | rfl
      · exact Tree.nodes_of_size_le (Nat.le_trans (Nat.le_of_eq Array.size_modify) hrecent)
      · exact Tree.nodes_clear e.tree e.display
    rw [hempty] at hnode
    cases hnode
  content id el hel := by
    have hold : id.index < e.tree.elements.size := (Array.getElem?_eq_some_iff.mp hel).1
    obtain ⟨hmade, hapart⟩ := he.content id el hel
    refine iff_of_false ?_ (Nat.not_le.mpr hold)
    rintro (hrecent | heq)
    · exact Nat.not_le.mpr hmade hrecent
    · exact hapart heq
  inside id v hv hid := by
    have hold : id.index < e.tree.views.size := (Array.getElem?_eq_some_iff.mp hv).1
    exact (Nat.not_le.mpr hold hid).elim

/-- When a passage begins to be rendered, nothing is left of the engine in which the host set
out. -/
theorem Engine.Clears.follows {m e : Engine Empty σ} {title : String}
    (h : (m.beginTurn title).Clears e) (hm : m.Dated)
    (hregistry : m.registry = Registry.ofBuiltins .builtin) :
    m.Follows { context := m.current, mark := m.mark } e.beginShow := by
  have hlasts : m.Lasts e.beginShow := { (Engine.Lasts.ofMove (.turn title)).trans h.lasts with }
  obtain ⟨clock, repeats, chains, listeners, hclock, rfl⟩ := h
  refine ⟨⟨rfl, hregistry, ?_, Nat.zero_le _⟩, rfl, hlasts⟩
  refine ⟨hm.parted_clear, Nat.le_refl _, Nat.le_refl _, nofun, nofun, fun k hk => ?_,
    fun t ht hrecent => ?_, fun timer' htimer' => ?_⟩
  · exact .inl (Nat.lt_succ_of_le (hm.chains k hk))
  · exact (Nat.not_le.mpr (hm.typings t ht).2.1 hrecent).elim
  · obtain ⟨timer, htimer, -, -, haction⟩ := hclock.timers timer' htimer'
    have hknows := (hm.timers timer htimer).2.1
    rw [haction]
    cases htick : timer.action with
    | repeatTick handler moment =>
        rw [htick] at hknows
        exact .inl (Nat.lt_succ_of_le hknows)
    | _ => trivial

/-! ### Arriving -/

/-- When the host has arrived at a passage, nothing is left of the engine in which it set out. -/
theorem follows_of_navigate {m e : Engine Empty σ}
    (hregistry : m.registry = Registry.ofBuiltins .builtin) (hsound : m.Sound) (hm : m.Dated)
    {title : String} {n : Nat} (h : perform Host.idle n (.navigate title) m = (.ok (), e)) :
    m.Follows { context := m.current, mark := m.mark } e := by
  cases n with
  | zero => cases h
  | succ n =>
      have hp := Engine.Lasts.carried.performs (σ := σ) n
      change StoryEngine.navigate (perform Host.idle n) title m = (.ok (), e) at h
      rw [StoryEngine.navigate, Run.get_bind_apply] at h
      cases hfind : Entries.find? title m.passages with
      | none => rw [hfind] at h; cases h
      | some source =>
          rw [hfind] at h
          dsimp only at h
          rw [Run.modify_bind_apply] at h
          obtain ⟨u, e₁, hinit, h⟩ := Run.bind_eq_ok h
          obtain ⟨u, e₂, hshow, hend⟩ := Run.bind_eq_ok h
          have hclears := trigger_clears (hsound.ofMove (.turn title)) hinit (returned_ok _)
          have hbegun := hclears.follows hm hregistry
          rw [showPassage_apply] at hshow
          obtain ⟨u, e₃, hrender, hdone⟩ := Run.bind_eq_ok hshow
          cases hdone
          have hrendered := hbegun.leads (hp.free hbegun.standsIn hrender (returned_ok _) trivial)
          have hshown : m.Follows { context := m.current, mark := m.mark }
              { e₃ with isPlaying := false } :=
            ⟨hrendered.standsIn.endShow, rfl, { hrendered.lasts with }⟩
          exact hshown.leads (hp.free hshown.standsIn hend (returned_ok _) trivial)

namespace Played

variable {config : Config} {host : σ} {e : Engine Empty σ}

/-- What is put off between the calls of the host is dated. -/
theorem dated (h : Played config host e) : e.Dated := by
  induction h with
  | start =>
      refine ⟨Nat.zero_lt_one, fun id el hel => ?_, nofun, nofun, nofun, nofun⟩
      cases hel
  | call before call hrun hr ih =>
      exact (Engine.Dated.carried.hostCall before.standsIn (fun _ _ _ => trivial) hrun hr).2 ih

end Played

namespace Arrives

variable {config : Config} {host : σ} {m e : Engine Empty σ}

/-- What the contents of an element that is clicked leave is related to what was there. -/
theorem runContents_leads {R : Place → Engine Empty σ → Engine Empty σ → Prop}
    {Ok : Engine Empty σ → HandlerId → Prop} (hR : Carried R Ok) {place : Place} {n : Nat}
    {id : HandlerId} {handler : ShadowHandler Empty} {r : Except Halt Unit} (he : e.StandsIn place)
    (hok : Ok e id) (hhandler : e.handlers[id.index]? = some handler)
    (h : runContents (perform Host.idle n) id handler e = (r, m)) (hr : Returned r) :
    Carried.Leads R place e m := by
  unfold runContents at h
  split at h
  · exact hR.runShadowed (hR.performs n) hok hhandler (hR.leads_refl he) h hr
  · cases h
    exact hR.leads_refl he

/-- The engine in which the host sets out is sound and dated. -/
theorem before (h : Arrives config host m e) :
    m.registry = Registry.ofBuiltins .builtin ∧ m.Sound ∧ m.Dated := by
  cases h with
  | navigate before => exact ⟨before.registry, before.sound, before.dated⟩
  | @click e₀ _ _ before title n element k others handler hclick hhandler hdone hcontents h =>
      obtain ⟨hk, hothers⟩ := takeClickable?_mem hclick
      have hmove : Move e₀ { e₀ with
          clickables := if k.once then others else e₀.clickables } := by
        refine .unclick ?_
        split
        · exact hothers
        · exact List.Subset.refl _
      have hstands := hmove.standsIn before.standsIn
      have hmay := Engine.mayInvoke_of_holds (fun _ => before.sound.clickables k hk)
        ShadowHandler.IsClick.not_isTick
      have hconfined := runContents_leads Engine.Confined.carried hstands (fun _ => hmay before.sound)
        hhandler hcontents (returned_ok _)
      have hdated := runContents_leads Engine.Dated.carried hstands trivial hhandler hcontents
        (returned_ok _)
      exact ⟨hconfined.1.registry, hconfined.2.sound (before.sound.ofMove hmove),
        hdated.2 (before.dated.ofMove hmove)⟩

/-- When the host has arrived, nothing is left of the engine in which it set out. -/
theorem follows (h : Arrives config host m e) :
    m.Follows { context := m.current, mark := m.mark } e := by
  obtain ⟨hregistry, hsound, hdated⟩ := h.before
  cases h with
  | navigate _ _ h => exact follows_of_navigate hregistry hsound hdated h
  | click _ _ _ _ _ _ h => exact follows_of_navigate hregistry hsound hdated h

/-- To arrive is a call of the host. -/
theorem played (h : Arrives config host m e) : Played config host e := by
  cases h with
  | navigate before title h => exact .call before (.navigate title) h (returned_ok _)
  | @click e₀ _ _ before title n element k others handler hclick hhandler hdone hcontents h =>
      have hstart : handler.start = none := by
        obtain ⟨other, hother, hkind⟩ := before.sound.clickables k (takeClickable?_mem hclick).1
        rw [hhandler] at hother
        cases hother
        exact hkind.start
      let taken : Engine Empty σ :=
        { e₀ with clickables := if k.once then others else e₀.clickables }
      let run : Option (Callback Empty) → Run Empty σ Unit :=
        runPart? (runCallback Host.idle (perform Host.idle n)) .nothing
      have hnone : run none taken = (.ok (), taken) := rfl
      have hinvoke : perform Host.idle (n + 1) (.invoke k.handler .nothing) taken = (.ok (), e) := by
        change invokeHandler (runCallback Host.idle (perform Host.idle n)) k.handler .nothing taken = _
        rw [invokeHandler, Run.get_bind_apply, hhandler]
        dsimp only
        rw [hstart, hdone, Run.bind_of_ok hnone]
        unfold runContents at hcontents
        split
        · rename_i hsome
          rw [if_pos hsome] at hcontents
          exact (Run.bind_of_ok hcontents).trans h
        · rename_i hsome
          rw [if_neg hsome] at hcontents
          cases hcontents
          exact h
      exact .call before (.click element) (HostCall.click_apply hclick hinvoke) (returned_ok _)

end Arrives

end StoryEngine
