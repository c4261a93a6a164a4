import StoryEngine.Proofs.Engine.Frame
/-!
# StoryEngine.Proofs.Engine.Sound

What is registered for later is of the right kind (`Engine.Sound`): listeners wait for the event
that is right for what they do, elements that can be clicked have the handlers of links, chains
those of chains, and the texts of the queue those of the texts with their identities. Whatever is
done to a sound engine, it stays sound.

That is why the wish to leave a loop does not get out of hand as easily as it might: a handler is
only invoked for an interval while the interval ticks (`Engine.MayInvoke`).
-/

namespace StoryEngine

variable {σ : Type}

/-! ### Kinds of handlers -/

namespace ShadowHandler

variable {h : ShadowHandler Empty}

theorem IsClick.withStore (hc : h.IsClick) (store : Overlay) : { h with store := store }.IsClick :=
  ⟨hc.start, hc.callback, hc.done⟩

theorem IsItem.withStore (hi : h.IsItem) (store : Overlay) : { h with store := store }.IsItem :=
  ⟨hi.start, hi.callback, hi.done⟩

theorem IsText.withStore {id : Nat} (hx : h.IsText id) (store : Overlay) :
    { h with store := store }.IsText id :=
  ⟨hx.start, hx.callback, hx.done⟩

end ShadowHandler

/-- A handler keeps what does not depend on the values it remembers. -/
theorem Engine.Holds.mono {e e' : Engine Empty σ} {id : HandlerId}
    {P : ShadowHandler Empty → Prop} (h : e.Holds id P) (hkeeps : e.KeepsHandlers e')
    (hP : ∀ {handler}, P handler → ∀ store, P { handler with store := store }) :
    e'.Holds id P := by
  obtain ⟨handler, hh, hhandler⟩ := h
  obtain ⟨store, hs⟩ := hkeeps id.index handler hh
  exact ⟨_, hs, hP hhandler store⟩

/-! ### Soundness -/

/-- What is registered for later is of the right kind. -/
structure Engine.Sound (e : Engine Empty σ) : Prop where
  listeners : ∀ l ∈ e.listeners, l.Fits
  clickables : ∀ k ∈ e.clickables, e.Holds k.handler ShadowHandler.IsClick
  chains : ∀ k ∈ e.chains, e.Holds k.handler ShadowHandler.IsItem
  texts : ∀ job ∈ e.texts, e.Holds job.handler (ShadowHandler.IsText job.id)

/-- What is registered for later. -/
def Engine.registered (e : Engine Empty σ) :
    Array (ShadowHandler Empty) × List (Listener (ListenerAction Empty)) × List Clickable ×
      Array TimedChain × List TypeJob :=
  (e.handlers, e.listeners, e.clickables, e.chains, e.texts)

namespace Engine.Sound

variable {e e' : Engine Empty σ} {place : Place}

/-- Other handlers do not matter, nor other values that they remember. -/
theorem ofHandlers (he : e.Sound) (hkeeps : e.KeepsHandlers e')
    (hlisteners : e'.listeners = e.listeners) (hclickables : e'.clickables = e.clickables)
    (hchains : e'.chains = e.chains) (htexts : e'.texts = e.texts) : e'.Sound where
  listeners := hlisteners ▸ he.listeners
  clickables k hk :=
    (he.clickables k (hclickables ▸ hk)).mono hkeeps ShadowHandler.IsClick.withStore
  chains k hk := (he.chains k (hchains ▸ hk)).mono hkeeps ShadowHandler.IsItem.withStore
  texts job hjob := (he.texts job (htexts ▸ hjob)).mono hkeeps ShadowHandler.IsText.withStore

/-- Only what is registered matters. -/
theorem congr (he : e.Sound) (h : e'.registered = e.registered) : e'.Sound := by
  simp only [Engine.registered, Prod.mk.injEq] at h
  obtain ⟨hhandlers, hlisteners, hclickables, hchains, htexts⟩ := h
  exact he.ofHandlers (.of_eq hhandlers) hlisteners hclickables hchains htexts

theorem ofChange (he : e.Sound) (h : Change place e e') : e'.Sound := by
  cases h with
  | handler h hplace => exact he.ofHandlers (.of_push rfl) rfl rfl rfl rfl
  | text h hplace hkind =>
      have hkeeps : e.KeepsHandlers { e with handlers := e.handlers.push h } := .of_push rfl
      have hpushed := he.ofHandlers hkeeps rfl rfl rfl rfl
      refine ⟨hpushed.listeners, hpushed.clickables, hpushed.chains, fun job hjob => ?_⟩
      rcases List.mem_append.mp hjob with hold | hnew
      · exact hpushed.texts job hold
      · cases List.mem_singleton.mp hnew
        exact ⟨h, Array.getElem?_push_size, hkind⟩
  | clickable k hk hhandler helement hthere =>
      refine ⟨he.listeners, fun other hother => ?_, he.chains, he.texts⟩
      rcases List.mem_append.mp hother with hold | hnew
      · exact he.clickables other hold
      · cases List.mem_singleton.mp hnew
        exact hk
  | chain k hk hhandler hnow _ =>
      refine ⟨he.listeners, he.clickables, fun other hother => ?_, he.texts⟩
      rcases Array.mem_push.mp hother with hold | rfl
      · exact he.chains other hold
      · exact hk
  | chainItems index items _ =>
      refine ⟨he.listeners, he.clickables, fun other hother => ?_, he.texts⟩
      change other ∈ e.chains.modify index fun k => { k with items := items } at hother
      rcases exists_of_mem_modify hother with ⟨k, hk, rfl | ⟨-, rfl⟩⟩
      · exact he.chains other hk
      · exact he.chains k hk
  | listen l hl =>
      refine ⟨fun other hother => ?_, he.clickables, he.chains, he.texts⟩
      rcases List.mem_append.mp hother with hold | hnew
      · exact he.listeners other hold
      · cases List.mem_singleton.mp hnew
        exact hl
  | unlisten keep =>
      exact ⟨fun l hl => he.listeners l (List.mem_filter.mp hl).1, he.clickables, he.chains,
        he.texts⟩
  | _ => exact ⟨he.listeners, he.clickables, he.chains, he.texts⟩

theorem ofMove (he : e.Sound) (h : Move e e') : e'.Sound := by
  cases h with
  | dequeue h =>
      exact ⟨he.listeners, he.clickables, he.chains, fun job hjob =>
        he.texts job (h.subset hjob)⟩
  | unclick h => exact ⟨he.listeners, fun k hk => he.clickables k (h hk), he.chains, he.texts⟩
  | turn title => exact ⟨he.listeners, nofun, he.chains, nofun⟩
  | _ => exact ⟨he.listeners, he.clickables, he.chains, he.texts⟩

end Engine.Sound

/-- A handler is invoked for an interval only while an interval ticks, if the engine is sound. -/
def Engine.MayInvoke (e : Engine Empty σ) (id : HandlerId) : Prop :=
  e.Sound → ∀ h, e.handlers[id.index]? = some h → h.IsTick → e.repeatTimer.isSome = true

theorem Engine.mayInvoke_of_holds {e : Engine Empty σ} {id : HandlerId}
    {P : ShadowHandler Empty → Prop} (hholds : e.Sound → e.Holds id P)
    (hP : ∀ {h}, P h → ¬ h.IsTick) : e.MayInvoke id := by
  intro he h hh htick
  obtain ⟨handler, hhandler, hkind⟩ := hholds he
  rw [hh] at hhandler
  cases hhandler
  exact (hP hkind htick).elim

theorem Engine.mayInvoke_of_due {e : Engine Empty σ} {id : HandlerId} (h : e.Due id) :
    e.MayInvoke id := by
  cases h with
  | @text job rest hqueue =>
      have hjob : job ∈ e.texts := by
        unfold Engine.texts
        rw [hqueue]
        exact List.mem_cons_self
      exact mayInvoke_of_holds (fun he => he.texts job hjob) ShadowHandler.IsText.not_isTick
  | item hchain hnow =>
      exact mayInvoke_of_holds (fun he => he.chains _ (Array.mem_of_getElem? hchain))
        ShadowHandler.IsItem.not_isTick

end StoryEngine
