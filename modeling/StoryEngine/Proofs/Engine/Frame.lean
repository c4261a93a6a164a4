import StoryEngine.Proofs.Engine.Carried
/-!
# StoryEngine.Proofs.Engine.Frame

What every piece of work leaves as it was (`Engine.Frame`): the context that is current, the number
of renders under way, the overlays in force and the names that each has cells for. No passage is
being rendered and no interval is ticking that was not before. This holds whether the work
comes to its end or fails, since every bracket is closed in both cases.
-/

namespace StoryEngine

variable {σ : Type}

/-! ### Overlays put in front and taken away -/

@[simp] theorem State.shape_push (s : State) (overlay : Overlay) :
    (s.push overlay).shape = overlay.names :: s.shape := rfl

theorem State.shape_dropOverlays (s : State) (depth : Nat) :
    (s.dropOverlays depth).shape = s.shape.drop (s.shape.length - depth) := by
  rw [State.length_shape]
  exact List.map_drop

/-- Dropping what is in front of a number of overlays leaves these. -/
theorem State.shape_dropOverlays_of_cons {s : State} {names : Set String}
    {shape : List (Set String)} {depth : Nat} (h : s.shape = names :: shape)
    (hdepth : depth = shape.length) : (s.dropOverlays depth).shape = shape := by
  rw [State.shape_dropOverlays, h, hdepth, List.length_cons, Nat.add_sub_cancel_left]
  rfl

/-! ### Handlers -/

/-- Handlers are kept, and only remember other values. -/
def Engine.KeepsHandlers (e e' : Engine Empty σ) : Prop :=
  ∀ (index : Nat) (h : ShadowHandler Empty), e.handlers[index]? = some h →
    ∃ store, e'.handlers[index]? = some { h with store := store }

namespace Engine.KeepsHandlers

variable {e e₁ e' : Engine Empty σ}

theorem of_eq (h : e'.handlers = e.handlers) : e.KeepsHandlers e' :=
  fun _ handler hh => ⟨handler.store, by rw [h]; exact hh⟩

theorem trans (h : e.KeepsHandlers e₁) (h₁ : e₁.KeepsHandlers e') : e.KeepsHandlers e' := by
  intro index handler hh
  obtain ⟨store, hs⟩ := h index handler hh
  obtain ⟨store', hs'⟩ := h₁ index _ hs
  exact ⟨store', hs'⟩

theorem of_push {handler : ShadowHandler Empty} (h : e'.handlers = e.handlers.push handler) :
    e.KeepsHandlers e' := by
  intro index other hother
  obtain ⟨hlt, -⟩ := Array.getElem?_eq_some_iff.mp hother
  refine ⟨other.store, ?_⟩
  rw [h, Array.getElem?_push, if_neg (Nat.ne_of_lt hlt)]
  exact hother

theorem of_modify {id : HandlerId} {overlay : Overlay}
    (h : e'.handlers = e.handlers.modify id.index fun h => { h with store := overlay }) :
    e.KeepsHandlers e' := by
  intro index handler hh
  rw [h, Array.getElem?_modify, hh]
  by_cases hi : id.index = index
  · rw [if_pos hi]
    exact ⟨overlay, rfl⟩
  · rw [if_neg hi]
    exact ⟨handler.store, rfl⟩

end Engine.KeepsHandlers

/-! ### The frame -/

/-- What any work leaves as it was. -/
structure Engine.Frame (e e' : Engine Empty σ) : Prop where
  config : e'.config = e.config
  registry : e'.registry = e.registry
  current : e'.current = e.current
  renderDepth : e'.renderDepth = e.renderDepth
  /-- The same overlays are in force, with cells for the same names. -/
  shape : e'.state.shape = e.state.shape
  handlers : e.KeepsHandlers e'
  playing : e'.isPlaying = true → e.isPlaying = true
  repeatTimer : e'.repeatTimer = e.repeatTimer ∨ e'.repeatTimer = none

namespace Engine.Frame

variable {e e₁ e' : Engine Empty σ} {place : Place}

theorem refl (e : Engine Empty σ) : e.Frame e :=
  ⟨rfl, rfl, rfl, rfl, rfl, .of_eq rfl, id, .inl rfl⟩

theorem trans (h : e.Frame e₁) (h₁ : e₁.Frame e') : e.Frame e' where
  config := h₁.config.trans h.config
  registry := h₁.registry.trans h.registry
  current := h₁.current.trans h.current
  renderDepth := h₁.renderDepth.trans h.renderDepth
  shape := h₁.shape.trans h.shape
  handlers := h.handlers.trans h₁.handlers
  playing hp := h.playing (h₁.playing hp)
  repeatTimer := by
    rcases h₁.repeatTimer with heq | hnone
    · rw [heq]
      exact h.repeatTimer
    · exact .inr hnone

theorem ofChange (h : Change place e e') : e.Frame e' := by
  cases h with
  | reassign hs => exact ⟨rfl, rfl, rfl, rfl, hs.shape, .of_eq rfl, id, .inl rfl⟩
  | handler h hplace => exact ⟨rfl, rfl, rfl, rfl, rfl, .of_push rfl, id, .inl rfl⟩
  | text h hplace hkind => exact ⟨rfl, rfl, rfl, rfl, rfl, .of_push rfl, id, .inl rfl⟩
  | _ => exact ⟨rfl, rfl, rfl, rfl, rfl, .of_eq rfl, id, .inl rfl⟩

theorem ofMove (h : Move e e') : e.Frame e' := by
  cases h with
  | turn title => exact ⟨rfl, rfl, rfl, rfl, rfl, .of_eq rfl, id, .inr rfl⟩
  | _ => exact ⟨rfl, rfl, rfl, rfl, rfl, .of_eq rfl, id, .inl rfl⟩

theorem length_overlays (h : e.Frame e') :
    e'.state.overlays.length = e.state.overlays.length := by
  rw [← State.length_shape, ← State.length_shape, h.shape]

/-- A handler's callback that is framed leaves its overlay in front of those that were there. -/
theorem leaveShadow_eq {h : ShadowHandler Empty} (hinner : (e.enterShadow h).Frame e')
    (id : HandlerId) :
    ∃ overlay outer, e'.state.overlays = overlay :: outer ∧
      outer.map Overlay.names = e.state.shape ∧
      e'.leaveShadow id e.state.overlays.length e.current =
        { e' with
          current := e.current
          state := { e'.state with overlays := outer }
          handlers := e'.handlers.modify id.index fun h => { h with store := overlay } } := by
  have hlength : e'.state.overlays.length = e.state.overlays.length + 1 := hinner.length_overlays
  obtain ⟨overlay, outer, houter⟩ := List.exists_cons_of_length_eq_add_one hlength
  have hdepth : e.state.overlays.length = outer.length := by
    rw [houter, List.length_cons] at hlength
    exact (Nat.succ.inj hlength).symm
  have hshape : outer.map Overlay.names = e.state.shape := by
    have hall := hinner.shape
    unfold State.shape at hall
    rw [houter] at hall
    exact (List.cons.inj hall).2
  exact ⟨overlay, outer, houter, hshape, Engine.leaveShadow_of_cons houter hdepth id e.current⟩

/-- What a handler's callback does when everything within it is framed. -/
theorem leaveShadow {h : ShadowHandler Empty} (hinner : (e.enterShadow h).Frame e')
    (id : HandlerId) : e.Frame (e'.leaveShadow id e.state.overlays.length e.current) := by
  obtain ⟨overlay, outer, -, hshape, heq⟩ := hinner.leaveShadow_eq id
  rw [heq]
  exact ⟨hinner.config, hinner.registry, rfl, hinner.renderDepth, hshape,
    hinner.handlers.trans (.of_modify rfl), hinner.playing, hinner.repeatTimer⟩

theorem call {context : Context Empty}
    (h : Engine.Frame { e with current := some context } e') :
    e.Frame { e' with current := e.current } :=
  ⟨h.config, h.registry, rfl, h.renderDepth, h.shape, h.handlers, h.playing, h.repeatTimer⟩

theorem overlay {overlay : Overlay}
    (h : Engine.Frame { e with state := e.state.push overlay } e') :
    e.Frame { e' with state := e'.state.dropOverlays e.state.overlays.length } :=
  ⟨h.config, h.registry, h.current, h.renderDepth,
    State.shape_dropOverlays_of_cons h.shape (State.length_shape _).symm, h.handlers, h.playing,
    h.repeatTimer⟩

theorem deeper {hlt : e.renderDepth < e.config.maxRenderDepth} (h : (e.descend hlt).Frame e') :
    e.Frame e'.ascend :=
  ⟨h.config, h.registry, h.current, congrArg (· - 1) h.renderDepth, h.shape, h.handlers,
    h.playing, h.repeatTimer⟩

theorem tick {timer : TimerId}
    (h : Engine.Frame { e with loopBreak := none, repeatTimer := some timer } e') :
    e.Frame { e' with repeatTimer := e.repeatTimer, loopBreak := none } :=
  ⟨h.config, h.registry, h.current, h.renderDepth, h.shape, h.handlers, h.playing, .inl rfl⟩

theorem shown (h : e.beginShow.Frame e') : e.Frame { e' with isPlaying := false } :=
  ⟨h.config, h.registry, h.current, h.renderDepth, h.shape, h.handlers, nofun, h.repeatTimer⟩

/-- All work is framed. -/
theorem carried : @Carried σ (fun _ => Engine.Frame) (fun _ _ => True) where
  refl _ := refl
  trans := trans
  change := ofChange
  move := ofMove
  forget := id
  call _ _ := call
  overlay _ := overlay
  deeper _ := deeper
  tick _ := tick
  shown := shown
  shadow _ _ hfirst _ h := hfirst.trans (h.leaveShadow _)
  due _ := trivial
  ticking _ := trivial

/-- A task that returns is framed. -/
theorem ofPerform {n : Nat} {t : Task} {r : Except Halt Unit}
    (hregistry : e.registry = Registry.ofBuiltins .builtin) (h : perform Host.idle n t e = (r, e'))
    (hr : Returned r) : e.Frame e' :=
  ((carried.performs n).related (.ofRegistry hregistry) (fun _ _ _ => trivial) h hr).2

end Engine.Frame

end StoryEngine
