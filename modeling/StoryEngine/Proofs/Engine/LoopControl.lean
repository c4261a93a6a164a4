import StoryEngine.Proofs.Engine.Sound
/-!
# StoryEngine.Proofs.Engine.LoopControl

Where the wish to leave a loop comes from (`Engine.Confined`). Work only leaves such a wish behind
if there was one before, or if it was done in a loop, or while an interval ticked. For what a call
does at once that is all there is to it, since a loop takes back the wish when it ends. A handler
that was made in a loop keeps the context of the call that made it, and by that it stands in a loop
whenever it is invoked, long after the loop has ended. A tick takes the wish back as a loop does;
the other kinds of handlers do not, so that the statement is about engines in which none of them
was made in a loop.
-/

namespace StoryEngine

variable {σ : Type}

/-- No handler was made in a loop, but for those of intervals. -/
def Engine.DefersOutsideLoops (e : Engine Empty σ) : Prop :=
  ∀ (index : Nat) (h : ShadowHandler Empty), e.handlers[index]? = some h → ¬ h.IsTick →
    areInLoop h.context.calls = false

theorem Engine.DefersOutsideLoops.before {e e' : Engine Empty σ} (he' : e'.DefersOutsideLoops)
    (hkeeps : e.KeepsHandlers e') : e.DefersOutsideLoops := by
  intro index h hh htick
  obtain ⟨store, hs⟩ := hkeeps index h hh
  exact he' index { h with store := store } hs htick

/-- A loop is being left, or might be by what is done in the place. -/
def Engine.MightLeave (e : Engine Empty σ) (place : Place) : Prop :=
  e.loopBreak.isSome = true ∨ areInLoop place.calls = true ∨ e.repeatTimer.isSome = true

/-- The work neither breaks the engine nor leaves a wish behind that has nothing to do with it. -/
structure Engine.Confined (place : Place) (e e' : Engine Empty σ) : Prop where
  frame : e.Frame e'
  sound : e.Sound → e'.Sound
  wish : e.Sound → e'.DefersOutsideLoops → e'.loopBreak.isSome = true → e.MightLeave place

namespace Engine.Confined

variable {place : Place} {e e₁ e' : Engine Empty σ}

theorem refl (place : Place) (e : Engine Empty σ) : e.Confined place e :=
  ⟨.refl e, id, fun _ _ h => .inl h⟩

theorem isSome_repeatTimer (h : e.Frame e') (htimer : e'.repeatTimer.isSome = true) :
    e.repeatTimer.isSome = true := by
  rcases h.repeatTimer with heq | hnone
  · rw [← heq]
    exact htimer
  · rw [hnone] at htimer
    cases htimer

/-- What might be left after some work could be left before it. -/
theorem mightLeave (h : e.Confined place e') (he : e.Sound) (hdefers : e'.DefersOutsideLoops)
    (hmight : e'.MightLeave place) : e.MightLeave place := by
  rcases hmight with hwish | hplace | htimer
  · exact h.wish he hdefers hwish
  · exact .inr (.inl hplace)
  · exact .inr (.inr (isSome_repeatTimer h.frame htimer))

theorem trans (h : e.Confined place e₁) (h₁ : e₁.Confined place e') : e.Confined place e' where
  frame := h.frame.trans h₁.frame
  sound he := h₁.sound (h.sound he)
  wish he hdefers hwish :=
    h.mightLeave he (hdefers.before h₁.frame.handlers) (h₁.wish (h.sound he) hdefers hwish)

theorem ofChange (h : Change place e e') : e.Confined place e' where
  frame := .ofChange h
  sound he := he.ofChange h
  wish _ _ hwish := by
    cases h with
    | wish w h => exact .inr h
    | noWish => cases hwish
    | _ => exact .inl hwish

theorem ofMove (h : Move e e') : e.Confined place e' where
  frame := .ofMove h
  sound he := he.ofMove h
  wish _ _ hwish := by
    cases h with
    | turn title => cases hwish
    | _ => exact .inl hwish

theorem forget {id : ElementId} (h : Engine.Confined (place.knowing id) e e') :
    e.Confined place e' :=
  ⟨h.frame, h.sound, h.wish⟩

/-- A call leaves no wish behind if it is a loop, and otherwise stands in a loop only if its place
does. -/
theorem call {context : Context Empty} (houter : context.outer = place.calls)
    (hfor : context.call.name = "for" → e'.loopBreak = none)
    (h : Engine.Confined (place.within context) { e with current := some context } e') :
    e.Confined place { e' with current := e.current } where
  frame := h.frame.call
  sound he := (h.sound (he.congr rfl)).congr rfl
  wish he hdefers hwish := by
    rcases h.wish (he.congr rfl) hdefers hwish with hbefore | hplace | htimer
    · exact .inl hbefore
    · have hcalls : areInLoop (context.call :: place.calls) = true := houter ▸ hplace
      rw [areInLoop, List.any_cons, Bool.or_eq_true, beq_iff_eq] at hcalls
      rcases hcalls with hname | houtside
      · rw [hfor hname] at hwish
        cases hwish
      · exact .inr (.inl houtside)
    · exact .inr (.inr htimer)

/-- The callback of a handler does not stand in a loop unless it belongs to an interval, and then
the interval ticks. -/
theorem shadow {id : HandlerId} {h₀ h : ShadowHandler Empty} (hok : e.MayInvoke id)
    (hh₀ : e.handlers[id.index]? = some h₀) (hfirst : e.Confined place e₁)
    (hh : e₁.handlers[id.index]? = some h)
    (hinner : Engine.Confined (place.within h.context) (e₁.enterShadow h) e') :
    e.Confined place (e'.leaveShadow id e₁.state.overlays.length e₁.current) := by
  have hframe := hfirst.frame.trans (hinner.frame.leaveShadow id)
  obtain ⟨overlay, outer, -, -, heq⟩ := hinner.frame.leaveShadow_eq id
  rw [heq] at hframe ⊢
  have hkeeps : e'.KeepsHandlers { e' with
      current := e₁.current
      state := { e'.state with overlays := outer }
      handlers := e'.handlers.modify id.index fun h => { h with store := overlay } } :=
    .of_modify rfl
  have henter (he : e.Sound) : (e₁.enterShadow h).Sound := (hfirst.sound he).congr rfl
  refine ⟨hframe, fun he => ?_, fun he hdefers hwish => ?_⟩
  · exact (hinner.sound (henter he)).ofHandlers hkeeps rfl rfl rfl rfl
  · have hdefers' := hdefers.before hkeeps
    have hdefers₁ : e₁.DefersOutsideLoops := hdefers'.before hinner.frame.handlers
    rcases hinner.wish (henter he) hdefers' hwish with hbefore | hplace | htimer
    · exact hfirst.wish he hdefers₁ hbefore
    · by_cases htick : h.IsTick
      · -- the handler belonged to an interval when it could be invoked, too
        obtain ⟨store, hs⟩ := hfirst.frame.handlers id.index h₀ hh₀
        rw [hh] at hs
        cases hs
        exact .inr (.inr (hok he h₀ hh₀ htick))
      · have houtside : areInLoop (place.within h.context).calls = false :=
          hdefers₁ id.index h hh htick
        rw [houtside] at hplace
        cases hplace
    · exact .inr (.inr (isSome_repeatTimer hfirst.frame htimer))

/-- All work is confined. -/
theorem carried : @Carried σ Engine.Confined Engine.MayInvoke where
  refl := refl
  trans := trans
  change := ofChange
  move := ofMove
  forget := forget
  call := call
  overlay _ h :=
    ⟨h.frame.overlay, fun he => (h.sound (he.congr rfl)).congr rfl,
      fun he => h.wish (he.congr rfl)⟩
  deeper _ h :=
    ⟨h.frame.deeper, fun he => (h.sound (he.congr rfl)).congr rfl,
      fun he => h.wish (he.congr rfl)⟩
  tick _ h :=
    ⟨h.frame.tick, fun he => (h.sound (he.congr rfl)).congr rfl,
      fun _ _ hwish => by cases hwish⟩
  shown h :=
    ⟨h.frame.shown, fun he => (h.sound (he.congr rfl)).congr rfl,
      fun he => h.wish (he.congr rfl)⟩
  shadow hok hh₀ hfirst hh hinner := shadow hok hh₀ hfirst hh hinner
  due := Engine.mayInvoke_of_due
  ticking htimer _ _ _ _ := htimer

end Engine.Confined

end StoryEngine
