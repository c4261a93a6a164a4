import StoryEngine.Proofs.Engine.MadeTasks
import StoryEngine.Proofs.Engine.Shadow
import StoryEngine.Proofs.Engine.Sure
/-!
# StoryEngine.Proofs.Engine.Carried

What every run keeps. `Carried R Ok` lists what a relation `R` between the engine before and after
some work in a place needs, so that all work that returns is related: one fact for single changes
and one for each bracket. `Carried.perform` is the induction over the structure of work and over
the fuel that follows from it, and is done here once for all such relations.

`Ok e id` says that a handler may be invoked, where a relation does not hold for all handlers.
-/

namespace StoryEngine

variable {σ : Type}

/-! ### Brackets -/

/-- The engine within one more render. -/
def Engine.descend (e : Engine Empty σ) (h : e.renderDepth < e.config.maxRenderDepth) :
    Engine Empty σ :=
  { e with renderDepth := e.renderDepth + 1, renderDepth_le := h }

/-- The engine within one render fewer. -/
def Engine.ascend (e : Engine Empty σ) : Engine Empty σ :=
  { e with
    renderDepth := e.renderDepth - 1
    renderDepth_le := Nat.le_trans (Nat.sub_le ..) e.renderDepth_le }

theorem deeper_apply (tooDeep x : Run Empty σ Unit) (e : Engine Empty σ) :
    deeper tooDeep x e =
      if h : e.renderDepth < e.config.maxRenderDepth then
        Run.andFinally x Engine.ascend (e.descend h)
      else tooDeep e := by
  rw [deeper, Run.get_bind_apply]
  split <;> rfl

/-- The engine in which a passage is rendered. -/
def Engine.beginShow (e : Engine Empty σ) : Engine Empty σ :=
  { e with tree := e.tree.clear e.display, isPlaying := true }

theorem showPassage_apply (p : Perform Empty σ) (source : String) (e : Engine Empty σ) :
    showPassage p source e =
      (p (.render e.display source) >>= fun _ => modify fun e => { e with isPlaying := false })
        e.beginShow := rfl

/-- A handler that ends its callback takes back the context, and no more than values change. -/
theorem Engine.leaveShadow_dated (e : Engine Empty σ) (id : HandlerId) (depth : Nat)
    (previous : Option (Context Empty)) :
    (e.leaveShadow id depth previous).current = previous ∧
      (e.leaveShadow id depth previous).registry = e.registry ∧
      (e.leaveShadow id depth previous).dated = e.dated := by
  unfold Engine.leaveShadow State.pop
  dsimp only
  split
  · split
    · rename_i hpop
      split at hpop
      · cases hpop
      · cases hpop
        refine ⟨rfl, rfl, ?_⟩
        simp only [Engine.dated, Engine.texts, Array.size_modify]
        rfl
    · rename_i hpop
      split at hpop <;> cases hpop
      exact ⟨rfl, rfl, rfl⟩
  · exact ⟨rfl, rfl, rfl⟩

namespace Engine.StandsIn

variable {place : Place} {context : Context Empty} {e e₁ e' : Engine Empty σ}

/-- Apart from the context and the macros, it does not matter much what the engine is like. -/
theorem congr (he : e.StandsIn place) (hcurrent : e'.current = place.context)
    (hregistry : e'.registry = e.registry) (h : e'.dated = e.dated) : e'.StandsIn place where
  current := hcurrent
  registry := hregistry.trans he.registry
  parted := he.parted.congr h
  elements := by
    have htree : e'.tree = e.tree := congrArg (·.1.1) h
    rw [htree]
    exact he.elements

theorem forget {id : ElementId} (he : e.StandsIn (place.knowing id)) : e.StandsIn place :=
  ⟨he.current, he.registry, he.parted, Nat.le_trans (Nat.le_max_left _ _) he.elements⟩

theorem enterCall (he : e.StandsIn place) (context : Context Empty) :
    Engine.StandsIn { e with current := some context } (place.within context) :=
  ⟨rfl, he.registry, he.parted.congr rfl, he.elements⟩

theorem leaveCall (he' : e'.StandsIn (place.within context)) (he : e.StandsIn place) :
    Engine.StandsIn { e' with current := e.current } place :=
  ⟨he.current, he'.registry, he'.parted.congr rfl, he'.elements⟩

theorem push (he : e.StandsIn place) (overlay : Overlay) :
    Engine.StandsIn { e with state := e.state.push overlay } place :=
  he.congr he.current rfl rfl

theorem drop (he : e.StandsIn place) (depth : Nat) :
    Engine.StandsIn { e with state := e.state.dropOverlays depth } place :=
  he.congr he.current rfl rfl

theorem descend (he : e.StandsIn place) (h : e.renderDepth < e.config.maxRenderDepth) :
    (e.descend h).StandsIn place :=
  he.congr he.current rfl rfl

theorem ascend (he : e.StandsIn place) : e.ascend.StandsIn place :=
  he.congr he.current rfl rfl

theorem beginTick (he : e.StandsIn place) (timer : TimerId) :
    Engine.StandsIn { e with loopBreak := none, repeatTimer := some timer } place :=
  he.congr he.current rfl rfl

theorem endTick (he : e.StandsIn place) (timer : Option TimerId) :
    Engine.StandsIn { e with repeatTimer := timer, loopBreak := none } place :=
  he.congr he.current rfl rfl

theorem beginShow (he : e.StandsIn place) : e.beginShow.StandsIn place where
  current := he.current
  registry := he.registry
  parted := { he.parted with tree := (Tree.Grows.clear e.display).parted he.parted.tree }
  elements := he.elements

theorem endShow (he : e.StandsIn place) : Engine.StandsIn { e with isPlaying := false } place :=
  he.congr he.current rfl rfl

/-- The engine with one more element. -/
theorem newElement (he : e.StandsIn place) (tag : String) :
    Engine.StandsIn { e with tree := (e.tree.newElement tag).2 }
      (place.knowing ⟨e.tree.elements.size⟩) where
  current := he.current
  registry := he.registry
  parted := { he.parted with tree := (Tree.Grows.newElement e.tree tag).parted he.parted.tree }
  elements := by
    refine Nat.max_le.mpr ⟨?_, ?_⟩
    · exact Nat.le_trans he.elements (Tree.size_le_push e.tree.elements _)
    · exact Nat.le_of_eq (Array.size_push _).symm

theorem enterShadow (he : e.StandsIn place) (h : ShadowHandler Empty) :
    (e.enterShadow h).StandsIn (place.within h.context) :=
  ⟨rfl, he.registry, he.parted.congr rfl, he.elements⟩

theorem leaveShadow (he' : e'.StandsIn (place.within context)) (he : e.StandsIn place)
    (id : HandlerId) (depth : Nat) : (e'.leaveShadow id depth e.current).StandsIn place := by
  obtain ⟨hcurrent, hregistry, hdated⟩ := e'.leaveShadow_dated id depth e.current
  refine ⟨hcurrent.trans he.current, hregistry.trans he'.registry, he'.parted.congr hdated, ?_⟩
  have htree : (e'.leaveShadow id depth e.current).tree = e'.tree := congrArg (·.1.1) hdated
  rw [htree]
  exact he'.elements

end Engine.StandsIn

/-- What a relation between the engine before and after some work needs to hold for all work. -/
structure Carried (R : Place → Engine Empty σ → Engine Empty σ → Prop)
    (Ok : Engine Empty σ → HandlerId → Prop) : Prop where
  refl (place : Place) (e : Engine Empty σ) : R place e e
  trans {place : Place} {e e₁ e' : Engine Empty σ} : R place e e₁ → R place e₁ e' → R place e e'
  change {place : Place} {e e' : Engine Empty σ} : Change place e e' → R place e e'
  move {place : Place} {e e' : Engine Empty σ} : Move e e' → R place e e'
  /-- Work goes on with a new element. -/
  forget {place : Place} {id : ElementId} {e e' : Engine Empty σ} :
    R (place.knowing id) e e' → R place e e'
  /-- A call is executed. -/
  call {place : Place} {context : Context Empty} {e e' : Engine Empty σ} :
    context.outer = place.calls → (context.call.name = "for" → e'.loopBreak = none) →
    R (place.within context) { e with current := some context } e' →
    R place e { e' with current := e.current }
  /-- An overlay is in force. -/
  overlay {place : Place} {e e' : Engine Empty σ} (overlay : Overlay) :
    R place { e with state := e.state.push overlay } e' →
    R place e { e' with state := e'.state.dropOverlays e.state.overlays.length }
  /-- A render is under way. -/
  deeper {place : Place} {e e' : Engine Empty σ} (h : e.renderDepth < e.config.maxRenderDepth) :
    R place (e.descend h) e' → R place e e'.ascend
  /-- An interval ticks. -/
  tick {place : Place} {e e' : Engine Empty σ} (timer : TimerId) :
    R place { e with loopBreak := none, repeatTimer := some timer } e' →
    R place e { e' with repeatTimer := e.repeatTimer, loopBreak := none }
  /-- A passage is rendered. -/
  shown {place : Place} {e e' : Engine Empty σ} :
    R place e.beginShow e' → R place e { e' with isPlaying := false }
  /-- A handler that could be invoked runs its callback. -/
  shadow {place : Place} {id : HandlerId} {h₀ h : ShadowHandler Empty}
      {e e₁ e' : Engine Empty σ} :
    Ok e id → e.handlers[id.index]? = some h₀ → R place e e₁ →
    e₁.handlers[id.index]? = some h → R (place.within h.context) (e₁.enterShadow h) e' →
    R place e (e'.leaveShadow id e₁.state.overlays.length e₁.current)
  due {e : Engine Empty σ} {id : HandlerId} : e.Due id → Ok e id
  ticking {e : Engine Empty σ} {id : HandlerId} : e.repeatTimer.isSome = true → Ok e id

namespace Carried

variable {R : Place → Engine Empty σ → Engine Empty σ → Prop}
variable {Ok : Engine Empty σ → HandlerId → Prop} {p : Perform Empty σ}

theorem changes (hR : Carried R Ok) {place : Place} {e e' : Engine Empty σ}
    (h : Changes place e e') : R place e e' := by
  induction h with
  | refl => exact hR.refl place e
  | tail _ hstep ih => exact hR.trans ih (hR.change hstep)

/-- The work is related, and what it leaves stands in the place. -/
def Leads (R : Place → Engine Empty σ → Engine Empty σ → Prop) (place : Place)
    (e e' : Engine Empty σ) : Prop :=
  e'.StandsIn place ∧ R place e e'

theorem leads_refl (hR : Carried R Ok) {place : Place} {e : Engine Empty σ}
    (he : e.StandsIn place) : Leads R place e e :=
  ⟨he, hR.refl place e⟩

theorem leads_trans (hR : Carried R Ok) {place : Place} {e e₁ e' : Engine Empty σ}
    (h : Leads R place e e₁) (h₁ : Leads R place e₁ e') : Leads R place e e' :=
  ⟨h₁.1, hR.trans h.2 h₁.2⟩

/-- Renders never fail, and tasks that return are related if they are asked for when they may be. -/
structure Performs (R : Place → Engine Empty σ → Engine Empty σ → Prop)
    (Ok : Engine Empty σ → HandlerId → Prop) (p : Perform Empty σ) : Prop where
  related {t : Task} {place : Place} {e e' : Engine Empty σ} {r : Except Halt Unit} :
    e.StandsIn place → (∀ id arg, t = .invoke id arg → Ok e id) → p t e = (r, e') →
    Returned r → Leads R place e e'
  sure (out : OutputId) (source : String) : Sure (p (.render out source))

theorem Performs.free (hp : Performs R Ok p) {t : Task} {place : Place} {e e' : Engine Empty σ}
    {r : Except Halt Unit} (he : e.StandsIn place) (h : p t e = (r, e')) (hr : Returned r)
    (ht : t.IsFree) : Leads R place e e' :=
  hp.related he (fun _ _ hinvoke => by subst hinvoke; exact ht.elim) h hr

theorem Performs.invoke (hp : Performs R Ok p) {id : HandlerId} {arg : HandlerArg} {place : Place}
    {e e' : Engine Empty σ} {r : Except Halt Unit} (he : e.StandsIn place) (hok : Ok e id)
    (h : p (.invoke id arg) e = (r, e')) (hr : Returned r) : Leads R place e e' :=
  hp.related he (fun _ _ hinvoke => by cases hinvoke; exact hok) h hr

/-- Work that goes on after other work is related if both are. -/
theorem bind {α β : Type} (hR : Carried R Ok) {place : Place} {x : Run Empty σ α}
    {f : α → Run Empty σ β} {e e' : Engine Empty σ} {r : Except Halt β}
    (hx : ∀ {r₁ e₁}, x e = (r₁, e₁) → Returned r₁ → Leads R place e e₁)
    (hf : ∀ {a e₁}, x e = (.ok a, e₁) → e₁.StandsIn place → f a e₁ = (r, e') →
      Leads R place e₁ e')
    (h : (x >>= f) e = (r, e')) (hr : Returned r) : Leads R place e e' := by
  rcases Run.bind_returned h hr with ⟨a, e₁, h₁, h₂⟩ | ⟨failure, h₁, -⟩
  · have hfirst := hx h₁ (returned_ok a)
    exact hR.leads_trans hfirst (hf h₁ hfirst.1 h₂)
  · exact hx h₁ (returned_failure failure)

theorem quickTo {α : Type} {P : α → Prop} (hR : Carried R Ok) {place : Place}
    {x : Run Empty σ α} {e e' : Engine Empty σ} {r : Except Halt α} (hx : QuickTo place P x)
    (he : e.StandsIn place) (h : x e = (r, e')) : Leads R place e e' := by
  obtain ⟨r₁, e₁, h₁, hchanges, -⟩ := hx e he
  rw [h₁] at h
  cases h
  exact ⟨hchanges.standsIn he, hR.changes hchanges⟩

/-- All work that returns is related, however it is made up. -/
theorem made {scope : Scope} {place : Place} {α : Type} {X : Perform Empty σ → Run Empty σ α}
    (hR : Carried R Ok) (hp : Performs R Ok p) (hX : Made scope place X) :
    ∀ {e e' : Engine Empty σ} {r : Except Halt α}, e.StandsIn place → X p e = (r, e') →
      Returned r → Leads R place e e' := by
  induction hX with
  | quick hx => exact fun he h _ => hR.quickTo hx he h
  | @after scope place α β P x F hx _ ihF =>
      intro e e' r he h hr
      refine hR.bind (fun h₁ _ => hR.quickTo hx he h₁) (fun {a e₁} h₁ he₁ h₂ => ?_) h hr
      obtain ⟨r₂, e₂, hx₂, -, -, hP⟩ := hx e he
      rw [hx₂] at h₁
      cases h₁
      exact ihF a (hP a rfl) he₁ h₂ hr
  | bind _ _ ihX ihF =>
      intro e e' r he h hr
      exact hR.bind (ihX he) (fun _ he₁ h₂ => ihF _ he₁ h₂ hr) h hr
  | @element scope place α tag F _ ihF =>
      intro e e' r he h hr
      have hmade := he.newElement tag
      have hinner := ihF ⟨e.tree.elements.size⟩ he.parted.tree.extent.elements hmade h hr
      refine ⟨hinner.1.forget, hR.trans (hR.change ?_) (hR.forget hinner.2)⟩
      exact .display _ (.newElement e.tree tag)
  | attempt _ ihX =>
      intro e e' r he h hr
      obtain ⟨r₁, h₁, hr₁⟩ := Run.attempt_returned h hr
      exact ihX he h₁ hr₁
  | render out source => exact fun he h hr => hp.free he h hr trivial
  | start hx _ =>
      intro e e' r he h hr
      refine hR.bind (fun h₁ _ => hR.quickTo hx he h₁) (fun {isNext e₁} _ he₁ h₂ => ?_) h hr
      cases isNext with
      | true => exact hp.free he₁ h₂ hr trivial
      | false => cases h₂; exact hR.leads_refl he₁
  | @call scope place context X houter hfor _ ihX =>
      intro e e' r he h hr
      obtain ⟨e₁, h₁, rfl⟩ := Run.andFinally_returned h hr
      obtain ⟨he₁, hrelated⟩ := ihX (he.enterCall context) h₁ hr
      refine ⟨he₁.leaveCall he, hR.call houter (fun hname => ?_) hrelated⟩
      -- a loop ends by taking back any wish to leave it
      obtain ⟨Y, rfl⟩ := hfor hname
      obtain ⟨e₂, -, rfl⟩ := Run.andFinally_returned h₁ hr
      rfl
  | overlay overlay _ ihX =>
      intro e e' r he h hr
      obtain ⟨e₁, h₁, rfl⟩ := Run.andFinally_returned h hr
      obtain ⟨he₁, hrelated⟩ := ihX (he.push overlay) h₁ hr
      exact ⟨he₁.drop _, hR.overlay overlay hrelated⟩
  | task ht => exact fun he h hr => hp.free he h hr ht
  | @invoke place γ x F id arg hx hdue hnone hsome =>
      intro e e' r he h hr
      refine hR.bind (fun h₁ _ => hR.quickTo hx he h₁) (fun {c e₁} h₁ he₁ h₂ => ?_) h hr
      cases c with
      | none => rw [hnone] at h₂; cases h₂; exact hR.leads_refl he₁
      | some c =>
          rw [hsome] at h₂
          exact hp.invoke he₁ (hR.due (hdue e e₁ c h₁)) h₂ hr
  | tick timer id arg _ =>
      intro e e' r he h hr
      obtain ⟨e₁, h₁, rfl⟩ := Run.andFinally_returned h hr
      obtain ⟨he₁, hrelated⟩ := hp.invoke (he.beginTick timer) (hR.ticking rfl) h₁ hr
      exact ⟨he₁.endTick _, hR.tick timer hrelated⟩
  | move hf =>
      intro e e' r he h _
      cases h
      exact ⟨(hf e).standsIn he, hR.move (hf e)⟩
  | @deeper place tooDeep X hdeep _ ihX =>
      intro e e' r he h hr
      change StoryEngine.deeper tooDeep (X p) e = (r, e') at h
      rw [deeper_apply] at h
      split at h
      · rename_i hlt
        obtain ⟨e₁, h₁, rfl⟩ := Run.andFinally_returned h hr
        obtain ⟨he₁, hrelated⟩ := ihX (he.descend hlt) h₁ hr
        exact ⟨he₁.ascend, hR.deeper hlt hrelated⟩
      · exact hR.quickTo hdeep he h
  | shown source =>
      intro e e' r he h hr
      change showPassage p source e = (r, e') at h
      rw [showPassage_apply] at h
      -- the render does not fail, so the passage is not being rendered any more
      rcases Run.bind_returned h hr with ⟨u, e₁, h₁, h₂⟩ | ⟨failure, h₁, -⟩
      · cases h₂
        obtain ⟨he₁, hrelated⟩ := hp.free he.beginShow h₁ (returned_ok u) trivial
        exact ⟨he₁.endShow, hR.shown hrelated⟩
      · exact (hp.sure _ _ _ _ _ h₁).elim
  | halt =>
      intro e e' r _ h hr
      cases h
      exact (hr rfl).elim

/-- What the callback of a handler does, from when the handler could be invoked. -/
theorem runShadowed (hR : Carried R Ok) (hp : Performs R Ok p) {id : HandlerId} {arg : HandlerArg}
    {callback : Option (Callback Empty)} {place : Place} {h₀ : ShadowHandler Empty}
    {e e₁ e' : Engine Empty σ} {r : Except Halt Unit} (hok : Ok e id)
    (h₀ : e.handlers[id.index]? = some h₀) (hfirst : Leads R place e e₁)
    (h : StoryEngine.runShadowed id (runPart? (runCallback Host.idle p) arg callback) e₁ = (r, e'))
    (hr : Returned r) : Leads R place e e' := by
  rw [runShadowed_apply] at h
  cases hh : e₁.handlers[id.index]? with
  | none => rw [hh] at h; cases h; exact hfirst
  | some handler =>
      rw [hh] at h
      obtain ⟨e₂, h₂, rfl⟩ := Run.andFinally_returned h hr
      obtain ⟨he₂, hrelated⟩ :=
        hR.made hp (made_runPart? arg callback) (hfirst.1.enterShadow handler) h₂ hr
      exact ⟨he₂.leaveShadow hfirst.1 _ _, hR.shadow hok h₀ hfirst.2 hh hrelated⟩

/-- What an invoked handler does. -/
theorem invokeHandler (hR : Carried R Ok) (hp : Performs R Ok p) {id : HandlerId}
    {arg : HandlerArg} {place : Place} {e e' : Engine Empty σ} {r : Except Halt Unit}
    (he : e.StandsIn place) (hok : Ok e id)
    (h : StoryEngine.invokeHandler (runCallback Host.idle p) id arg e = (r, e'))
    (hr : Returned r) : Leads R place e e' := by
  rw [StoryEngine.invokeHandler, Run.get_bind_apply] at h
  cases hh : e.handlers[id.index]? with
  | none => rw [hh] at h; cases h; exact hR.leads_refl he
  | some handler =>
      rw [hh] at h
      have hpart (part : Option (Callback Empty)) {e₁ e₂ : Engine Empty σ} {r₁ : Except Halt Unit}
          (he₁ : e₁.StandsIn place) (h₁ : runPart? (runCallback Host.idle p) arg part e₁ = (r₁, e₂))
          (hr₁ : Returned r₁) : Leads R place e₁ e₂ :=
        hR.made hp (made_runPart? arg part) he₁ h₁ hr₁
      rcases Run.bind_returned h hr with ⟨u, e₁, h₁, h₂⟩ | ⟨failure, h₁, -⟩
      · have hstart := hpart _ he h₁ (returned_ok u)
        split at h₂
        · rcases Run.bind_returned h₂ hr with ⟨u₂, e₂, h₂, h₃⟩ | ⟨failure, h₂, -⟩
          · have hcallback := hR.runShadowed hp hok hh hstart h₂ (returned_ok u₂)
            exact hR.leads_trans hcallback (hpart _ hcallback.1 h₃ hr)
          · exact hR.runShadowed hp hok hh hstart h₂ (returned_failure failure)
        · exact hR.leads_trans hstart (hpart _ hstart.1 h₂ hr)
      · exact hpart _ he h₁ (returned_failure failure)

/-- All tasks that return are related. -/
theorem performs (hR : Carried R Ok) (n : Nat) : Performs R Ok (perform Host.idle n) where
  sure out source := sure_perform_render Host.idle n out source
  related {t place e e' r} he hok h hr := by
    induction n generalizing t place e e' r with
    | zero => cases h; exact (hr rfl).elim
    | succ n ih =>
        have hp : Performs R Ok (perform Host.idle n) :=
          ⟨ih, sure_perform_render Host.idle n⟩
        cases t with
        | invoke id arg => exact hR.invokeHandler hp he (hok id arg rfl) h hr
        | _ =>
            refine (made_performTask n ?_).elim fun _ hmade => hR.made hp hmade he h hr
            exact trivial

end Carried

end StoryEngine
