import StoryEngine.Proofs.Engine.Frame
import StoryEngine.Proofs.Engine.Lasting
/-!
# StoryEngine.Proofs.Engine.Alike

Two ways of performing tasks. If they come to the same for all tasks that engines of a kind ask
for, it makes no difference to the work of such an engine which one performs its tasks
(`Made.alike`, `invokeHandler_alike`). What kind of engine that is depends on what is shown about
the work. It has to be one that an engine remains while it works (`Kept`).
-/

namespace StoryEngine

variable {σ : Type}

/-! ### Congruence -/

namespace Run

variable {η α β : Type} {e : Engine η σ}

theorem bind_alike {x y : Run η σ α} {f g : α → Run η σ β} (h : x e = y e)
    (hf : ∀ a e₁, y e = (.ok a, e₁) → f a e₁ = g a e₁) : (x >>= f) e = (y >>= g) e := by
  rcases hy : y e with ⟨halt | a, e₁⟩
  · rw [bind_of_error (h.trans hy), bind_of_error hy]
  · rw [bind_of_ok (h.trans hy), bind_of_ok hy]
    exact hf a e₁ hy

theorem attempt_alike {x y : Run η σ α} (h : x e = y e) : attempt x e = attempt y e := by
  unfold attempt
  rw [h]

theorem andFinally_alike {x y : Run η σ α} (change : Engine η σ → Engine η σ) (h : x e = y e) :
    andFinally x change e = andFinally y change e :=
  bind_alike (attempt_alike h) fun _ _ _ => rfl

theorem reporting_alike {x y : Run η σ Unit} (h : x e = y e) : reporting x e = reporting y e :=
  bind_alike (attempt_alike h) fun _ _ _ => rfl

end Run

/-! ### Kinds of engines -/

/-- An engine of the kind remains one as long as it lasts and the same overlays are in force. A
handler may be invoked if its turn has come, or if it is recent. -/
structure Kept (Q : Place → Engine Empty σ → Prop) (Ok : HandlerId → Prop) : Prop where
  standsIn {place : Place} {e : Engine Empty σ} : Q place e → e.StandsIn place
  lasts {place place' : Place} {e e' : Engine Empty σ} : Q place e → e'.StandsIn place' →
    place'.mark = place.mark → e.Lasts e' → e'.state.shape = e.state.shape → Q place' e'
  due {place : Place} {e : Engine Empty σ} {id : HandlerId} : Q place e → e.Due id → Ok id
  recent {place : Place} {e : Engine Empty σ} {id : HandlerId} :
    Q place e → place.mark.handlers ≤ id.index → Ok id

/-- Both ways of performing tasks come to the same for all tasks that engines of the kind ask for,
and what the second one does lasts and is framed. -/
structure PerformsAlike (Q : Place → Engine Empty σ → Prop) (Ok : HandlerId → Prop)
    (p p' : Perform Empty σ) : Prop where
  alike {t : Task} {place : Place} {e : Engine Empty σ} : Q place e →
    (∀ id arg, t = .invoke id arg → Ok id) → p t e = p' t e
  lasting : Carried.Performs (fun _ => Engine.Lasts) (fun _ _ => True) p'
  framed : Carried.Performs (fun _ => Engine.Frame) (fun _ _ => True) p'

variable {Q : Place → Engine Empty σ → Prop} {Ok : HandlerId → Prop} {p p' : Perform Empty σ}
  {place : Place}

theorem PerformsAlike.free (hp : PerformsAlike Q Ok p p') {t : Task} {e : Engine Empty σ}
    (he : Q place e) (ht : t.IsFree) : p t e = p' t e :=
  hp.alike he fun _ _ hinvoke => by subst hinvoke; exact ht.elim

theorem PerformsAlike.invoke (hp : PerformsAlike Q Ok p p') {id : HandlerId} {arg : HandlerArg}
    {e : Engine Empty σ} (he : Q place e) (h : Ok id) : p (.invoke id arg) e = p' (.invoke id arg) e :=
  hp.alike he fun _ _ hinvoke => by cases hinvoke; exact h

namespace Kept

theorem quickTo {α : Type} {P : α → Prop} (hQ : Kept Q Ok) {x : Run Empty σ α}
    {e e' : Engine Empty σ} {r : Except Halt α} (hx : QuickTo place P x) (he : Q place e)
    (h : x e = (r, e')) : Q place e' := by
  obtain ⟨hstands, hlasts⟩ := Engine.Lasts.carried.quickTo hx (hQ.standsIn he) h
  obtain ⟨-, hframe⟩ := Engine.Frame.carried.quickTo hx (hQ.standsIn he) h
  exact hQ.lasts he hstands rfl hlasts hframe.shape

theorem made {scope : Scope} {α : Type} {X : Perform Empty σ → Run Empty σ α} (hQ : Kept Q Ok)
    (hp : PerformsAlike Q Ok p p') (hX : Made scope place X) {e e' : Engine Empty σ}
    {r : Except Halt α} (he : Q place e) (h : X p' e = (r, e')) (hr : Returned r) : Q place e' := by
  obtain ⟨hstands, hlasts⟩ := Engine.Lasts.carried.made hp.lasting hX (hQ.standsIn he) h hr
  obtain ⟨-, hframe⟩ := Engine.Frame.carried.made hp.framed hX (hQ.standsIn he) h hr
  exact hQ.lasts he hstands rfl hlasts hframe.shape

/-- An engine remains one of the kind when a handler has run its start and its callback. -/
theorem shadowed (hQ : Kept Q Ok) (hp : PerformsAlike Q Ok p p') {id : HandlerId} {arg : HandlerArg}
    {h : ShadowHandler Empty} {e e₁ e₂ : Engine Empty σ} {u : Unit} {r : Except Halt Unit}
    (he : Q place e) (hh : e.handlers[id.index]? = some h)
    (h₁ : runPart? (runCallback Host.idle p') arg h.start e = (.ok u, e₁))
    (h₂ : runShadowed id (runPart? (runCallback Host.idle p') arg h.callback) e₁ = (r, e₂))
    (hr : Returned r) : Q place e₂ := by
  have hmade : Made .any place fun p : Perform Empty σ =>
      runPart? (runCallback Host.idle p) arg h.start := made_runPart? arg h.start
  have hstands := hQ.standsIn he
  have hlasting := Engine.Lasts.carried.made hp.lasting hmade hstands h₁ (returned_ok u)
  have hframed := Engine.Frame.carried.made hp.framed hmade hstands h₁ (returned_ok u)
  have hlasts := Engine.Lasts.carried.runShadowed hp.lasting trivial hh hlasting h₂ hr
  have hframe := Engine.Frame.carried.runShadowed hp.framed trivial hh hframed h₂ hr
  exact hQ.lasts he hlasts.1 rfl hlasts.2 hframe.2.shape

end Kept

/-! ### Work -/

/-- It makes no difference to work how its tasks are performed, however it is made up. Where a
render is a part of it, the kind must allow for overlays to be put in force. -/
theorem Made.alike {scope : Scope} {α : Type} {X : Perform Empty σ → Run Empty σ α}
    (hQ : Kept Q Ok) (hp : PerformsAlike Q Ok p p') (hX : Made scope place X)
    (hpush : scope ≠ .any → ∀ {place : Place} {e : Engine Empty σ} (overlay : Overlay),
      Q place e → Q place { e with state := e.state.push overlay }) :
    ∀ {e : Engine Empty σ}, Q place e → X p e = X p' e := by
  induction hX with
  | quick => exact fun _ => rfl
  | @after scope place α β P x F hx _ ihF =>
      intro e he
      refine Run.bind_alike rfl fun a e₁ h₁ => ?_
      have he₁ := hQ.quickTo hx he h₁
      obtain ⟨r, e₂, h₂, -, -, hP⟩ := hx e (hQ.standsIn he)
      rw [h₂] at h₁
      cases h₁
      exact ihF a (hP a rfl) hpush he₁
  | bind hX _ ihX ihF =>
      intro e he
      refine Run.bind_alike (ihX hpush he) fun a e₁ h₁ => ihF a hpush ?_
      exact hQ.made hp hX he h₁ (returned_ok a)
  | @element scope place α tag F _ ihF =>
      intro e he
      have hstands := hQ.standsIn he
      refine ihF ⟨e.tree.elements.size⟩ hstands.parted.tree.extent.elements hpush ?_
      exact hQ.lasts he (hstands.newElement tag) rfl { Engine.Lasts.refl e with } rfl
  | attempt _ ihX => exact fun he => Run.attempt_alike (ihX hpush he)
  | render out source => exact fun he => hp.free he trivial
  | start hx _ =>
      intro e he
      refine Run.bind_alike rfl fun isNext e₁ h₁ => ?_
      have he₁ := hQ.quickTo hx he h₁
      cases isNext with
      | true => exact hp.free he₁ trivial
      | false => rfl
  | @call scope place context X _ _ _ ihX =>
      intro e he
      have hinner : Q (place.within context) { e with current := some context } :=
        hQ.lasts he ((hQ.standsIn he).enterCall context) rfl { Engine.Lasts.refl e with } rfl
      exact Run.andFinally_alike _ (ihX hpush hinner)
  | @overlay place overlay X _ ihX =>
      intro e he
      exact Run.andFinally_alike _ (ihX hpush (hpush (by simp) overlay he))
  | task ht => exact fun he => hp.free he ht
  | @invoke place γ x F id arg hx hdue hnone hsome =>
      intro e he
      refine Run.bind_alike rfl fun c e₁ h₁ => ?_
      have he₁ := hQ.quickTo hx he h₁
      cases c with
      | none => rw [hnone, hnone]
      | some c =>
          rw [hsome, hsome]
          exact hp.invoke he₁ (hQ.due he₁ (hdue e e₁ c h₁))
  | @tick place timer id arg hrecent =>
      intro e he
      have hticking : Q place { e with loopBreak := none, repeatTimer := some timer } :=
        hQ.lasts he ((hQ.standsIn he).beginTick timer) rfl { Engine.Lasts.refl e with } rfl
      exact Run.andFinally_alike _ (hp.invoke hticking (hQ.recent he hrecent))
  | move => exact fun _ => rfl
  | @deeper place tooDeep X _ _ ihX =>
      intro e he
      show StoryEngine.deeper tooDeep (X p) e = StoryEngine.deeper tooDeep (X p') e
      rw [deeper_apply, deeper_apply]
      split
      · rename_i hlt
        have hinner : Q place (e.descend hlt) :=
          hQ.lasts he ((hQ.standsIn he).descend hlt) rfl { Engine.Lasts.refl e with } rfl
        exact Run.andFinally_alike _ (ihX (fun _ => hpush (by simp)) hinner)
      · rfl
  | @shown place source =>
      intro e he
      show showPassage p source e = showPassage p' source e
      rw [showPassage_apply, showPassage_apply]
      have hinner : Q place e.beginShow :=
        hQ.lasts he (hQ.standsIn he).beginShow rfl { Engine.Lasts.refl e with } rfl
      exact Run.bind_alike (hp.free hinner trivial) fun _ _ _ => rfl
  | halt => exact fun _ => rfl

/-- It makes no difference to a handler, either, if its parts come to the same. -/
theorem invokeHandler_alike (hQ : Kept Q Ok) (hp : PerformsAlike Q Ok p p')
    (hshadow : ∀ {place : Place} {e : Engine Empty σ} (h : ShadowHandler Empty), Q place e →
      Q (place.within h.context) (e.enterShadow h))
    {run : Callback Empty → HandlerArg → Run Empty σ Unit} (id : HandlerId) (arg : HandlerArg)
    (hrun : ∀ (callback : Callback Empty) {place : Place} {e : Engine Empty σ}, Q place e →
      run callback arg e = runCallback Host.idle p' callback arg e)
    {e : Engine Empty σ} (he : Q place e) :
    invokeHandler run id arg e = invokeHandler (runCallback Host.idle p') id arg e := by
  have hpart (part : Option (Callback Empty)) {place : Place} {e : Engine Empty σ}
      (he : Q place e) :
      runPart? run arg part e = runPart? (runCallback Host.idle p') arg part e := by
    cases part with
    | none => rfl
    | some callback => exact hrun callback he
  rw [invokeHandler, invokeHandler, Run.get_bind_apply, Run.get_bind_apply]
  cases hh : e.handlers[id.index]? with
  | none => rfl
  | some h =>
      refine Run.bind_alike (hpart h.start he) fun u e₁ h₁ => ?_
      have he₁ := hQ.made hp (made_runPart? arg h.start) he h₁ (returned_ok u)
      split
      · refine Run.bind_alike ?_ fun u₂ e₂ h₂ =>
          hpart h.done (hQ.shadowed hp he hh h₁ h₂ (returned_ok u₂))
        rw [runShadowed_apply, runShadowed_apply]
        cases e₁.handlers[id.index]? with
        | none => rfl
        | some handler => exact Run.andFinally_alike _ (hpart h.callback (hshadow handler he₁))
      · exact hpart h.done he₁

end StoryEngine
