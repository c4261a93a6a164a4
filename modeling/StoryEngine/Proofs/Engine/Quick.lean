import StoryEngine.Proofs.Engine.Change
/-!
# StoryEngine.Proofs.Engine.Quick

Quick work: computations that ask for no task. Such work never runs out of fuel, and all that it
does to an engine is a number of changes (`Change`). `Quick place P x` says so of `x`, whenever it
is started in the place, and that a result of `x` has the property `P`.

The rules for `Quick` follow the structure of computations, so a macro that asks for no task is
shown to be quick by going through its definition once.

What contexts and the built-in macros do without asking for a task is quick work: opening a call,
debug views, errors, setting variables, putting work off, and what is left of the other macros
between the renders that they ask for.

Handlers are made for the context of the call that makes them, and registered at once for clicks,
timers or the typing queue. The two steps are taken together here, since what is registered has to
be a handler of the right kind.
-/

namespace StoryEngine

variable {σ α β : Type} {place : Place} {P : α → Prop} {Q : β → Prop}

/-! ### Running computations -/

/-- The outcome is a result or a failure: the fuel did not run out. -/
def Returned (r : Except Halt α) : Prop :=
  r ≠ .error .outOfFuel

instance (r : Except Halt α) : Decidable (Returned r) :=
  match r with
  | .ok _ => isTrue nofun
  | .error (.failure _) => isTrue nofun
  | .error .outOfFuel => isFalse fun h => h rfl

theorem returned_ok (a : α) : Returned (.ok a : Except Halt α) := nofun

theorem returned_failure (f : Failure) : Returned (.error (.failure f) : Except Halt α) := nofun

namespace Run

variable {η : Type}

theorem bind_apply (x : Run η σ α) (f : α → Run η σ β) (e : Engine η σ) :
    (x >>= f) e =
      match x e with
      | (.ok a, e') => f a e'
      | (.error h, e') => (.error h, e') := by
  show ExceptT.bindCont f (x e).1 (x e).2 = _
  rcases x e with ⟨a | a, e'⟩ <;> rfl

theorem bind_of_ok {x : Run η σ α} {f : α → Run η σ β} {e e' : Engine η σ} {a : α}
    (h : x e = (.ok a, e')) : (x >>= f) e = f a e' := by
  rw [bind_apply, h]

theorem bind_of_error {x : Run η σ α} {f : α → Run η σ β} {e e' : Engine η σ} {halt : Halt}
    (h : x e = (.error halt, e')) : (x >>= f) e = (.error halt, e') := by
  rw [bind_apply, h]

theorem get_bind_apply (f : Engine η σ → Run η σ β) (e : Engine η σ) :
    (get >>= f : Run η σ β) e = f e e := rfl

theorem modify_bind_apply (change : Engine η σ → Engine η σ) (f : PUnit → Run η σ β)
    (e : Engine η σ) : (modify change >>= f : Run η σ β) e = f ⟨⟩ (change e) := rfl

theorem withTree_apply (change : Tree → α × Tree) (e : Engine η σ) :
    withTree change e = (.ok (change e.tree).1, { e with tree := (change e.tree).2 }) := rfl

theorem isStale_bind_apply (m : Moment) (f : Bool → Run η σ β) (e : Engine η σ) :
    (isStale m >>= f) e = f (decide (⟨e.state.passage, e.state.turns⟩ ≠ m)) e := rfl

theorem attempt_of_ok {x : Run η σ α} {e e' : Engine η σ} {a : α} (h : x e = (.ok a, e')) :
    attempt x e = (.ok (.ok a), e') := by
  unfold attempt
  rw [h]

theorem attempt_of_failure {x : Run η σ α} {e e' : Engine η σ} {f : Failure}
    (h : x e = (.error (.failure f), e')) : attempt x e = (.ok (.error f), e') := by
  unfold attempt
  rw [h]

/-- An attempt does what the computation does, even if that does not come to its end. -/
theorem attempt_snd (x : Run η σ α) (e : Engine η σ) : (attempt x e).2 = (x e).2 := by
  unfold attempt
  split <;> rename_i h <;> rw [h]

/-- An attempt that returns has a result, and has done what the computation did. -/
theorem attempt_of_returned {x : Run η σ α} {e e' : Engine η σ} {r : Except Halt α}
    (h : x e = (r, e')) (hr : Returned r) : ∃ a, attempt x e = (.ok a, e') := by
  match r, hr with
  | .ok a, _ => exact ⟨.ok a, attempt_of_ok h⟩
  | .error (.failure f), _ => exact ⟨.error f, attempt_of_failure h⟩
  | .error .outOfFuel, hr => exact (hr rfl).elim

theorem attempt_of_halt {x : Run η σ α} {e e' : Engine η σ}
    (h : x e = (.error .outOfFuel, e')) : attempt x e = (.error .outOfFuel, e') := by
  unfold attempt
  rw [h]

/-- After a computation that returned, its closing change is made. -/
theorem andFinally_of_returned {x : Run η σ α} {e e' : Engine η σ} {r : Except Halt α}
    (change : Engine η σ → Engine η σ) (h : x e = (r, e')) (hr : Returned r) :
    andFinally x change e = (r, change e') := by
  match r, hr with
  | .ok a, _ => exact bind_of_ok (attempt_of_ok h)
  | .error (.failure f), _ => exact bind_of_ok (attempt_of_failure h)
  | .error .outOfFuel, hr => exact (hr rfl).elim

theorem andFinally_of_halt {x : Run η σ α} {e e' : Engine η σ}
    (change : Engine η σ → Engine η σ) (h : x e = (.error .outOfFuel, e')) :
    andFinally x change e = (.error .outOfFuel, e') :=
  bind_of_error (attempt_of_halt h)

/-- Work that goes on after other work returns if both do, or if the first fails. -/
theorem bind_returned {x : Run η σ α} {f : α → Run η σ β} {e e' : Engine η σ}
    {r : Except Halt β} (h : (x >>= f) e = (r, e')) (hr : Returned r) :
    (∃ a e₁, x e = (.ok a, e₁) ∧ f a e₁ = (r, e')) ∨
      ∃ failure, x e = (.error (.failure failure), e') ∧ r = .error (.failure failure) := by
  rcases hx : x e with ⟨(failure | _) | a, e₁⟩
  · rw [bind_of_error hx] at h
    cases h
    exact .inr ⟨failure, rfl, rfl⟩
  · rw [bind_of_error hx] at h
    cases h
    exact (hr rfl).elim
  · rw [bind_of_ok hx] at h
    exact .inl ⟨a, e₁, rfl, h⟩

/-- Work that goes on after other work has a result if both have one. -/
theorem bind_eq_ok {x : Run η σ α} {f : α → Run η σ β} {e e' : Engine η σ} {b : β}
    (h : (x >>= f) e = (.ok b, e')) : ∃ a e₁, x e = (.ok a, e₁) ∧ f a e₁ = (.ok b, e') := by
  rcases bind_returned h (returned_ok b) with hok | ⟨failure, -, herror⟩
  · exact hok
  · cases herror

/-- A computation with a closing change returns if the computation itself does. -/
theorem andFinally_returned {x : Run η σ α} {change : Engine η σ → Engine η σ}
    {e e' : Engine η σ} {r : Except Halt α} (h : andFinally x change e = (r, e'))
    (hr : Returned r) : ∃ e₁, x e = (r, e₁) ∧ e' = change e₁ := by
  rcases hx : x e with ⟨r₁, e₁⟩
  by_cases hr₁ : Returned r₁
  · rw [andFinally_of_returned change hx hr₁] at h
    cases h
    exact ⟨e₁, rfl, rfl⟩
  · have hhalt : r₁ = .error .outOfFuel := not_not.mp hr₁
    subst hhalt
    rw [andFinally_of_halt change hx] at h
    cases h
    exact (hr rfl).elim

theorem attempt_returned {x : Run η σ α} {e e' : Engine η σ} {r : Except Halt (Except Failure α)}
    (h : attempt x e = (r, e')) (hr : Returned r) : ∃ r₁, x e = (r₁, e') ∧ Returned r₁ := by
  rcases hx : x e with ⟨r₁, e₁⟩
  by_cases hr₁ : Returned r₁
  · obtain ⟨a, ha⟩ := attempt_of_returned hx hr₁
    rw [ha] at h
    cases h
    exact ⟨r₁, rfl, hr₁⟩
  · have hhalt : r₁ = .error .outOfFuel := not_not.mp hr₁
    subst hhalt
    rw [attempt_of_halt hx] at h
    cases h
    exact (hr rfl).elim

theorem reporting_of_ok {x : Run η σ Unit} {e e' : Engine η σ} (h : x e = (.ok (), e')) :
    reporting x e = (.ok (), e') :=
  bind_of_ok (attempt_of_ok h)

/-- A failure that is noted does not get any further. -/
theorem reporting_eq_ok {x : Run η σ Unit} {e e' : Engine η σ} {r : Except Halt Unit}
    (h : reporting x e = (r, e')) (hr : Returned r) : r = .ok () := by
  rcases bind_returned h hr with ⟨a, e₁, -, h₂⟩ | ⟨failure, h₁, -⟩
  · cases a with
    | ok u => cases h₂; rfl
    | error f => cases h₂; rfl
  · unfold attempt at h₁
    split at h₁ <;> cases h₁

end Run

/-! ### Quick work -/

/-- Started on the engine, the computation returns, and has made a number of changes. A result
has the property. -/
def QuickAt (place : Place) (P : α → Prop) (x : Run Empty σ α) (e : Engine Empty σ) : Prop :=
  ∃ r e', x e = (r, e') ∧ Changes place e e' ∧ Returned r ∧ ∀ a, r = .ok a → P a

/-- Wherever it is started in the place, the computation returns, and has made a number of
changes. A result has the property. -/
def QuickTo (place : Place) (P : α → Prop) (x : Run Empty σ α) : Prop :=
  ∀ e, e.StandsIn place → QuickAt place P x e

/-- The computation is quick in the place. -/
def Quick (place : Place) (x : Run Empty σ α) : Prop :=
  QuickTo place (fun _ => True) x

theorem QuickAt.bind {x : Run Empty σ α} {f : α → Run Empty σ β} {e : Engine Empty σ}
    (hx : QuickAt place P x e)
    (hf : ∀ a e', Changes place e e' → P a → QuickAt place Q (f a) e') :
    QuickAt place Q (x >>= f) e := by
  obtain ⟨r, e₁, hx, hc, hr, hP⟩ := hx
  match r, hr, hP with
  | .ok a, _, hP =>
      obtain ⟨r₂, e₂, hf, hc₂, hr₂, hQ⟩ := hf a e₁ hc (hP a rfl)
      exact ⟨r₂, e₂, (Run.bind_of_ok hx).trans hf, hc.trans hc₂, hr₂, hQ⟩
  | .error (.failure f), _, _ =>
      exact ⟨_, e₁, Run.bind_of_error hx, hc, returned_failure f, nofun⟩
  | .error .outOfFuel, hr, _ => exact (hr rfl).elim

/-- Only what a computation does when it is started on the engine matters. -/
theorem QuickAt.congr {x y : Run Empty σ α} {e : Engine Empty σ} (h : x e = y e)
    (hy : QuickAt place P y e) : QuickAt place P x e := by
  obtain ⟨r, e', hy, hrest⟩ := hy
  exact ⟨r, e', h.trans hy, hrest⟩

/-- Work that goes on with a result, in the engine that was left with it. -/
theorem QuickAt.next {x : Run Empty σ α} {f : α → Run Empty σ β} {e e₁ : Engine Empty σ} {a : α}
    (hx : x e = (.ok a, e₁)) (hc : Changes place e e₁) (hf : QuickAt place Q (f a) e₁) :
    QuickAt place Q (x >>= f) e := by
  obtain ⟨r, e', hf, hc₁, hrest⟩ := hf
  exact ⟨r, e', (Run.bind_of_ok hx).trans hf, hc.trans hc₁, hrest⟩

/-- Work that never fails and makes some changes. -/
theorem QuickAt.ofChanges {x : Run Empty σ α} {e e' : Engine Empty σ} {a : α}
    (hx : x e = (.ok a, e')) (h : Changes place e e') (hP : P a) : QuickAt place P x e :=
  ⟨_, e', hx, h, returned_ok a, fun _ hb => by cases hb; exact hP⟩

/-- A single change that is possible in the engine. -/
theorem QuickAt.modify {f : Engine Empty σ → Engine Empty σ} {e : Engine Empty σ}
    (h : Change place e (f e)) : QuickAt place (fun _ => True) (modify f : Run Empty σ Unit) e :=
  .ofChanges rfl (.single h) trivial

namespace QuickTo

theorem bind {x : Run Empty σ α} {f : α → Run Empty σ β} (hx : QuickTo place P x)
    (hf : ∀ a, P a → QuickTo place Q (f a)) : QuickTo place Q (x >>= f) :=
  fun e he => (hx e he).bind fun a e' hc hP => hf a hP e' (hc.standsIn he)

theorem mono {P' : α → Prop} {x : Run Empty σ α} (hx : QuickTo place P x)
    (h : ∀ a, P a → P' a) : QuickTo place P' x := by
  intro e he
  obtain ⟨r, e', hr, hc, hret, hP⟩ := hx e he
  exact ⟨r, e', hr, hc, hret, fun a ha => h a (hP a ha)⟩

/-- Nothing is known about the result of what is done first. -/
theorem after {x : Run Empty σ α} {f : α → Run Empty σ β} (hx : Quick place x)
    (hf : ∀ a, QuickTo place Q (f a)) : QuickTo place Q (x >>= f) :=
  hx.bind fun a _ => hf a

/-- Forget what is known about the result. -/
theorem quick {x : Run Empty σ α} (hx : QuickTo place P x) : Quick place x :=
  hx.mono fun _ _ => trivial

theorem pure {a : α} (h : P a) : QuickTo place P (Pure.pure a : Run Empty σ α) :=
  fun e _ => ⟨_, e, rfl, .refl, returned_ok a, fun _ hb => by cases hb; exact h⟩

theorem fail (f : Failure) : QuickTo place P (Run.fail f : Run Empty σ α) :=
  fun e _ => ⟨_, e, rfl, .refl, returned_failure f, nofun⟩

/-- A change of what is displayed, with a result. -/
theorem withTree {change : Tree → α × Tree}
    (h : ∀ (t : Tree) (display : OutputId), t.Parted place.mark.extent display →
      t.Grows place.mark.extent display (change t).2 ∧ P (change t).1) :
    QuickTo place P (Run.withTree change : Run Empty σ α) := by
  intro e he
  obtain ⟨hgrows, hP⟩ := h e.tree e.display he.parted.tree
  exact .ofChanges rfl (.single (.display _ hgrows)) hP

theorem get : QuickTo place (fun e => e.StandsIn place) (get : Run Empty σ (Engine Empty σ)) :=
  fun e he => ⟨_, e, rfl, .refl, returned_ok e, fun _ hb => by cases hb; exact he⟩

theorem attempt {x : Run Empty σ α} (hx : QuickTo place P x) :
    QuickTo place (fun r => ∀ a, r = .ok a → P a) (Run.attempt x) := by
  intro e he
  obtain ⟨r, e', hr, hc, hret, hP⟩ := hx e he
  match r, hret, hP with
  | .ok a, _, hP =>
      refine ⟨.ok (.ok a), e', Run.attempt_of_ok hr, hc, returned_ok _, ?_⟩
      intro _ hb a' ha'
      cases hb
      cases ha'
      exact hP a rfl
  | .error (.failure f), _, _ =>
      refine ⟨.ok (.error f), e', Run.attempt_of_failure hr, hc, returned_ok _, ?_⟩
      intro _ hb a' ha'
      cases hb
      cases ha'
  | .error .outOfFuel, hret, _ => exact (hret rfl).elim

end QuickTo

namespace Quick

theorem pure (a : α) : Quick place (Pure.pure a : Run Empty σ α) :=
  QuickTo.pure trivial

theorem fail (f : Failure) : Quick place (Run.fail f : Run Empty σ α) :=
  QuickTo.fail f

theorem bind {x : Run Empty σ α} {f : α → Run Empty σ β} (hx : Quick place x)
    (hf : ∀ a, Quick place (f a)) : Quick place (x >>= f) :=
  QuickTo.bind hx fun a _ => hf a

/-- What depends on the engine is quick if it is so for every engine in the place. -/
theorem get {f : Engine Empty σ → Run Empty σ α}
    (hf : ∀ e, e.StandsIn place → Quick place (f e)) :
    Quick place (MonadState.get >>= f) :=
  QuickTo.bind QuickTo.get hf

/-- Work that is done on a condition only, before other work. -/
theorem bindUnless {c : Prop} [Decidable c] {x : Run Empty σ Unit} {f : Unit → Run Empty σ α}
    (hx : Quick place x) (hf : Quick place (f ())) :
    Quick place (if c then f () else x >>= f) := by
  split
  · exact hf
  · exact bind hx fun _ => hf

/-- A computation that never fails and makes some changes is quick. -/
theorem ofChanges {x : Run Empty σ α}
    (h : ∀ e, e.StandsIn place → ∃ a e', x e = (.ok a, e') ∧ Changes place e e') :
    Quick place x := by
  intro e he
  obtain ⟨a, e', hx, hc⟩ := h e he
  exact .ofChanges hx hc trivial

/-- A computation that always makes one change is quick. -/
theorem ofChange {x : Run Empty σ α} (h : ∀ e, ∃ a e', x e = (.ok a, e') ∧ Change place e e') :
    Quick place x :=
  ofChanges fun e _ =>
    let ⟨a, e', hx, hc⟩ := h e
    ⟨a, e', hx, .single hc⟩

theorem modify {f : Engine Empty σ → Engine Empty σ} (h : ∀ e, Change place e (f e)) :
    Quick place (modify f : Run Empty σ Unit) :=
  ofChange fun e => ⟨(), f e, rfl, h e⟩

/-! ### What computations are built from -/

theorem changeTree {change : Tree → Tree}
    (h : ∀ (t : Tree) (display : OutputId), t.Parted place.mark.extent display →
      t.Grows place.mark.extent display (change t)) :
    Quick place (Run.changeTree change : Run Empty σ Unit) :=
  ofChanges fun e he => ⟨_, _, rfl, .single (.display _ (h e.tree e.display he.parted.tree))⟩

theorem withTree {change : Tree → α × Tree}
    (h : ∀ (t : Tree) (display : OutputId), t.Parted place.mark.extent display →
      t.Grows place.mark.extent display (change t).2) :
    Quick place (Run.withTree change : Run Empty σ α) :=
  QuickTo.withTree fun t display ht => ⟨h t display ht, trivial⟩

theorem fromTree (read : Tree → α) : Quick place (Run.fromTree read : Run Empty σ α) :=
  get fun _ _ => pure _

theorem evaluating {x : Evaluation α} (hx : Reassigns x) :
    Quick place (Run.evaluating x : Run Empty σ (Except ExprError α)) :=
  ofChange fun e => ⟨_, _, rfl, .reassign (hx e.state)⟩

theorem reading {x : ArgumentReading α} (hx : Reassigns x) :
    Quick place (Run.reading x : Run Empty σ (Except ArgumentError α)) :=
  ofChange fun e => ⟨_, _, rfl, .reassign (hx e.state)⟩

theorem changingState {change : State → Except InvalidVariable State}
    (h : ∀ s t, change s = .ok t → s.Reassigned t) :
    Quick place (Run.changingState change : Run Empty σ Unit) := by
  intro e _
  cases hs : change e.state with
  | ok t =>
      have hx : (Run.changingState change : Run Empty σ Unit) e =
          (.ok (), { e with state := t }) := by
        refine (Run.get_bind_apply _ e).trans ?_
        rw [hs]
        rfl
      exact ⟨_, _, hx, .single (.reassign (h _ _ hs)), returned_ok _, fun _ _ => trivial⟩
  | error error =>
      have hx : (Run.changingState change : Run Empty σ Unit) e =
          (.error (.failure (.context (.invalidVariable error))), e) := by
        refine (Run.get_bind_apply _ e).trans ?_
        rw [hs]
        rfl
      exact ⟨_, _, hx, .refl, returned_failure _, nofun⟩

theorem changeClock {change : Clock (TimerAction Empty) → Clock (TimerAction Empty)}
    (h : ∀ c : Clock (TimerAction Empty), c.Lasts (change c)) : Quick place (Run.changeClock change : Run Empty σ Unit) :=
  modify fun e => .clock _ (h e.clock)

theorem listen {l : Listener (ListenerAction Empty)} (h : l.Fits) :
    Quick place (Run.listen l : Run Empty σ Unit) :=
  modify fun _ => .listen l h

theorem unlisten (event : Option Event) (name : String) :
    Quick place (Run.unlisten event name : Run Empty σ Unit) :=
  modify fun _ => .unlisten _

theorem report (f : Failure) : Quick place (Run.report f : Run Empty σ Unit) :=
  modify fun _ => .report f

theorem moment : Quick place (Run.moment : Run Empty σ Moment) :=
  get fun _ _ => pure _

theorem isStale (m : Moment) : Quick place (Run.isStale m : Run Empty σ Bool) :=
  moment.bind fun _ => pure _

end Quick

/-! ### Contexts -/

namespace MacroCall

variable (call : MacroCall Empty)

theorem quick_state : Quick place (call.state : Run Empty σ CallState) :=
  .get fun _ _ => .pure _

theorem quick_modifyState (change : CallState → CallState) :
    Quick place (call.modifyState change : Run Empty σ Unit) :=
  .modify fun _ => .calls _

theorem quick_createView (name title : Option String) :
    Quick place (call.createView name title : Run Empty σ ViewId) := by
  refine .bind (.withTree fun _ _ ht => .appendView ht _ _ _ _) fun view => ?_
  refine .bindUnless (.changeTree fun _ _ _ => .setModes _ _) ?_
  exact .bind (call.quick_modifyState _) fun _ => .pure _

theorem quick_view? : Quick place (call.view? : Run Empty σ (Option ViewId)) := by
  refine .bind call.quick_state fun s => ?_
  split
  · exact .pure _
  · split
    · exact .pure _
    · exact .bind (call.quick_createView _ _) fun _ => .pure _

theorem quick_target : Quick place (call.target : Run Empty σ OutputId) := by
  refine .bind call.quick_view? fun view => ?_
  split
  · exact .fromTree _
  · exact .pure _

theorem quick_showModes (modes : List String) :
    Quick place (call.showModes modes : Run Empty σ Unit) := by
  refine .bind call.quick_view? fun view => ?_
  split
  · exact .changeTree fun _ _ _ => .setModes _ _
  · exact .pure _

theorem quick_error (message : String) : Quick place (call.error message : Run Empty σ Unit) :=
  .changeTree fun _ _ _ => .appendError _ _ _

theorem quick_shadows : Quick place (call.shadows : Run Empty σ (List String)) :=
  .bind call.quick_state fun _ => .pure _

theorem quick_addShadows (names : List String) :
    Quick place (call.addShadows names : Run Empty σ Unit) := by
  induction names with
  | nil => exact .pure ()
  | cons name rest ih =>
      unfold addShadows
      split
      · exact .bind (call.quick_modifyState _) fun _ => ih
      · exact .fail _

end MacroCall

theorem Context.quick_shadowView (context : Context Empty) :
    Quick place (context.shadowView : Run Empty σ (List String)) :=
  .get fun _ _ => .pure _

theorem quick_snapshot (names : List String) :
    Quick place (snapshot names : Run Empty σ Overlay) :=
  .get fun _ _ => .pure _

/-! ### Opening a call -/

/-- The macro that a context is made for is the one named, and it stands in the place. -/
structure Context.Calls (context : Context Empty) (place : Place)
    (entry : MacroEntry (Handler Empty)) (name : String) : Prop where
  outer : context.outer = place.calls
  name : context.call.name = entry.aliasOf.getD name

theorem Context.quickTo_make (data : ContextData Empty) (entry : MacroEntry (Handler Empty))
    (hentry : data.entry = some entry) (hparent : data.parent = place.context) :
    QuickTo place (fun context => context.Calls place entry data.name)
      (Context.make data : Run Empty σ (Context Empty)) := by
  unfold Context.make
  rw [hentry]
  dsimp only
  split
  · exact .fail _
  · split
    · exact .fail _
    · refine QuickTo.get.bind fun e _ => .bind (Quick.modify fun _ => .calls _) fun _ _ => ?_
      refine .pure ⟨?_, rfl⟩
      unfold Place.calls
      rw [← hparent]
      cases data.parent <;> rfl

theorem quick_callArguments (definition : Definition (Handler Empty)) (raw : String) :
    Quick place
      (callArguments definition raw : Run Empty σ (Except ArgumentError ArgumentList)) := by
  unfold callArguments
  split
  · exact .pure _
  · exact .reading (reassigns_readArguments raw)

theorem quick_payloadClauses (definition : Definition (Handler Empty)) (clauses : List Clause) :
    Quick place (payloadClauses definition clauses :
      Run Empty σ (Except ArgumentError (List PayloadClause))) := by
  induction clauses with
  | nil => exact .pure _
  | cons clause rest ih =>
      refine .bind (quick_callArguments definition clause.args) fun args => ?_
      split
      · exact .pure _
      · refine .bind ih fun clauses => ?_
        split
        · exact .pure _
        · exact .pure _

theorem quick_showError (out : OutputId) (message source : String) :
    Quick place (showError out message source : Run Empty σ Unit) :=
  .changeTree fun _ _ _ => .appendError _ _ _

/-- After an error was shown there is no context. -/
theorem quickTo_showError {P : Option (Context Empty) → Prop} (hP : P none) (out : OutputId)
    (message source : String) :
    QuickTo place P (do showError out message source; return none : Run Empty σ _) :=
  .after (quick_showError out message source) fun _ => .pure hP

theorem quickTo_openCall (out : OutputId) (entry : MacroEntry (Handler Empty)) (tag : Tag)
    (clauses : List Clause) (source : String) :
    QuickTo place (fun made => ∀ context, made = some context →
        context.Calls place entry tag.name)
      (openCall out entry tag clauses source : Run Empty σ (Option (Context Empty))) := by
  refine .bind (quick_callArguments _ _) fun args _ => ?_
  split
  · exact quickTo_showError (fun _ h => by cases h) _ _ _
  · refine .bind (quick_payloadClauses _ _) fun payload _ => ?_
    split
    · exact quickTo_showError (fun _ h => by cases h) _ _ _
    · refine .bind .get fun e he => ?_
      refine .bind (Context.quickTo_make _ entry rfl he.current).attempt fun made hmade => ?_
      split
      · exact quickTo_showError (fun _ h => by cases h) _ _ _
      · rename_i context
        exact .pure fun other hother => by cases hother; exact hmade context rfl

end StoryEngine
