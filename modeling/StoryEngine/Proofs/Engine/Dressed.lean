import StoryEngine.Proofs.Engine.Aside
import StoryEngine.Proofs.Engine.Quick
/-!
# StoryEngine.Proofs.Engine.Dressed

Work that has nothing to do with what is displayed. An engine can be given the display of another
one, together with what that one knows of where it is (`Engine.dress`). Most of what a macro does
comes to the same in both, and leaves the display as it is (`Run.Shared`).

The rules for `Shared` follow the structure of computations, like those for `Quick`.
-/

namespace StoryEngine

variable {σ α β : Type}

/-- The engine with what another one displays, and with what that one knows of where it is. -/
def Engine.dress (e d : Engine Empty σ) : Engine Empty σ :=
  { e with
    config := { e.config with debug := d.config.debug }
    renderDepth_le := e.renderDepth_le
    tree := d.tree
    current := d.current
    calls := d.calls
    handlers := d.handlers
    typings := d.typings }

namespace Run

/-- The computation does not depend on what is displayed and leaves it alone. It comes to its end,
and the texts that wait wait on. -/
structure Shared (x : Run Empty σ α) : Prop where
  dressed : ∀ e d, x (e.dress d) = ((x e).1, (x e).2.dress d)
  texts : ∀ e, (x e).2.texts = e.texts
  fits : ∀ e, (∀ l ∈ e.listeners, l.Fits) → ∀ l ∈ (x e).2.listeners, l.Fits
  silent : ∀ e, Listener.of e.listeners .typingStop = [] →
    Listener.of (x e).2.listeners .typingStop = []
  returned : ∀ e, Returned (x e).1

namespace Shared

variable {x : Run Empty σ α}

/-- What another engine would be given is left alone. -/
theorem undressed (hx : x.Shared) (e : Engine Empty σ) :
    (x e).2.config.debug = e.config.debug ∧ (x e).2.tree = e.tree ∧
      (x e).2.current = e.current ∧ (x e).2.calls = e.calls ∧ (x e).2.handlers = e.handlers ∧
      (x e).2.typings = e.typings := by
  have hself : (x e).2 = (x e).2.dress e := congrArg Prod.snd (hx.dressed e e)
  rw [hself]
  exact ⟨rfl, rfl, rfl, rfl, rfl, rfl⟩

/-- Neither the queue of texts nor the listeners change. -/
theorem of_keeps (hdressed : ∀ e d, x (e.dress d) = ((x e).1, (x e).2.dress d))
    (hkeeps : ∀ e, (x e).2.typeQueue = e.typeQueue ∧ (x e).2.listeners = e.listeners)
    (hreturned : ∀ e, Returned (x e).1) : x.Shared where
  dressed := hdressed
  texts e := by
    unfold Engine.texts
    rw [(hkeeps e).1]
  fits e h := by
    rw [(hkeeps e).2]
    exact h
  silent e h := by
    rw [(hkeeps e).2]
    exact h
  returned := hreturned

theorem pure (a : α) : Shared (Pure.pure a : Run Empty σ α) :=
  .of_keeps (fun _ _ => rfl) (fun _ => ⟨rfl, rfl⟩) fun _ => returned_ok a

theorem bind {f : α → Run Empty σ β} (hx : x.Shared) (hf : ∀ a, (f a).Shared) :
    Shared (x >>= f) := by
  have hstep (e : Engine Empty σ) : (∃ a e₁, x e = (.ok a, e₁) ∧ (x >>= f) e = f a e₁) ∨
      ∃ failure e₁, x e = (.error (.failure failure), e₁) ∧
        (x >>= f) e = (.error (.failure failure), e₁) := by
    have hreturned := hx.returned e
    rcases hxe : x e with ⟨(failure | _) | a, e₁⟩
    · exact .inr ⟨failure, e₁, rfl, bind_of_error hxe⟩
    · rw [hxe] at hreturned
      exact (hreturned rfl).elim
    · exact .inl ⟨a, e₁, rfl, bind_of_ok hxe⟩
  refine ⟨fun e d => ?_, fun e => ?_, fun e h => ?_, fun e h => ?_, fun e => ?_⟩
  · have hdressed := hx.dressed e d
    rw [bind_apply, hdressed]
    rcases hstep e with ⟨a, e₁, hxe, hbind⟩ | ⟨failure, e₁, hxe, hbind⟩
    · rw [hbind, hxe]
      exact (hf a).dressed e₁ d
    · rw [hbind, hxe]
  · have htexts := hx.texts e
    rcases hstep e with ⟨a, e₁, hxe, hbind⟩ | ⟨failure, e₁, hxe, hbind⟩
    · rw [hxe] at htexts
      rw [hbind, (hf a).texts, htexts]
    · rw [hxe] at htexts
      rw [hbind, htexts]
  · have hfits := hx.fits e h
    rcases hstep e with ⟨a, e₁, hxe, hbind⟩ | ⟨failure, e₁, hxe, hbind⟩
    · rw [hxe] at hfits
      rw [hbind]
      exact (hf a).fits e₁ hfits
    · rw [hxe] at hfits
      rw [hbind]
      exact hfits
  · have hsilent := hx.silent e h
    rcases hstep e with ⟨a, e₁, hxe, hbind⟩ | ⟨failure, e₁, hxe, hbind⟩
    · rw [hxe] at hsilent
      rw [hbind]
      exact (hf a).silent e₁ hsilent
    · rw [hxe] at hsilent
      rw [hbind]
      exact hsilent
  · rcases hstep e with ⟨a, e₁, hxe, hbind⟩ | ⟨failure, e₁, hxe, hbind⟩
    · rw [hbind]
      exact (hf a).returned e₁
    · rw [hbind]
      exact returned_failure failure

/-- Work that depends on the engine, but not on what is displayed. -/
theorem get {f : Engine Empty σ → Run Empty σ α} (hf : ∀ e, (f e).Shared)
    (hdress : ∀ e d, f (e.dress d) = f e) : Shared (MonadState.get >>= f) where
  dressed e d := by
    rw [get_bind_apply, get_bind_apply, hdress]
    exact (hf e).dressed e d
  texts e := (hf e).texts e
  fits e := (hf e).fits e
  silent e := (hf e).silent e
  returned e := (hf e).returned e

theorem modify {f : Engine Empty σ → Engine Empty σ}
    (hdress : ∀ e d, f (e.dress d) = (f e).dress d)
    (hkeeps : ∀ e, (f e).typeQueue = e.typeQueue ∧ (f e).listeners = e.listeners) :
    Shared (modify f : Run Empty σ Unit) :=
  .of_keeps (fun e d => congrArg (Prod.mk (Except.ok ())) (hdress e d)) hkeeps fun _ => returned_ok _

theorem evaluating (x : Evaluation α) :
    Shared (Run.evaluating x : Run Empty σ (Except ExprError α)) :=
  .of_keeps (fun _ _ => rfl) (fun _ => ⟨rfl, rfl⟩) fun _ => returned_ok _

theorem reading (x : ArgumentReading α) :
    Shared (Run.reading x : Run Empty σ (Except ArgumentError α)) :=
  .of_keeps (fun _ _ => rfl) (fun _ => ⟨rfl, rfl⟩) fun _ => returned_ok _

theorem changingState (change : State → Except InvalidVariable State) :
    Shared (Run.changingState change : Run Empty σ Unit) := by
  refine .of_keeps (fun e d => ?_) (fun e => ?_) fun e => ?_
  · rw [Run.changingState, get_bind_apply, get_bind_apply]
    have hstate : (e.dress d).state = e.state := rfl
    rw [hstate]
    cases change e.state <;> rfl
  · rw [Run.changingState, get_bind_apply]
    cases change e.state <;> exact ⟨rfl, rfl⟩
  · rw [Run.changingState, get_bind_apply]
    cases change e.state with
    | ok s => exact returned_ok _
    | error error => exact returned_failure _

theorem withClock (change : Clock (TimerAction Empty) → α × Clock (TimerAction Empty)) :
    Shared (Run.withClock change : Run Empty σ α) :=
  .of_keeps (fun _ _ => rfl) (fun _ => ⟨rfl, rfl⟩) fun _ => returned_ok _

theorem changeClock (change : Clock (TimerAction Empty) → Clock (TimerAction Empty)) :
    Shared (Run.changeClock change : Run Empty σ Unit) :=
  .of_keeps (fun _ _ => rfl) (fun _ => ⟨rfl, rfl⟩) fun _ => returned_ok _

theorem moment : Shared (Run.moment : Run Empty σ Moment) :=
  .of_keeps (fun _ _ => rfl) (fun _ => ⟨rfl, rfl⟩) fun _ => returned_ok _

/-- A listener is registered that does not wait for the end of a text. -/
theorem listen {l : Listener (ListenerAction Empty)} (hfits : l.Fits)
    (hevent : l.event ≠ .typingStop) : Shared (Run.listen l : Run Empty σ Unit) where
  dressed _ _ := rfl
  texts _ := rfl
  fits e h other hother := by
    rcases List.mem_append.mp hother with hold | hnew
    · exact h other hold
    · exact List.mem_singleton.mp hnew ▸ hfits
  silent e h := by
    refine (Listener.of_append e.listeners l .typingStop).trans ?_
    rw [if_neg hevent]
    exact h
  returned _ := returned_ok _

theorem unlisten (event : Option Event) (name : String) :
    Shared (Run.unlisten event name : Run Empty σ Unit) where
  dressed _ _ := rfl
  texts _ := rfl
  fits e h l hl := h l (List.mem_filter.mp hl).1
  silent e h := by
    refine List.filter_eq_nil_iff.mpr fun l hl => ?_
    exact List.filter_eq_nil_iff.mp h l (List.mem_filter.mp hl).1
  returned _ := returned_ok _

end Shared

end Run

/-! ### What macros do without displaying anything -/

open Run

theorem Run.Shared.snapshot (names : List String) : Shared (snapshot names : Run Empty σ Overlay) :=
  .of_keeps (fun _ _ => rfl) (fun _ => ⟨rfl, rfl⟩) fun _ => returned_ok _

theorem shared_callArguments (definition : Definition (Handler Empty)) (raw : String) :
    Shared (callArguments definition raw : Run Empty σ (Except ArgumentError ArgumentList)) := by
  unfold callArguments
  split
  · exact .pure _
  · exact .reading _

theorem shared_payloadClauses (definition : Definition (Handler Empty)) (clauses : List Clause) :
    Shared (payloadClauses definition clauses :
      Run Empty σ (Except ArgumentError (List PayloadClause))) := by
  induction clauses with
  | nil => exact .pure _
  | cons clause rest ih =>
      refine .bind (shared_callArguments definition clause.args) fun args => ?_
      cases args with
      | error e => exact .pure _
      | ok args =>
          refine .bind ih fun clauses => ?_
          cases clauses with
          | error e => exact .pure _
          | ok clauses => exact .pure _

namespace Builtin

theorem shared_clauseHolds (clause : PayloadClause) :
    Shared (clauseHolds clause : Run Empty σ (Except ExprError Bool)) := by
  unfold clauseHolds
  split
  · exact .pure _
  · exact .evaluating _

theorem shared_unsetAll (names : List String) : Shared (unsetAll names : Run Empty σ Unit) := by
  induction names with
  | nil => exact .pure _
  | cons name rest ih => exact .bind (.changingState _) fun _ => ih

theorem shared_takeBreak : Shared (takeBreak : Run Empty σ Bool) :=
  .of_keeps (fun _ _ => rfl) (fun _ => ⟨rfl, rfl⟩) fun _ => returned_ok _

theorem shared_tooManyPasses : Shared (tooManyPasses : Run Empty σ String) :=
  .of_keeps (fun _ _ => rfl) (fun _ => ⟨rfl, rfl⟩) fun _ => returned_ok _

theorem shared_conditionHolds (condition : Option String) :
    Shared (conditionHolds condition : Run Empty σ (Except ExprError Bool)) := by
  cases condition with
  | none => exact .pure _
  | some condition => exact .evaluating (evaluateCondition condition)

theorem shared_evaluatePart (part : Option String) :
    Shared (evaluatePart part : Run Empty σ (Option ExprError)) := by
  cases part with
  | none => exact .pure _
  | some expression =>
      refine .bind (.evaluating _) fun result => ?_
      cases result <;> exact .pure _

theorem shared_setVariable (value : Value) (name : Option String) :
    Shared (setVariable value name : Run Empty σ Unit) := by
  cases name with
  | none => exact .pure _
  | some name => exact .changingState fun s => s.set name value

theorem shared_startInterval (handler : HandlerId) (delay : Nat) :
    Shared (startInterval handler delay : Run Empty σ Unit) := by
  refine .bind .moment fun moment => .bind (.withClock _) fun id => ?_
  refine .get (fun e => ?_) fun _ _ => rfl
  refine .bind (.modify (fun _ _ => rfl) fun _ => ⟨rfl, rfl⟩) fun _ => ?_
  split
  · exact .listen rfl (by decide)
  · exact .pure _

theorem shared_startChain (chain delay : Nat) : Shared (startChain chain delay : Run Empty σ Unit) := by
  refine .bind (.bind (.withClock _) fun id => ?_) fun _ => .get (fun e => ?_) fun _ _ => rfl
  · exact .modify (fun _ _ => rfl) fun _ => ⟨rfl, rfl⟩
  · split
    · exact .listen rfl (by decide)
    · exact .pure _

theorem shared_forgetAmongRepeats (id : TimerId) :
    Shared (forgetAmongRepeats id : Run Empty σ Unit) := by
  refine .get (fun e => ?_) fun _ _ => rfl
  split
  · exact .modify (fun _ _ => rfl) fun _ => ⟨rfl, rfl⟩
  · exact .modify (fun _ _ => rfl) fun _ => ⟨rfl, rfl⟩
  · exact .pure _

theorem shared_dropTyping : Shared (dropTyping : Run Empty σ Unit) :=
  .unlisten none typingNamespace

/-- The beginning of a turn's queue: what is left of the queue before is dropped. -/
theorem shared_listenToTurn : Shared (do
    dropTyping
    Run.listen ⟨.passageInit, some typingNamespace, true, .dropTyping⟩ : Run Empty σ Unit) :=
  .bind shared_dropTyping fun _ => .listen rfl (by decide)

theorem shared_openQueue : Shared (openQueue : Run Empty σ Bool) where
  dressed e d := by
    rw [openQueue, get_bind_apply, get_bind_apply]
    have hqueue : (e.dress d).typeQueue = e.typeQueue := rfl
    rw [hqueue]
    cases e.typeQueue <;> rfl
  texts e := by
    rw [openQueue, get_bind_apply]
    unfold Engine.texts
    cases hqueue : e.typeQueue with
    | none =>
        change (some (e.typeQueue.getD [])).getD [] = _
        rw [hqueue]
        rfl
    | some queue =>
        change e.typeQueue.getD [] = queue
        rw [hqueue]
        rfl
  fits e h := by
    rw [openQueue, get_bind_apply]
    cases e.typeQueue with
    | none => exact shared_listenToTurn.fits e h
    | some queue => exact h
  silent e h := by
    rw [openQueue, get_bind_apply]
    cases e.typeQueue with
    | none => exact shared_listenToTurn.silent e h
    | some queue => exact h
  returned e := by
    rw [openQueue, get_bind_apply]
    cases e.typeQueue <;> exact returned_ok _

end Builtin

end StoryEngine
