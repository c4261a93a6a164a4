import StoryEngine.Proofs.Engine.Quick
/-!
# StoryEngine.Proofs.Engine.Sure

A render never fails. Whatever goes wrong in it is displayed in place, and the render goes on; the
only way in which it does not come to its end is that the fuel runs out. This holds with any macros
at all, since a call of a macro is an attempt. Nor does the announcement of an event fail, since what
its listeners fail with is noted.
-/

namespace StoryEngine

variable {η σ α β : Type}

/-- The computation never fails. -/
def Sure (x : Run η σ α) : Prop :=
  ∀ e f e', x e ≠ (.error (.failure f), e')

namespace Sure

theorem ofOk {x : Run η σ α} (h : ∀ e, ∃ a e', x e = (.ok a, e')) : Sure x := by
  intro e f e' hx
  obtain ⟨a, e₁, he⟩ := h e
  rw [he] at hx
  cases hx

theorem pure (a : α) : Sure (Pure.pure a : Run η σ α) :=
  ofOk fun e => ⟨a, e, rfl⟩

theorem get : Sure (get : Run η σ (Engine η σ)) :=
  ofOk fun e => ⟨e, e, rfl⟩

theorem modify (change : Engine η σ → Engine η σ) : Sure (modify change : Run η σ Unit) :=
  ofOk fun e => ⟨(), change e, rfl⟩

theorem set (e : Engine η σ) : Sure (set e : Run η σ PUnit) :=
  ofOk fun _ => ⟨⟨⟩, e, rfl⟩

theorem bind {x : Run η σ α} {f : α → Run η σ β} (hx : Sure x) (hf : ∀ a, Sure (f a)) :
    Sure (x >>= f) := by
  intro e failure e' h
  rcases hr : x e with ⟨halt | a, e₁⟩
  · rw [Run.bind_of_error hr] at h
    cases h
    exact hx _ _ _ hr
  · rw [Run.bind_of_ok hr] at h
    exact hf _ _ _ _ h

theorem attempt (x : Run η σ α) : Sure (Run.attempt x) := by
  intro e failure e' h
  unfold Run.attempt at h
  split at h <;> cases h

theorem andFinally {x : Run η σ α} (hx : Sure x) (change : Engine η σ → Engine η σ) :
    Sure (Run.andFinally x change) := by
  intro e failure e' h
  obtain ⟨e₁, hfail, -⟩ := Run.andFinally_returned h (returned_failure failure)
  exact hx _ _ _ hfail

theorem changeTree (change : Tree → Tree) : Sure (Run.changeTree change : Run η σ Unit) :=
  modify _

theorem reading (x : ArgumentReading α) :
    Sure (Run.reading x : Run η σ (Except ArgumentError α)) :=
  ofOk fun _ => ⟨_, _, rfl⟩

end Sure

/-! ### Renders -/

theorem sure_showError (out : OutputId) (message source : String) :
    Sure (showError out message source : Run η σ Unit) :=
  .changeTree _

theorem sure_callArguments (definition : Definition (Handler η)) (raw : String) :
    Sure (callArguments definition raw : Run η σ (Except ArgumentError ArgumentList)) := by
  unfold callArguments
  split
  · exact .pure _
  · exact .reading _

theorem sure_payloadClauses (definition : Definition (Handler η)) (clauses : List Clause) :
    Sure (payloadClauses definition clauses :
      Run η σ (Except ArgumentError (List PayloadClause))) := by
  induction clauses with
  | nil => exact .pure _
  | cons clause rest ih =>
      refine .bind (sure_callArguments definition clause.args) fun args => ?_
      split
      · exact .pure _
      · refine .bind ih fun clauses => ?_
        split
        · exact .pure _
        · exact .pure _

theorem sure_openCall (out : OutputId) (entry : MacroEntry (Handler η)) (tag : Tag)
    (clauses : List Clause) (source : String) :
    Sure (openCall out entry tag clauses source : Run η σ (Option (Context η))) := by
  refine .bind (sure_callArguments _ _) fun args => ?_
  split
  · exact .bind (sure_showError _ _ _) fun _ => .pure none
  · refine .bind (sure_payloadClauses _ _) fun payload => ?_
    split
    · exact .bind (sure_showError _ _ _) fun _ => .pure none
    · refine .bind .get fun e => .bind (.attempt _) fun made => ?_
      split
      · exact .bind (sure_showError _ _ _) fun _ => .pure none
      · exact .pure _

variable (runHandler : Handler η → Context η → Run η σ Unit)

theorem sure_callMacro (out : OutputId) (entry : MacroEntry (Handler η)) (handler : Handler η)
    (tag : Tag) (clauses : List Clause) (source : String) :
    Sure (callMacro runHandler out entry handler tag clauses source) := by
  refine .bind (sure_openCall out entry tag clauses source) fun made => ?_
  split
  · exact .pure ()
  · refine .bind (.attempt _) fun outcome => ?_
    split
    · exact .pure ()
    · exact sure_showError _ _ _

theorem sure_renderTag (out : OutputId) (tag : Tag) (following : List Segment) :
    Sure (renderTag runHandler out tag following) := by
  refine .bind .get fun e => ?_
  dsimp only
  split
  · exact .bind (sure_showError _ _ _) fun _ => .pure 0
  · split
    · exact .pure 0
    · split
      · split
        · exact .bind (sure_showError _ _ _) fun _ => .pure 0
        · exact .bind (sure_callMacro runHandler _ _ _ _ _ _) fun _ => .pure _
      · exact .bind (sure_callMacro runHandler _ _ _ _ _ _) fun _ => .pure 0

theorem sure_renderSegments (out : OutputId) (skip : Nat) (segments : List Segment) :
    Sure (renderSegments runHandler out skip segments) := by
  induction segments generalizing skip with
  | nil => exact .pure ()
  | cons segment rest ih =>
      cases skip with
      | succ skip => exact ih skip
      | zero =>
          refine .bind .get fun e => ?_
          split
          · exact .pure ()
          · split
            · exact .bind (.changeTree _) fun _ => ih 0
            · exact .bind (sure_renderTag runHandler out _ rest) fun skip => ih skip

/-- A render never fails. -/
theorem sure_render (out : OutputId) (source : String) : Sure (render runHandler out source) := by
  refine .bind .get fun e => ?_
  split
  · refine .bind (.set _) fun _ => .andFinally (sure_renderSegments runHandler out 0 _) _
  · exact .bind .get fun e => sure_showError _ _ _

theorem sure_perform_render (host : Host η σ) (n : Nat) (out : OutputId) (source : String) :
    Sure (perform host n (.render out source)) := by
  cases n with
  | zero =>
      intro e f e' h
      cases h
  | succ n => exact sure_render _ out source

/-! ### Events -/

theorem Sure.reporting (x : Run η σ Unit) : Sure (Run.reporting x) := by
  refine .bind (.attempt x) fun outcome => ?_
  cases outcome with
  | ok u => exact .pure ()
  | error f => exact .modify _

theorem sure_callListeners (host : Host η σ) (p : Perform η σ) (detail : String)
    (actions : List (ListenerAction η)) : Sure (callListeners host p detail actions) := by
  induction actions with
  | nil => exact .pure ()
  | cons action rest ih => exact .bind (.reporting _) fun _ => ih

theorem sure_perform_trigger (host : Host η σ) (n : Nat) (event : Event) (detail : String) :
    Sure (perform host n (.trigger event detail)) := by
  cases n with
  | zero =>
      intro e f e' h
      cases h
  | succ n =>
      exact .bind .get fun e => .bind (.modify _) fun _ => sure_callListeners host _ detail _

end StoryEngine
