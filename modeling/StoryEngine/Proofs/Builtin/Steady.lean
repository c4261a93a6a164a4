import StoryEngine.Proofs.Engine.Steady
/-!
# StoryEngine.Proofs.Builtin.Steady

The work of the built-in macros, as far as what is put off is concerned, and of what they put off
themselves. Intervals and chains of clauses are tracked from the moment in which they are set, and when
the first of a kind is set, a listener registers that cancels them. Texts that are typed have timers
and listeners of their own. An interval or a text that is typed may cancel its own timer when that
fires; apart from this, only the interval that is ticking is cancelled by itself.
-/

namespace StoryEngine.Builtin

variable {η σ : Type} {terms : Terms η σ} (call : MacroCall η) (context : Context η)

/-- A task that lets no time pass. -/
theorem steady_render (out : OutputId) (source : String) :
    Steady terms fun p : Perform η σ => p (.render out source) :=
  .task trivial

/-! ### Expressions -/

theorem steady_withExpression {F : Value → Perform η σ → Run η σ Unit}
    (hF : ∀ value, Steady terms (F value)) :
    Steady terms fun p => withExpression call fun value => F value p := by
  refine .ite (call.steady_error _) (.bind (.evaluating (reassigns_evaluate _)) fun result => ?_)
  cases result with
  | error e => exact call.steady_error _
  | ok value => exact hF value

theorem steady_runPrint : Steady terms fun p : Perform η σ => runPrint p call := by
  refine steady_withExpression call fun value => .ite (.pure ()) ?_
  refine .bind call.steady_target fun out => .ite (.still fun _ => rfl) ?_
  exact steady_render _ _

theorem steady_runSet : Steady terms fun _ : Perform η σ => (runSet call : Run η σ Unit) :=
  steady_withExpression call fun _ => call.steady_showModes _

theorem steady_unsetAll (names : List String) :
    Steady terms fun _ : Perform η σ => (unsetAll names : Run η σ Unit) := by
  induction names with
  | nil => exact .pure ()
  | cons name rest ih =>
      refine .bind (.changingState fun s t hunset => ?_) fun _ => ih
      cases hu : s.unset name with
      | error e => rw [hu] at hunset; cases hunset
      | ok result =>
          rw [hu] at hunset
          cases hunset
          exact State.reassigned_of_unset hu

theorem steady_runUnset : Steady terms fun _ : Perform η σ => (runUnset call : Run η σ Unit) :=
  .ite (call.steady_error _)
    (.bind (steady_unsetAll _) fun _ => call.steady_showModes _)

/-! ### Choices -/

theorem steady_clauseView (name title : String) (modes : List (String × Bool)) :
    Steady terms fun _ : Perform η σ => (clauseView call name title modes : Run η σ Unit) :=
  .bind (call.steady_createView _ _) fun _ => .still fun _ => rfl

theorem steady_skippedViews (clauses : List PayloadClause) :
    Steady terms fun _ : Perform η σ => (skippedViews call clauses : Run η σ Unit) := by
  induction clauses with
  | nil => exact .pure ()
  | cons clause rest ih => exact .bind (steady_clauseView call _ _ _) fun _ => ih

theorem steady_closingViews (isDebug found : Bool) (after : List PayloadClause) :
    Steady terms fun _ : Perform η σ => (closingViews call isDebug found after : Run η σ Unit) :=
  .ite (.bind (steady_skippedViews call after) fun _ => steady_clauseView call _ _ _) (.pure ())

theorem steady_clauseHolds (clause : PayloadClause) :
    Steady terms fun _ : Perform η σ => (clauseHolds clause : Run η σ (Except ExprError Bool)) :=
  .ite (.pure _) (.evaluating (reassigns_evaluateCondition _))

theorem steady_chooseFrom (isDebug : Bool) (index : Nat) (clauses : List PayloadClause) :
    Steady terms fun p : Perform η σ => chooseFrom p call isDebug index clauses := by
  induction clauses generalizing index with
  | nil => exact steady_closingViews call isDebug false []
  | cons clause rest ih =>
      unfold chooseFrom
      refine .nextWhen (steady_clauseView call _ _ _) ?_
      refine .bind (steady_clauseHolds clause) fun result => ?_
      rcases result with e | holds | holds
      · exact call.steady_error _
      · exact .bind (call.steady_showModes _) fun _ => ih (index + 1)
      · refine .bind call.steady_target fun out => .bind (steady_render _ _) fun _ => ?_
        exact steady_closingViews call isDebug true rest

theorem steady_runChoose : Steady terms fun p : Perform η σ => runChoose p call := by
  refine .get fun e => ?_
  dsimp only
  generalize firstFault? e.config.debug 0 call.payload = fault
  cases fault with
  | some fault => exact call.steady_error fault
  | none => exact steady_chooseFrom call _ 0 call.payload

/-! ### Loops -/

theorem steady_hideBlank (body : List Char) :
    Steady terms fun _ : Perform η σ => (hideBlank call body : Run η σ Unit) :=
  .ite (call.steady_showModes _) (.pure ())

theorem steady_conditionHolds (condition : Option String) :
    Steady terms fun _ : Perform η σ =>
      (conditionHolds condition : Run η σ (Except ExprError Bool)) := by
  cases condition with
  | none => exact .pure _
  | some condition => exact .evaluating (reassigns_evaluateCondition condition)

theorem steady_evaluatePart (part : Option String) :
    Steady terms fun _ : Perform η σ => (evaluatePart part : Run η σ (Option ExprError)) := by
  cases part with
  | none => exact .pure none
  | some expression =>
      refine .bind (.evaluating (reassigns_evaluate expression)) fun result => ?_
      cases result with
      | ok value => exact .pure none
      | error e => exact .pure (some e)

theorem steady_tooManyPasses :
    Steady terms fun _ : Perform η σ =>
      (tooManyPasses >>= fun message => call.error message : Run η σ Unit) :=
  .next (fun _ => rfl) fun _ => call.steady_error _

theorem steady_renderPass (body : List Char) (isFirst : Bool) :
    Steady terms fun p : Perform η σ => renderPass p call body isFirst :=
  .bind call.steady_target fun _ => .bind (steady_render _ _) fun _ => .still fun _ => rfl

theorem steady_loopSteps (body : List Char) (condition post : Option String) (remaining : Nat)
    (isFirst : Bool) :
    Steady terms fun p : Perform η σ =>
      loopSteps p call body condition post remaining isFirst := by
  induction remaining generalizing isFirst with
  | zero =>
      unfold loopSteps
      refine .bind (steady_conditionHolds condition) fun result => ?_
      rcases result with e | holds | holds
      · exact call.steady_error _
      · exact .pure ()
      · exact steady_tooManyPasses call
  | succ remaining ih =>
      unfold loopSteps
      refine .bind (steady_conditionHolds condition) fun result => ?_
      rcases result with e | holds | holds
      · exact call.steady_error _
      · exact .pure ()
      · refine .bind (steady_renderPass call body isFirst) fun left => .ite (.pure ()) ?_
        refine .bind (steady_evaluatePart post) fun result => ?_
        cases result with
        | none => exact ih false
        | some e => exact call.steady_error _

theorem steady_setVariable (value : Value) (name : Option String) :
    Steady terms fun _ : Perform η σ => (setVariable value name : Run η σ Unit) := by
  cases name with
  | none => exact .pure ()
  | some name => exact .changingState fun _ _ => State.reassigned_of_set

theorem steady_loopRange (body : List Char) (key value : Option String) (remaining : Nat)
    (isFirst : Bool) (entries : RangeEntries) :
    Steady terms fun p : Perform η σ =>
      loopRange p call body key value remaining isFirst entries := by
  induction remaining generalizing isFirst entries with
  | zero =>
      unfold loopRange
      rcases entries.next? with _ | ⟨⟨entryKey, entryValue⟩, rest⟩
      · exact .pure ()
      · exact steady_tooManyPasses call
  | succ remaining ih =>
      unfold loopRange
      rcases entries.next? with _ | ⟨⟨entryKey, entryValue⟩, rest⟩
      · exact .pure ()
      · refine .bind (steady_setVariable entryKey key) fun _ => ?_
        refine .bind (steady_setVariable entryValue value) fun _ => ?_
        refine .bind (steady_renderPass call body isFirst) fun left => ?_
        exact .ite (.pure ()) (ih false rest)

theorem steady_runForm (body : List Char) (form : LoopForm) :
    Steady terms fun p : Perform η σ => runForm p call body form := by
  cases form with
  | malformed message => exact call.steady_error message
  | steps init condition post =>
      refine .bind (steady_hideBlank call body) fun _ => ?_
      refine .bind (steady_evaluatePart init) fun result => ?_
      cases result with
      | some e => exact call.steady_error _
      | none => exact .get fun e => steady_loopSteps call body condition post _ true
  | range key value collection =>
      refine .bind (.evaluating (reassigns_evaluate collection)) fun result => ?_
      cases result with
      | error e => exact call.steady_error _
      | ok collection =>
          dsimp only
          cases rangeEntries collection with
          | error message => exact call.steady_error message
          | ok entries =>
              refine .bind (steady_hideBlank call body) fun _ => ?_
              exact .get fun e => steady_loopRange call body key value _ true entries

theorem steady_asLoop {X : Perform η σ → Run η σ Unit} (hX : Steady terms X) :
    Steady terms fun p => asLoop (X p) :=
  .next (fun _ => rfl) fun _ => .andFinally hX fun _ => rfl

theorem steady_runLoopControl :
    Steady terms fun _ : Perform η σ => (runLoopControl context : Run η σ Unit) :=
  .ite (.next (fun _ => rfl) fun _ => context.call.steady_showModes _)
    (context.call.steady_error _)

/-! ### Captures and links -/

theorem steady_runCapture : Steady terms fun p : Perform η σ => runCapture p call := by
  refine .ite (call.steady_error _) (.bind (call.steady_addShadows _) fun _ => ?_)
  refine .next (fun _ => rfl) fun names => .next (fun _ => rfl) fun overlay => ?_
  refine steady_underOverlay overlay ?_
  exact .bind call.steady_target fun out => steady_render _ _

theorem steady_showImage (element : ElementId) (first : Value) :
    Steady terms fun _ : Perform η σ => (showImage element first : Run η σ Unit) := by
  refine .next (fun _ => rfl) fun image => ?_
  cases textMember? first "source" with
  | some source => exact .next (fun _ => rfl) fun _ => .still fun _ => rfl
  | none => exact .still fun _ => rfl

theorem steady_fillLink (element : ElementId) (first : Value) :
    Steady terms fun p : Perform η σ => fillLink p call element first := by
  refine .next (fun _ => rfl) fun content => .ite ?_ (.ite ?_ ?_)
  · exact .bind (steady_showImage element first) fun _ => .pure _
  · exact .next (fun _ => rfl) fun _ => .ite (.next (fun _ => rfl) fun _ => .pure _) (.pure _)
  · exact .bind (steady_render _ _) fun _ => .pure _

theorem steady_labelLink (element : ElementId) (passage : Option String) :
    Steady terms fun _ : Perform η σ => (labelLink element passage : Run η σ Unit) := by
  cases passage with
  | some title => exact .get fun e => .still fun _ => rfl
  | none => exact .still fun _ => rfl

theorem steady_makeClickable (element : ElementId) (contents : String)
    (passage : Option String) :
    Steady terms fun _ : Perform η σ =>
      (makeClickable context element contents passage : Run η σ Unit) :=
  .bind (ShadowHandler.steady_make context _ _ _) fun _ => .still fun _ => rfl

theorem steady_runLink : Steady terms fun p : Perform η σ => runLink p context := by
  unfold runLink
  dsimp only
  cases context.call.args.values with
  | nil => exact context.call.steady_error _
  | cons first rest =>
      refine .next (fun _ => rfl) fun element => ?_
      refine .bind (steady_fillLink context.call element first) fun passage => ?_
      refine .bind (steady_labelLink element passage) fun _ => .next (fun _ => rfl) fun _ => ?_
      refine .bind (steady_makeClickable context element _ passage) fun _ => ?_
      exact .bind context.call.steady_target fun out => .still fun _ => rfl

theorem steady_runPayload (contents : String) :
    Steady terms fun p : Perform η σ => runPayload p contents :=
  .next (fun _ => rfl) fun _ => .bind (steady_render _ _) fun _ => .next (fun _ => rfl) fun _ =>
    .ite (.pure ()) (.fail _)

/-! ### Intervals -/

theorem steady_appendTransition (out : OutputId) (classes newClass : String) :
    Steady terms fun _ : Perform η σ =>
      (appendTransition out classes newClass : Run η σ ElementId) := by
  refine .next (fun _ => rfl) fun element => .next (fun _ => rfl) fun _ => .get fun e => ?_
  exact .bind (.setTimeout _ rfl) fun _ => .pure element

theorem steady_startInterval (handler : HandlerId) (delay : Nat) :
    Steady terms fun _ : Perform η σ => (startInterval handler delay : Run η σ Unit) := by
  refine .own fun e => .single ?_
  have hstep : TimerStep terms e _ := .interval handler ⟨e.state.passage, e.state.turns⟩ delay
  let tracked : Engine η σ := { e with
    clock := (e.clock.setInterval delay
      (.repeatTick handler ⟨e.state.passage, e.state.turns⟩)).2
    repeatTimers := e.repeatTimers ++ [e.clock.nextId] }
  show TimerStep terms e
    ((if e.repeatTimers.isEmpty then Run.listen repeatsCleaner else pure () : Run η σ Unit) tracked).2
  by_cases hfirst : e.repeatTimers = []
  · rw [if_pos hfirst] at hstep
    rw [if_pos (List.isEmpty_iff.mpr hfirst)]
    exact hstep
  · rw [if_neg hfirst] at hstep
    rw [if_neg (mt List.isEmpty_iff.mp hfirst)]
    exact hstep

theorem steady_runRepeat :
    Steady terms fun _ : Perform η σ => (runRepeat context : Run η σ Unit) := by
  unfold runRepeat
  dsimp only
  cases context.call.args.text? 0 with
  | none => exact context.call.steady_error _
  | some time =>
      refine .get fun e => ?_
      cases delayOf time e.config.domDelayMs with
      | error error => exact context.call.steady_error _
      | ok delay =>
          refine .bind (context.call.steady_showModes _) fun _ => ?_
          refine .bind context.call.steady_target fun out => .next (fun _ => rfl) fun wrapper => ?_
          refine .next (fun _ => rfl) fun _ => ?_
          refine .bind (ShadowHandler.steady_make context _ _ _) fun handler => ?_
          exact steady_startInterval handler delay

theorem steady_runRepeatBody (wrapper : ElementId) (contents : String) (transition : Bool) :
    Steady terms fun p : Perform η σ => runRepeatBody p wrapper contents transition := by
  refine .next (fun _ => rfl) fun fragment => .bind (steady_render _ _) fun _ => ?_
  refine .next (fun _ => rfl) fun content => .ite ?_ (.still fun _ => rfl)
  exact .bind (steady_appendTransition _ _ _) fun insert => .still fun _ => rfl

/-- An interval ticks, and then another one ticks on, or none. -/
theorem steady_ticking {id : TimerId} (hid : terms.clears id) {previous : Option TimerId}
    (hprevious : ∀ id, previous = some id → terms.clears id) {X : Perform η σ → Run η σ Unit}
    (hX : Steady terms X) : Steady terms fun p => (do
      modify fun e => { e with loopBreak := none, repeatTimer := some id }
      Run.andFinally (X p) fun e => { e with repeatTimer := previous, loopBreak := none } :
        Run η σ Unit) := by
  have hticks {timer : Option TimerId} (h : ∀ id, timer = some id → terms.clears id)
      (e : Engine η σ) : TimerSteps terms e { e with loopBreak := none, repeatTimer := timer } := by
    have hstill : TimerStep terms e { e with loopBreak := none } := .still rfl
    exact .tail (.single hstill) (.tick timer h)
  have hbegin : Steady terms fun _ : Perform η σ =>
      (modify fun e => { e with loopBreak := none, repeatTimer := some id } : Run η σ Unit) :=
    .own fun e => hticks (fun other h => by cases h; exact hid) e
  exact .bind hbegin fun _ => hX.andFinallySteps (hticks hprevious)

theorem steady_asTick (hclears : ∀ id, terms.clears id) (id : TimerId)
    {X : Perform η σ → Run η σ Unit} (hX : Steady terms X) :
    Steady terms fun p => asTick id (X p) :=
  .get fun _ => steady_ticking (hclears id) (fun id _ => hclears id) hX

/-- An interval that is stale cancels its own timer. -/
theorem steady_dropRepeat {id : TimerId} (hclears : terms.clears id) :
    Steady terms fun _ : Perform η σ =>
      (do Run.changeClock fun c => c.clearTimer id; forgetRepeat id : Run η σ Unit) := by
  refine .own fun e => ?_
  exact .tail (.single (.clear id (.inr hclears))) (.forgetRepeat id (e.clock.isPending_clearTimer id))

theorem steady_runRepeatTick (hclears : ∀ id, terms.clears id) (handler : HandlerId)
    (moment : Moment) (id : TimerId) :
    Steady terms fun p : Perform η σ => runRepeatTick p handler moment id :=
  .next (fun _ => rfl) fun _ =>
    .ite (steady_dropRepeat (hclears id)) (steady_asTick hclears id (.task trivial))

theorem steady_clearRepeats (hends : terms.endsTurn) :
    Steady terms fun _ : Perform η σ => (clearRepeats : Run η σ Unit) :=
  .own fun _ => .single (.clearRepeats hends)

/-- End the interval that is ticking, if there is one. -/
def cancelTicking : Run η σ Bool := do
  match (← get).repeatTimer with
  | none => return false
  | some id => do
    Run.changeClock fun c => c.clearTimer id
    forgetAmongRepeats id
    return true

theorem runStop_eq : runStop call = (do
    if ← (cancelTicking : Run η σ Bool) then
      modify fun e => { e with loopBreak := some .«break» }
      call.showModes ["hidden"]
    else call.error "must only be used in conjunction with its parent macro <<repeat>>") := by
  funext e
  rw [runStop, cancelTicking, bind_assoc, Run.get_bind_apply, Run.get_bind_apply]
  cases e.repeatTimer with
  | none => rfl
  | some id => simp only [bind_assoc, pure_bind, if_true]

/-- The interval is forgotten after it is cancelled, whatever macro the name `repeat` stands for. -/
theorem steady_cancelTicking :
    Steady terms fun _ : Perform η σ => (cancelTicking : Run η σ Bool) := by
  refine .own fun e => ?_
  rw [cancelTicking, Run.get_bind_apply]
  cases hticking : e.repeatTimer with
  | none => exact .refl
  | some id =>
      let cancelled : Engine η σ := { e with clock := e.clock.clearTimer id }
      have hcancel : TimerStep terms e cancelled := .clear id (.inl hticking)
      have hgone : cancelled.clock.isPending id = false := e.clock.isPending_clearTimer id
      show TimerSteps terms e ((forgetAmongRepeats id >>= fun _ => pure true) cancelled).2
      rw [forgetAmongRepeats, bind_assoc, Run.get_bind_apply]
      generalize (cancelled.registry.get? "repeat").bind (fun entry => entry.definition.handler) =
        handler
      split
      · exact .tail (.single hcancel) (.forgetRepeat id hgone)
      · exact .tail (.single hcancel) (.forgetTimed id hgone)
      · exact .single hcancel

theorem steady_runStop : Steady terms fun _ : Perform η σ => (runStop call : Run η σ Unit) := by
  rw [runStop_eq]
  refine .bind steady_cancelTicking fun ended => .ite ?_ (call.steady_error _)
  exact .next (fun _ => rfl) fun _ => call.steady_showModes _

/-! ### Chains of clauses -/

/-- A timer is set for the first clause. The first chain comes with a listener. -/
theorem startChain_apply (chain delay : Nat) (e : Engine η σ) :
    startChain chain delay e = (.ok (), { e with
      clock := (e.clock.setTimeout delay (.timedStep chain)).2
      timedTimers := e.timedTimers ++ [e.clock.nextId]
      listeners := if e.timedTimers = [] then e.listeners ++ [timedCleaner] else e.listeners }) := by
  let tracked : Engine η σ := { e with
    clock := (e.clock.setTimeout delay (.timedStep chain)).2
    timedTimers := e.timedTimers ++ [e.clock.nextId] }
  show (if tracked.timedTimers.length = 1 then Run.listen timedCleaner else pure () : Run η σ Unit)
    tracked = _
  have hlength : tracked.timedTimers.length = 1 ↔ e.timedTimers = [] := by
    simp [tracked]
  by_cases hfirst : e.timedTimers = []
  · rw [if_pos (hlength.mpr hfirst), if_pos hfirst]
    rfl
  · rw [if_neg (mt hlength.mp hfirst), if_neg hfirst]
    rfl

/-- Begin a chain with a handler that has been made. -/
def beginChain (handler : HandlerId) (first : TimedItem) (others : List TimedItem) :
    Run η σ Unit := do
  let e ← get
  modify fun e => { e with
    chains := e.chains.push ⟨handler, first :: others, ⟨e.state.passage, e.state.turns⟩⟩ }
  startChain e.chains.size first.delay

theorem makeChain_startChain (body : Callback η) (first : TimedItem) (others : List TimedItem) :
    (do
      let chain ← makeChain context body (first :: others)
      startChain chain first.delay : Run η σ Unit) = (do
      let handler ← ShadowHandler.make context none (some body) none
      beginChain handler first others) := by
  rw [makeChain, bind_assoc]
  rfl

theorem steady_beginChain (handler : HandlerId) (first : TimedItem) (others : List TimedItem) :
    Steady terms fun _ : Perform η σ => (beginChain handler first others : Run η σ Unit) := by
  refine .own fun e => .single ?_
  have hstep : TimerStep terms e _ :=
    .chain ⟨handler, first :: others, ⟨e.state.passage, e.state.turns⟩⟩ rfl rfl
  rw [beginChain, Run.get_bind_apply, Run.modify_bind_apply, startChain_apply]
  exact hstep

theorem steady_runTimed :
    Steady terms fun _ : Perform η σ => (runTimed context : Run η σ Unit) := by
  refine .get fun e => ?_
  dsimp only
  cases timedItems context.call e.config.domDelayMs with
  | error message => exact context.call.steady_error message
  | ok items =>
      refine .bind (context.call.steady_showModes _) fun _ => ?_
      refine .bind context.call.steady_target fun out => .next (fun _ => rfl) fun wrapper => ?_
      refine .next (fun _ => rfl) fun _ => ?_
      rw [makeChain_startChain]
      exact .bind (ShadowHandler.steady_make context _ _ _) fun handler =>
        steady_beginChain handler _ _

theorem steady_itemTarget (wrapper : ElementId) (item : TimedItem) :
    Steady terms fun _ : Perform η σ => (itemTarget wrapper item : Run η σ OutputId) :=
  .next (fun _ => rfl) fun _ => .get fun _ =>
    .ite (.next (fun _ => rfl) fun _ => .still fun _ => rfl) (.pure _)

theorem steady_runTimedBody (wrapper : ElementId) (transition : Bool) (item : TimedItem) :
    Steady terms fun p : Perform η σ => runTimedBody p wrapper transition item := by
  refine .next (fun _ => rfl) fun fragment => .bind (steady_render _ _) fun _ => ?_
  refine .bind (steady_itemTarget _ _) fun target => .ite ?_ (.still fun _ => rfl)
  exact .bind (steady_appendTransition _ _ _) fun insert => .still fun _ => rfl

theorem steady_clearTimed (hends : terms.endsTurn) :
    Steady terms fun _ : Perform η σ => (clearTimed : Run η σ Unit) :=
  .own fun _ => .single (.clearTimed hends)

/-! ### Typing -/

theorem steady_openQueue :
    Steady terms fun _ : Perform η σ => (openQueue : Run η σ Bool) := by
  refine .get fun e => ?_
  cases e.typeQueue with
  | some queue => exact .pure _
  | none =>
      refine .bind (.unlisten none typingNamespace) fun _ => .bind (.listen (fun _ => rfl) rfl) fun _ => ?_
      exact .next (fun _ => rfl) fun _ => .pure true

theorem steady_enqueue (body : Nat → Callback η) :
    Steady terms fun _ : Perform η σ => (enqueue context body : Run η σ Unit) :=
  .get fun _ => .next (fun _ => rfl) fun _ =>
    .bind (ShadowHandler.steady_make context _ _ _) fun _ => .still fun _ => rfl

theorem steady_joinQueue (body : Nat → Callback η) :
    Steady terms fun _ : Perform η σ => (joinQueue context body : Run η σ Bool) := by
  refine .bind steady_openQueue fun isFirst => .bind (steady_enqueue context body) fun _ => ?_
  refine .ite (.pure false) (.get fun e => .ite ?_ (.pure true))
  exact .bind (.listen nofun rfl) fun _ => .pure false

theorem steady_queueText (speed : Nat) (options : TypeOptions) :
    Steady terms fun p : Perform η σ => queueText p context speed options := by
  refine .bind (context.call.steady_showModes _) fun _ => ?_
  refine .bind context.call.steady_target fun parent => .next (fun _ => rfl) fun target => ?_
  refine .next (fun _ => rfl) fun _ => .bind (steady_joinQueue context _) fun isNext => ?_
  exact .ite (.task trivial) (.pure ())

theorem steady_runType : Steady terms fun p : Perform η σ => runType p context := by
  unfold runType
  dsimp only
  cases context.call.args.values.map Value.display with
  | nil => exact context.call.steady_error _
  | cons speedText rest =>
      dsimp only
      cases milliseconds speedText with
      | error e => exact .fail _
      | ok ms =>
          refine .ite (context.call.steady_error _) ?_
          cases checkedDelay ms speedText with
          | error e => exact context.call.steady_error _
          | ok speed =>
              refine .get fun e => ?_
              rcases typeOptions { skipKey := e.config.typeSkipKey } rest with fault | options
              · cases fault with
                | shown message => exact context.call.steady_error message
                | failed f => exact .fail f
              · exact .ite (.pure ()) (steady_queueText context speed options)

theorem steady_firstText :
    Steady terms fun _ : Perform η σ => (firstText : Run η σ (Option HandlerId)) := by
  refine .get fun e => ?_
  rcases e.typeQueue with _ | _ | ⟨job, rest⟩
  · exact .pure none
  · exact .pure none
  · exact .pure (some job.handler)

theorem steady_startFirst : Steady terms fun p : Perform η σ => startFirst p := by
  refine .bind steady_firstText fun handler => ?_
  cases handler with
  | none => exact .pure ()
  | some handler => exact .task trivial

theorem steady_withTyper {α : Type} (typing : Nat) (t : Typing)
    (change : Typer → Tree → α × Typer × Tree) :
    Steady terms fun _ : Perform η σ => (withTyper typing t change : Run η σ α) :=
  .next (fun _ => rfl) fun _ => .next (fun _ => rfl) fun _ => .pure _

theorem steady_stopTyping (typing : Nat) (t : Typing) :
    Steady terms fun p : Perform η σ => stopTyping p typing t := by
  refine .ite (.pure ()) (.next (fun _ => rfl) fun _ => .next (fun _ => rfl) fun _ => ?_)
  exact .bind (.task trivial) fun _ => .still fun _ => rfl

theorem steady_beginTyping (typing : Nat) :
    Steady terms fun p : Perform η σ => beginTyping p typing := by
  refine .get fun e => ?_
  cases e.typings[typing]? with
  | none => exact .pure ()
  | some t =>
      refine .next (fun _ => rfl) fun stale => .ite (.still fun _ => rfl) ?_
      refine .bind (.task trivial) fun _ => .get fun e => ?_
      cases e.typings[typing]? with
      | none => exact .pure ()
      | some t =>
          refine .bind (steady_withTyper typing t _) fun typed => ?_
          exact .ite (.bind (.setInterval _ rfl) fun _ => .pure ()) (steady_stopTyping typing t)

theorem steady_typeLetter (typing : Nat) {id : TimerId} (hclears : terms.clears id) :
    Steady terms fun p : Perform η σ => typeLetter p typing id := by
  refine .get fun e => ?_
  cases e.typings[typing]? with
  | none => exact .pure ()
  | some t =>
      refine .ite (.clearTimer hclears) (.next (fun _ => rfl) fun stale => .ite ?_ ?_)
      · exact .next (fun _ => rfl) fun _ => .clearTimer hclears
      · refine .bind (steady_withTyper typing t _) fun typed => .ite (.pure ()) ?_
        exact .bind (.clearTimer hclears) fun _ => steady_stopTyping typing t

theorem steady_skipTyping (typing : Nat) (key : String) :
    Steady terms fun _ : Perform η σ => (skipTyping typing key : Run η σ Unit) := by
  refine .get fun e => ?_
  cases e.typings[typing]? with
  | none => exact .pure ()
  | some t =>
      exact .ite (.bind (.unlisten _ _) fun _ => steady_withTyper typing t _) (.pure ())

theorem steady_nextTyping : Steady terms fun p : Perform η σ => nextTyping p := by
  refine .get fun e => ?_
  rcases e.typeQueue with _ | _ | ⟨job, rest⟩
  · exact .pure ()
  · exact .task trivial
  · exact .task trivial

theorem steady_wrapText (text : TypeCall) :
    Steady terms fun p : Perform η σ => wrapText p text :=
  .next (fun _ => rfl) fun wrapper => .next (fun _ => rfl) fun _ => .next (fun _ => rfl) fun _ =>
    .bind (steady_render _ _) fun _ => .pure wrapper

theorem steady_listenToTyping (typing : Nat) :
    Steady terms fun _ : Perform η σ => (listenToTyping typing : Run η σ Unit) :=
  .bind (.unlisten _ _) fun _ => .bind (.listen nofun rfl) fun _ => .listen nofun rfl

theorem steady_makeTyping (text : TypeCall) (wrapper : ElementId) (moment : Moment) :
    Steady terms fun _ : Perform η σ => (makeTyping text wrapper moment : Run η σ Nat) := by
  unfold makeTyping
  dsimp only
  refine .nextWhen (.still fun _ => rfl) ?_
  refine .next (fun _ => rfl) fun typer => .get fun e => .next (fun _ => rfl) fun _ => ?_
  exact .bind (steady_listenToTyping _) fun _ => .pure _

theorem steady_runTypeBody (text : TypeCall) :
    Steady terms fun p : Perform η σ => runTypeBody p text := by
  refine .bind (steady_wrapText text) fun wrapper => .next (fun _ => rfl) fun moment => ?_
  refine .next (fun _ => rfl) fun atOnce => .next (fun _ => rfl) fun _ => .ite ?shown ?typed
  case shown => exact .next (fun _ => rfl) fun isNext => .ite (.task trivial) (.pure ())
  case typed =>
    refine .bind (steady_makeTyping text wrapper moment) fun typing => .ite ?_ ?_
    · exact .bind (.setTimeout _ rfl) fun _ => .pure ()
    · exact steady_beginTyping typing

/-! ### All macros -/

theorem steady_runBuiltin (b : Builtin) :
    Steady terms fun p : Perform η σ => runBuiltin p context b := by
  unfold runBuiltin
  cases b with
  | print => exact steady_runPrint context.call
  | set => exact steady_runSet context.call
  | unset => exact steady_runUnset context.call
  | choose => exact steady_runChoose context.call
  | loop => exact steady_asLoop (steady_runForm context.call _ _)
  | loopControl => exact steady_runLoopControl context
  | capture => exact steady_runCapture context.call
  | link => exact steady_runLink context
  | «repeat» => exact steady_runRepeat context
  | stop => exact steady_runStop context.call
  | timed => exact steady_runTimed context
  | type => exact steady_runType context

end StoryEngine.Builtin
