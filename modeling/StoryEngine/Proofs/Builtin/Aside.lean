import StoryEngine.Proofs.Engine.Aside
/-!
# StoryEngine.Proofs.Builtin.Aside

What contexts and the built-in macros do between the tasks that they ask for has nothing to do with
texts that are typed, except for the macro that types them. Handlers that are made for clicks,
intervals and chains are plain.
-/

namespace StoryEngine

variable {σ α : Type}

/-! ### Contexts -/

namespace MacroCall

variable (call : MacroCall Empty)

theorem aside_state : IsAside (call.state : Run Empty σ CallState) :=
  .get (fun _ => .pure _) fun _ _ => rfl

theorem aside_modifyState (change : CallState → CallState) :
    IsAside (call.modifyState change : Run Empty σ Unit) :=
  .modify (fun _ => .of_eq rfl rfl) fun _ _ => rfl

theorem aside_createView (name title : Option String) :
    IsAside (call.createView name title : Run Empty σ ViewId) := by
  refine .bind (.withTree _) fun view => .bindUnless (.changeTree _) ?_
  exact .bind (call.aside_modifyState _) fun _ => .pure _

theorem aside_view? : IsAside (call.view? : Run Empty σ (Option ViewId)) := by
  refine .bind call.aside_state fun s => ?_
  split
  · exact .pure _
  · split
    · exact .pure _
    · exact .bind (call.aside_createView _ _) fun _ => .pure _

theorem aside_target : IsAside (call.target : Run Empty σ OutputId) := by
  refine .bind call.aside_view? fun view => ?_
  split
  · exact .fromTree _
  · exact .pure _

theorem aside_showModes (modes : List String) :
    IsAside (call.showModes modes : Run Empty σ Unit) := by
  refine .bind call.aside_view? fun view => ?_
  split
  · exact .changeTree _
  · exact .pure _

theorem aside_error (message : String) : IsAside (call.error message : Run Empty σ Unit) :=
  .changeTree _

theorem aside_shadows : IsAside (call.shadows : Run Empty σ (List String)) :=
  .bind call.aside_state fun _ => .pure _

theorem aside_addShadows (names : List String) :
    IsAside (call.addShadows names : Run Empty σ Unit) := by
  induction names with
  | nil => exact .pure ()
  | cons name rest ih =>
      unfold addShadows
      split
      · exact .bind (call.aside_modifyState _) fun _ => ih
      · exact .fail _

end MacroCall

theorem Context.aside_shadowView (context : Context Empty) :
    IsAside (context.shadowView : Run Empty σ (List String)) :=
  .get (fun _ => .pure _) fun _ _ => rfl

theorem aside_snapshot (names : List String) :
    IsAside (snapshot names : Run Empty σ Overlay) :=
  .get (fun _ => .pure _) fun _ _ => rfl

/-! ### Opening a call -/

theorem Context.aside_make (data : ContextData Empty) :
    IsAside (Context.make data : Run Empty σ (Context Empty)) := by
  unfold Context.make
  split
  · exact .fail _
  · split
    · exact .fail _
    · split
      · exact .fail _
      · refine .get (fun e => ?_) fun _ _ => rfl
        refine .bind (.modify (fun _ => .of_eq rfl rfl) fun _ _ => rfl) fun _ => .pure _

theorem aside_callArguments (definition : Definition (Handler Empty)) (raw : String) :
    IsAside (callArguments definition raw :
      Run Empty σ (Except ArgumentError ArgumentList)) := by
  unfold callArguments
  split
  · exact .pure _
  · exact .reading (reassigns_readArguments raw)

theorem aside_payloadClauses (definition : Definition (Handler Empty)) (clauses : List Clause) :
    IsAside (payloadClauses definition clauses :
      Run Empty σ (Except ArgumentError (List PayloadClause))) := by
  induction clauses with
  | nil => exact .pure _
  | cons clause rest ih =>
      refine .bind (aside_callArguments definition clause.args) fun args => ?_
      split
      · exact .pure _
      · refine .bind ih fun clauses => ?_
        split
        · exact .pure _
        · exact .pure _

theorem aside_showError (out : OutputId) (message source : String) :
    IsAside (showError out message source : Run Empty σ Unit) :=
  .changeTree _

theorem aside_openCall (out : OutputId) (entry : MacroEntry (Handler Empty)) (tag : Tag)
    (clauses : List Clause) (source : String) :
    IsAside (openCall out entry tag clauses source : Run Empty σ (Option (Context Empty))) := by
  refine .bind (aside_callArguments _ _) fun args => ?_
  split
  · exact .bind (aside_showError _ _ _) fun _ => .pure none
  · refine .bind (aside_payloadClauses _ _) fun payload => ?_
    split
    · exact .bind (aside_showError _ _ _) fun _ => .pure none
    · refine .get (fun e => ?_) fun _ _ => rfl
      refine .bind (Context.aside_make _).attempt fun made => ?_
      split
      · exact .bind (aside_showError _ _ _) fun _ => .pure none
      · exact .pure _

/-! ### Handlers -/

theorem ShadowHandler.make_apply (context : Context Empty)
    (start callback done : Option (Callback Empty)) (e : Engine Empty σ) :
    ∃ store, ShadowHandler.make context start callback done e =
      (.ok ⟨e.handlers.size⟩,
        { e with handlers := e.handlers.push ⟨context, store, start, callback, done⟩ }) := by
  unfold ShadowHandler.make
  cases callback with
  | none => exact ⟨[], rfl⟩
  | some c => exact ⟨_, rfl⟩

theorem ShadowHandler.blind_make (context : Context Empty)
    (start callback done : Option (Callback Empty)) :
    Blind (ShadowHandler.make context start callback done : Run Empty σ HandlerId) := by
  unfold ShadowHandler.make
  have hpush (store : Overlay) : Blind (do
      let id : HandlerId := ⟨(← MonadState.get).handlers.size⟩
      modify fun e => { e with
        handlers := e.handlers.push ⟨context, store, start, callback, done⟩ }
      return id : Run Empty σ HandlerId) := by
    refine .get (fun e => ?_) fun _ _ => rfl
    exact .bind (.modify fun _ _ => rfl) fun _ => .pure _
  split
  · refine .bind context.aside_shadowView.blind fun names => ?_
    exact .bind (aside_snapshot names).blind hpush
  · exact .bind (.pure []) hpush

/-- Work that goes on with a new handler, which is plain. -/
theorem IsAside.making {context : Context Empty} {start callback done : Option (Callback Empty)}
    {f : HandlerId → Run Empty σ α}
    (hplain : ∀ store, ShadowHandler.IsPlain ⟨context, store, start, callback, done⟩)
    (hf : ∀ id (e : Engine Empty σ), e.Holds id ShadowHandler.IsPlain → AsideAt (f id) e)
    (hblind : ∀ id, Blind (f id)) :
    IsAside (ShadowHandler.make context start callback done >>= f) := by
  refine ⟨fun e => ?_, .bind (ShadowHandler.blind_make context start callback done) hblind⟩
  obtain ⟨store, hmade⟩ := ShadowHandler.make_apply context start callback done e
  exact .next hmade (.handler e _) (hf _ _ ⟨_, Array.getElem?_push_size, hplain store⟩)

namespace Builtin

/-! ### Variables -/

theorem aside_runSet (call : MacroCall Empty) : IsAside (runSet call : Run Empty σ Unit) := by
  unfold runSet withExpression
  dsimp only
  split
  · exact call.aside_error _
  · refine .bind (.evaluating (reassigns_evaluate _)) fun result => ?_
    split
    · exact call.aside_error _
    · exact call.aside_showModes _

theorem aside_unsetAll (names : List String) :
    IsAside (unsetAll names : Run Empty σ Unit) := by
  induction names with
  | nil => exact .pure ()
  | cons name rest ih =>
      refine .bind (.changingState fun s t h => ?_) fun _ => ih
      cases hu : s.unset name with
      | error e => rw [hu] at h; cases h
      | ok result =>
          rw [hu] at h
          cases h
          exact State.reassigned_of_unset hu

theorem aside_runUnset (call : MacroCall Empty) :
    IsAside (runUnset call : Run Empty σ Unit) := by
  unfold runUnset
  dsimp only
  split
  · exact call.aside_error _
  · exact .bind (aside_unsetAll _) fun _ => call.aside_showModes _

/-! ### Choices -/

theorem aside_clauseView (call : MacroCall Empty) (name title : String)
    (modes : List (String × Bool)) :
    IsAside (clauseView call name title modes : Run Empty σ Unit) :=
  .bind (call.aside_createView _ _) fun _ => .changeTree _

theorem aside_skippedViews (call : MacroCall Empty) (clauses : List PayloadClause) :
    IsAside (skippedViews call clauses : Run Empty σ Unit) := by
  induction clauses with
  | nil => exact .pure ()
  | cons clause rest ih => exact .bind (aside_clauseView call _ _ _) fun _ => ih

theorem aside_closingViews (call : MacroCall Empty) (isDebug found : Bool)
    (after : List PayloadClause) :
    IsAside (closingViews call isDebug found after : Run Empty σ Unit) := by
  unfold closingViews
  split
  · exact .bind (aside_skippedViews call after) fun _ => aside_clauseView call _ _ _
  · exact .pure ()

theorem aside_clauseHolds (clause : PayloadClause) :
    IsAside (clauseHolds clause : Run Empty σ (Except ExprError Bool)) := by
  unfold clauseHolds
  split
  · exact .pure _
  · exact .evaluating (reassigns_evaluateCondition _)

/-! ### Loops -/

theorem aside_takeBreak : IsAside (takeBreak : Run Empty σ Bool) :=
  ⟨fun _ => .of_eq rfl rfl, fun _ _ => rfl⟩

theorem aside_hideBlank (call : MacroCall Empty) (body : List Char) :
    IsAside (hideBlank call body : Run Empty σ Unit) := by
  unfold hideBlank
  split
  · exact call.aside_showModes _
  · exact .pure ()

theorem aside_tooManyPasses : IsAside (tooManyPasses : Run Empty σ String) :=
  ⟨fun e => .refl e, fun _ _ => rfl⟩

theorem aside_conditionHolds (condition : Option String) :
    IsAside (conditionHolds condition : Run Empty σ (Except ExprError Bool)) := by
  unfold conditionHolds
  split
  · exact .pure _
  · exact .evaluating (reassigns_evaluateCondition _)

theorem aside_evaluatePart (part : Option String) :
    IsAside (evaluatePart part : Run Empty σ (Option ExprError)) := by
  cases part with
  | none => exact .pure _
  | some expression =>
      refine .bind (.evaluating (reassigns_evaluate expression)) fun result => ?_
      split
      · exact .pure _
      · exact .pure _

theorem aside_setVariable (value : Value) (name : Option String) :
    IsAside (setVariable value name : Run Empty σ Unit) := by
  cases name with
  | none => exact .pure ()
  | some name => exact .changingState fun _ _ => State.reassigned_of_set

theorem aside_runLoopControl (context : Context Empty) :
    IsAside (runLoopControl context : Run Empty σ Unit) := by
  unfold runLoopControl
  dsimp only
  split
  · refine .bind (.modify (fun _ => .of_eq rfl rfl) fun _ _ => rfl) fun _ => ?_
    exact context.call.aside_showModes _
  · exact context.call.aside_error _

/-! ### Links -/

theorem aside_showImage (element : ElementId) (first : Value) :
    IsAside (showImage element first : Run Empty σ Unit) := by
  refine .bind (.withTree _) fun image => ?_
  dsimp only
  split
  · exact .bind (.changeTree _) fun _ => .changeTree _
  · exact .changeTree _

theorem aside_labelLink (element : ElementId) (passage : Option String) :
    IsAside (labelLink element passage : Run Empty σ Unit) := by
  unfold labelLink
  split
  · exact .get (fun _ => .changeTree _) fun _ _ => rfl
  · exact .changeTree _

/-- The handler of a click renders the contents and goes to the passage. -/
theorem isPlain_click (context : Context Empty) (store : Overlay) (contents : String)
    (passage : Option String) :
    ShadowHandler.IsPlain ⟨context, store, none,
      if contents.isEmpty then none else some (.payload contents), passage.map .goTo⟩ where
  start := rfl
  callback c hc := by
    dsimp only at hc
    split at hc
    · cases hc
    · cases hc
      trivial
  done c hc := by
    obtain ⟨title, -, rfl⟩ := Option.map_eq_some_iff.mp hc
    exact ⟨title, rfl⟩

theorem aside_makeClickable (context : Context Empty) (element : ElementId) (contents : String)
    (passage : Option String) :
    IsAside (makeClickable context element contents passage : Run Empty σ Unit) :=
  .making (fun store => isPlain_click context store contents passage)
    (fun _ _ hid => .clickable hid) fun _ => .modify fun _ _ => rfl

/-! ### Intervals and chains -/

theorem aside_appendTransition (out : OutputId) (classes newClass : String) :
    IsAside (appendTransition out classes newClass : Run Empty σ ElementId) := by
  refine .bind (.withTree _) fun element => .bind (.changeTree _) fun _ => ?_
  refine .get (fun e => .bind ⟨fun e => ?_, fun _ _ => rfl⟩ fun _ => .pure _) fun _ _ => rfl
  exact .ofOk rfl (.timer _ none (.settle element newClass) id fun _ _ h => by cases h)

/-- An interval is set with a plain handler. -/
theorem asideAt_startInterval {e : Engine Empty σ} {handler : HandlerId} (delay : Nat)
    (h : e.Holds handler ShadowHandler.IsPlain) : AsideAt (startInterval handler delay) e := by
  have hset : e.Aside { e with
      clock := (e.clock.setInterval delay (.repeatTick handler e.moment)).2 } :=
    .timer _ _ (.repeatTick handler e.moment) id fun _ _ h' => by cases h'; exact h
  refine .next rfl (.refl e) (.next rfl hset (.next rfl (.refl _) ?_))
  refine .next rfl (.of_eq rfl rfl) (IsAside.aside ?_ _)
  split
  · exact .listen rfl (.inl rfl)
  · exact .pure ()

theorem blind_startInterval (handler : HandlerId) (delay : Nat) :
    Blind (startInterval handler delay : Run Empty σ Unit) := by
  refine .bind IsAside.moment.blind fun _ => .bind (fun _ _ => rfl) fun id => ?_
  refine .get (fun e => .bind (.modify fun _ _ => rfl) fun _ => ?_) fun _ _ => rfl
  split
  · exact .modify fun _ _ => rfl
  · exact .pure ()

theorem aside_runRepeat (context : Context Empty) :
    IsAside (runRepeat context : Run Empty σ Unit) := by
  unfold runRepeat
  dsimp only
  split
  · exact context.call.aside_error _
  · refine .get (fun e => ?_) fun _ _ => rfl
    split
    · exact context.call.aside_error _
    · refine .bind (context.call.aside_showModes _) fun _ => ?_
      refine .bind context.call.aside_target fun out => ?_
      refine .bind (.withTree _) fun wrapper => .bind (.changeTree _) fun _ => ?_
      refine .making (fun store => ⟨rfl, fun c hc => ?_, fun _ hc => by cases hc⟩)
        (fun _ _ hid => asideAt_startInterval _ hid) fun id => blind_startInterval id _
      cases hc
      trivial

theorem aside_forgetRepeat (id : TimerId) : IsAside (forgetRepeat id : Run Empty σ Unit) :=
  .modify (fun _ => .of_eq rfl rfl) fun _ _ => rfl

theorem aside_clearRepeats : IsAside (clearRepeats : Run Empty σ Unit) :=
  .modify (fun e => .trans (.lasts (.clearTimers e.clock e.repeatTimers)) (.of_eq rfl rfl))
    fun _ _ => rfl

theorem aside_forgetAmongRepeats (id : TimerId) :
    IsAside (forgetAmongRepeats id : Run Empty σ Unit) := by
  refine .get (fun e => ?_) fun _ _ => rfl
  split
  · exact aside_forgetRepeat id
  · exact .modify (fun _ => .of_eq rfl rfl) fun _ _ => rfl
  · exact .pure ()

theorem aside_runStop (call : MacroCall Empty) : IsAside (runStop call : Run Empty σ Unit) := by
  refine .get (fun e => ?_) fun _ _ => rfl
  split
  · exact call.aside_error _
  · refine .bind (.changeClock (.clearTimer · _)) fun _ => ?_
    refine .bind (aside_forgetAmongRepeats _) fun _ => ?_
    refine .bind (.modify (fun _ => .of_eq rfl rfl) fun _ _ => rfl) fun _ => ?_
    exact call.aside_showModes _

theorem aside_scheduleChain (chain delay : Nat) :
    IsAside (scheduleChain chain delay : Run Empty σ Unit) := by
  refine .bind ⟨fun e => ?_, fun _ _ => rfl⟩ fun _ => .modify (fun _ => .of_eq rfl rfl) fun _ _ => rfl
  exact .ofOk rfl (.timer delay none (.timedStep chain) id fun _ _ h => by cases h)

theorem aside_startChain (chain delay : Nat) :
    IsAside (startChain chain delay : Run Empty σ Unit) := by
  refine .bind (aside_scheduleChain chain delay) fun _ => .get (fun e => ?_) fun _ _ => rfl
  split
  · exact .listen rfl (.inl rfl)
  · exact .pure ()

/-- A chain is made with a plain handler. -/
theorem aside_makeChain (context : Context Empty) (wrapper : ElementId) (transition : Bool)
    (items : List TimedItem) :
    IsAside (makeChain context (.timedBody wrapper transition) items : Run Empty σ Nat) := by
  refine .making (fun store => ⟨rfl, fun c hc => ?_, fun _ hc => by cases hc⟩) ?_ fun id => ?_
  · cases hc
    trivial
  · refine fun id e hid => .next rfl (.refl e) (.next rfl (.refl e) ?_)
    refine .next rfl (.chains fun k hk => ?_) (.ofOk rfl (.refl _))
    rcases Array.mem_push.mp hk with hold | rfl
    · exact .inl ⟨k, hold, rfl⟩
    · exact .inr hid
  · refine .bind IsAside.moment.blind fun _ => .get (fun e => ?_) fun _ _ => rfl
    exact .bind (.modify fun _ _ => rfl) fun _ => .pure _

theorem aside_runTimed (context : Context Empty) :
    IsAside (runTimed context : Run Empty σ Unit) := by
  refine .get (fun e => ?_) fun _ _ => rfl
  split
  · exact context.call.aside_error _
  · refine .bind (context.call.aside_showModes _) fun _ => ?_
    refine .bind context.call.aside_target fun out => ?_
    refine .bind (.withTree _) fun wrapper => .bind (.changeTree _) fun _ => ?_
    exact .bind (aside_makeChain context wrapper _ _) fun _ => aside_startChain _ _

theorem aside_itemTarget (wrapper : ElementId) (item : TimedItem) :
    IsAside (itemTarget wrapper item : Run Empty σ OutputId) := by
  refine .bind (.fromTree _) fun content => .get (fun e => ?_) fun _ _ => rfl
  split
  · exact .bind (.withTree _) fun view => .fromTree _
  · exact .pure _

theorem aside_takeItem (chain : Nat) (id : TimerId) :
    IsAside (takeItem chain id : Run Empty σ (Option (HandlerId × TimedItem))) := by
  refine .bind (.modify (fun _ => .of_eq rfl rfl) fun _ _ => rfl) fun _ => ?_
  refine .get (fun e => ?_) fun _ _ => rfl
  split
  · exact .pure none
  · refine .bind (.isStale _) fun stale => ?_
    split
    · exact .pure none
    · split
      · exact .pure none
      · rename_i item rest _
        refine .bind (.modify (fun e => .chains fun k' hk' => .inl ?_) fun _ _ => rfl) fun _ => ?_
        · rcases exists_of_mem_modify hk' with ⟨k, hk, rfl | ⟨-, rfl⟩⟩
          · exact ⟨_, hk, rfl⟩
          · exact ⟨k, hk, rfl⟩
        · dsimp only
          split
          · exact .bind (aside_scheduleChain _ _) fun _ => .pure _
          · exact .pure _

theorem aside_clearTimed : IsAside (clearTimed : Run Empty σ Unit) :=
  .modify (fun e => .trans (.lasts (.clearTimers e.clock e.timedTimers)) (.of_eq rfl rfl))
    fun _ _ => rfl

/-! ### Typing -/

/-- It matters to other texts whether a text is typed out, but not how far that is. -/
theorem aside_withTyper {α : Type} (typing : Nat) (t : Typing)
    (change : Typer → Tree → α × Typer × Tree) :
    IsAside (withTyper typing t change : Run Empty σ α) := by
  refine .bind (.withTree _) fun (a, typer) => .bind (.modify (fun e => .of_eq ?_ rfl) ?_) ?_
  · have hmarks : Engine.marks { e with
        typings := e.typings.modify typing fun t => { t with typer := typer } } = e.marks := by
      refine (map_mark_modify e.typings typing (fun t => { t with typer := typer }) id
        fun _ => rfl).trans ?_
      exact List.modify_id _ _
    unfold Engine.typingPart
    rw [hmarks]
    rfl
  · exact fun _ _ => rfl
  · exact fun _ => .pure a

theorem aside_unlistenKeys :
    IsAside (Run.unlisten (some .keydown) typingNamespace : Run Empty σ Unit) :=
  .modify (fun e => .listening (fun _ hl => .inl (List.mem_filter.mp hl).1) fun event _ hkey =>
    Listener.of_off_of_ne e.listeners typingNamespace .keydown event hkey) fun _ _ => rfl

theorem aside_skipTyping (typing : Nat) (key : String) :
    IsAside (skipTyping typing key : Run Empty σ Unit) := by
  refine .get (fun e => ?_) fun _ _ => rfl
  split
  · exact .pure ()
  · split
    · exact .bind aside_unlistenKeys fun _ => aside_withTyper _ _ _
    · exact .pure ()

end Builtin

end StoryEngine
