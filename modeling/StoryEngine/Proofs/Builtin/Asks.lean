import StoryEngine.Proofs.Builtin.Made
import StoryEngine.Proofs.Engine.Asks
/-!
# StoryEngine.Proofs.Builtin.Asks

What the built-in macros and what they put off ask for. A macro that is called does nothing to
texts, but for the one that types its contents out, and what clicks, intervals and chains render is
no more than that. The macro that types does all that there is to be done to texts.
-/

namespace StoryEngine.Builtin

variable {σ : Type} {scope : Scope}

/-! ### Macros -/

theorem asks_runPrint (call : MacroCall Empty) :
    Asks scope fun p : Perform Empty σ => runPrint p call := by
  unfold runPrint withExpression
  refine .ite (fun _ => .aside (call.aside_error _)) fun _ => ?_
  refine .next (.evaluating (reassigns_evaluate _)) fun result => ?_
  cases result with
  | error e => exact .aside (call.aside_error _)
  | ok value =>
      refine .ite (fun _ => .pure ()) fun _ => .next call.aside_target fun out => ?_
      exact .ite (fun _ => .aside (.changeTree _)) fun _ => .render _ _

theorem asks_chooseFrom (call : MacroCall Empty) (isDebug : Bool) (index : Nat)
    (clauses : List PayloadClause) :
    Asks scope fun p : Perform Empty σ => chooseFrom p call isDebug index clauses := by
  induction clauses generalizing index with
  | nil => exact .aside (aside_closingViews call isDebug false [])
  | cons clause rest ih =>
      unfold chooseFrom
      refine .nextWhen (aside_clauseView call _ _ _) ?_
      refine .next (aside_clauseHolds clause) ?_
      rintro (e | holds | holds)
      · exact .aside (call.aside_error _)
      · exact .next (call.aside_showModes _) fun _ => ih (index + 1)
      · refine .next call.aside_target fun out => .bind (.render _ _) fun _ => ?_
        exact .aside (aside_closingViews call isDebug true rest)

theorem asks_runChoose (call : MacroCall Empty) :
    Asks scope fun p : Perform Empty σ => runChoose p call := by
  refine .get (fun e => ?_) fun _ _ => rfl
  dsimp only
  generalize firstFault? e.config.debug 0 call.payload = fault
  cases fault with
  | some fault => exact .aside (call.aside_error fault)
  | none => exact asks_chooseFrom call _ 0 call.payload

theorem asks_renderPass (call : MacroCall Empty) (body : List Char) (isFirst : Bool) :
    Asks scope fun p : Perform Empty σ => renderPass p call body isFirst :=
  .next call.aside_target fun _ => .bind (.render _ _) fun _ => .aside aside_takeBreak

theorem asks_loopSteps (call : MacroCall Empty) (body : List Char) (condition post : Option String)
    (remaining : Nat) (isFirst : Bool) :
    Asks scope fun p : Perform Empty σ =>
      loopSteps p call body condition post remaining isFirst := by
  induction remaining generalizing isFirst with
  | zero =>
      unfold loopSteps
      refine .next (aside_conditionHolds condition) ?_
      rintro (e | holds | holds)
      · exact .aside (call.aside_error _)
      · exact .pure ()
      · dsimp only
        exact .next aside_tooManyPasses fun _ => .aside (call.aside_error _)
  | succ remaining ih =>
      unfold loopSteps
      refine .next (aside_conditionHolds condition) ?_
      rintro (e | holds | holds)
      · exact .aside (call.aside_error _)
      · exact .pure ()
      · refine .bind (asks_renderPass call body isFirst) fun left => ?_
        refine .ite (fun _ => .pure ()) fun _ => .next (aside_evaluatePart post) ?_
        rintro (_ | e)
        · exact ih false
        · exact .aside (call.aside_error _)

theorem asks_loopRange (call : MacroCall Empty) (body : List Char) (key value : Option String)
    (remaining : Nat) (isFirst : Bool) (entries : RangeEntries) :
    Asks scope fun p : Perform Empty σ =>
      loopRange p call body key value remaining isFirst entries := by
  induction remaining generalizing isFirst entries with
  | zero =>
      unfold loopRange
      rcases entries.next? with _ | ⟨⟨entryKey, entryValue⟩, rest⟩
      · exact .pure ()
      · dsimp only
        exact .next aside_tooManyPasses fun _ => .aside (call.aside_error _)
  | succ remaining ih =>
      unfold loopRange
      rcases entries.next? with _ | ⟨⟨entryKey, entryValue⟩, rest⟩
      · exact .pure ()
      · dsimp only
        refine .next (aside_setVariable entryKey key) fun _ => ?_
        refine .next (aside_setVariable entryValue value) fun _ => ?_
        refine .bind (asks_renderPass call body isFirst) fun left => ?_
        exact .ite (fun _ => .pure ()) fun _ => ih false rest

theorem asks_runForm (call : MacroCall Empty) (body : List Char) (form : LoopForm) :
    Asks scope fun p : Perform Empty σ => runForm p call body form := by
  cases form with
  | malformed message => exact .aside (call.aside_error message)
  | steps init condition post =>
      refine .next (aside_hideBlank call body) fun _ => ?_
      refine .next (aside_evaluatePart init) fun result => ?_
      cases result with
      | some e => exact .aside (call.aside_error _)
      | none =>
          exact .get (fun e => asks_loopSteps call body condition post _ true) fun _ _ => rfl
  | range key value collection =>
      refine .next (.evaluating (reassigns_evaluate collection)) fun result => ?_
      cases result with
      | error e => exact .aside (call.aside_error _)
      | ok collection =>
          dsimp only
          cases rangeEntries collection with
          | error message => exact .aside (call.aside_error message)
          | ok entries =>
              refine .next (aside_hideBlank call body) fun _ => ?_
              exact .get (fun e => asks_loopRange call body key value _ true entries) fun _ _ => rfl

theorem asks_runCapture (call : MacroCall Empty) :
    Asks scope fun p : Perform Empty σ => runCapture p call := by
  refine .ite (fun _ => .aside (call.aside_error _)) fun _ => ?_
  refine .next (call.aside_addShadows _) fun _ => .next call.aside_shadows fun names => ?_
  refine .next (aside_snapshot names) fun overlay => asks_underOverlay overlay ?_
  exact .next call.aside_target fun out => .render _ _

theorem asks_fillLink (call : MacroCall Empty) (element : ElementId) (first : Value) :
    Asks scope fun p : Perform Empty σ => fillLink p call element first := by
  refine .next (.fromTree _) fun content => ?_
  refine .ite (fun _ => .aside (.bind (aside_showImage _ _) fun _ => .pure _)) fun _ => ?_
  refine .ite (fun _ => ?_) fun _ => .bind (.render _ _) fun _ => .pure _
  refine .next (.changeTree _) fun _ => .ite (fun _ => ?_) fun _ => .pure _
  exact .aside (.bind (.changeTree _) fun _ => .pure _)

theorem asks_runLink (context : Context Empty) :
    Asks scope fun p : Perform Empty σ => runLink p context := by
  unfold runLink
  dsimp only
  cases context.call.args.values with
  | nil => exact .aside (context.call.aside_error _)
  | cons first rest =>
      refine .next (.withTree _) fun element => ?_
      refine .bind (asks_fillLink context.call element first) fun passage => ?_
      refine .next (aside_labelLink _ _) fun _ => .next (.changeTree _) fun _ => ?_
      refine .next (aside_makeClickable context element _ passage) fun _ => ?_
      exact .next context.call.aside_target fun out => .aside (.changeTree _)

theorem asks_queueText (context : Context Empty) (speed : Nat) (options : TypeOptions) :
    Asks scope fun p : Perform Empty σ => queueText p context speed options := by
  refine .next (context.call.aside_showModes _) fun _ => .next context.call.aside_target ?_
  refine fun parent => .next (.withTree _) fun target => .next (.changeTree _) fun _ => ?_
  exact .text context fun _ => rfl

theorem asks_runType (context : Context Empty) :
    Asks scope fun p : Perform Empty σ => runType p context := by
  unfold runType
  dsimp only
  cases context.call.args.values.map Value.display with
  | nil => exact .aside (context.call.aside_error _)
  | cons speedText rest =>
      dsimp only
      cases milliseconds speedText with
      | error e => exact .aside (.fail _)
      | ok ms =>
          refine .ite (fun _ => .aside (context.call.aside_error _)) fun _ => ?_
          cases checkedDelay ms speedText with
          | error e => exact .aside (context.call.aside_error _)
          | ok speed =>
              refine .get (fun e => ?_) fun _ _ => rfl
              rcases typeOptions { skipKey := e.config.typeSkipKey } rest with fault | options
              · cases fault with
                | shown message => exact .aside (context.call.aside_error message)
                | failed f => exact .aside (.fail f)
              · exact .ite (fun _ => .pure ()) fun _ => asks_queueText context speed options

theorem asks_runBuiltin (context : Context Empty) (b : Builtin) :
    Asks scope fun p : Perform Empty σ => runBuiltin p context b := by
  unfold runBuiltin
  cases b with
  | print => exact asks_runPrint context.call
  | set =>
      dsimp only
      exact .aside (aside_runSet context.call)
  | unset =>
      dsimp only
      exact .aside (aside_runUnset context.call)
  | choose => exact asks_runChoose context.call
  | loop => exact asks_asLoop (asks_runForm context.call _ _)
  | loopControl => exact .aside (aside_runLoopControl context)
  | capture => exact asks_runCapture context.call
  | link => exact asks_runLink context
  | «repeat» =>
      dsimp only
      exact .aside (aside_runRepeat context)
  | stop =>
      dsimp only
      exact .aside (aside_runStop context.call)
  | timed =>
      dsimp only
      exact .aside (aside_runTimed context)
  | type => exact asks_runType context

/-! ### Clicks, intervals and chains -/

theorem asks_runPayload (contents : String) :
    Asks scope fun p : Perform Empty σ => runPayload p contents := by
  refine .next (.withTree _) fun scratch => .bind (.render _ _) fun _ => ?_
  refine .next (.fromTree _) fun errors => ?_
  exact .ite (fun _ => .pure ()) fun _ => .aside (.fail _)

theorem asks_runRepeatBody (wrapper : ElementId) (contents : String) (transition : Bool) :
    Asks scope fun p : Perform Empty σ => runRepeatBody p wrapper contents transition := by
  refine .next (.withTree _) fun fragment => .bind (.render _ _) fun _ => ?_
  refine .next (.fromTree _) fun content => .ite (fun _ => ?_) fun _ => .aside (.changeTree _)
  exact .aside (.bind (aside_appendTransition _ _ _) fun insert => .changeTree _)

theorem asks_runTimedBody (wrapper : ElementId) (transition : Bool) (item : TimedItem) :
    Asks scope fun p : Perform Empty σ => runTimedBody p wrapper transition item := by
  refine .next (.withTree _) fun fragment => .bind (.render _ _) fun _ => ?_
  refine .next (aside_itemTarget _ _) fun target => .ite (fun _ => ?_) fun _ => .aside (.changeTree _)
  exact .aside (.bind (aside_appendTransition _ _ _) fun insert => .changeTree _)

theorem asks_runRepeatTick (handler : HandlerId) (moment : Moment) (id : TimerId) :
    Asks .any fun p : Perform Empty σ => runRepeatTick p handler moment id := by
  refine .next (.isStale _) fun stale => .ite (fun _ => ?_) fun _ => asks_asTick id (.task _)
  exact .aside (.bind (.changeClock (.clearTimer · _)) fun _ => aside_forgetRepeat id)

theorem asks_runTimedStep (chain : Nat) (id : TimerId) :
    Asks .any fun p : Perform Empty σ => runTimedStep p chain id := by
  refine .next (aside_takeItem chain id) fun found => ?_
  cases found with
  | none => exact .pure ()
  | some c => exact .task _

/-! ### Typing -/

theorem asks_startFirst : Asks .any fun p : Perform Empty σ => startFirst p := by
  refine .bind (.blind (.get (fun e => ?_) fun _ _ => rfl)) fun handler => ?_
  · split <;> exact .pure _
  · cases handler with
    | none => exact .pure ()
    | some handler => exact .task _

theorem blind_modifyTyping (typing : Nat) (change : Typing → Typing) :
    Blind (modifyTyping typing change : Run Empty σ Unit) :=
  .modify fun _ _ => rfl

theorem asks_stopTyping (typing : Nat) (t : Typing) :
    Asks .any fun p : Perform Empty σ => stopTyping p typing t := by
  refine .ite (fun _ => .pure ()) fun _ => .bind (.blind (blind_modifyTyping _ _)) fun _ => ?_
  refine .bind (.blind (.modify fun _ _ => rfl)) fun _ => .bind (.task _) fun _ => ?_
  exact .aside (.changeTree _)

theorem asks_beginTyping (typing : Nat) :
    Asks .any fun p : Perform Empty σ => beginTyping p typing := by
  refine .get (fun e => ?_) fun _ _ => rfl
  cases e.typings[typing]? with
  | none => exact .pure ()
  | some t =>
      refine .next (.isStale _) fun stale => .ite (fun _ => .blind (blind_modifyTyping _ _)) ?_
      refine fun _ => .bind (.task _) fun _ => .get (fun e => ?_) fun _ _ => rfl
      cases e.typings[typing]? with
      | none => exact .pure ()
      | some t =>
          refine .next (aside_withTyper _ _ _) fun typed => .ite (fun _ => ?_) fun _ => ?_
          · exact .bind (.blind fun _ _ => rfl) fun _ => .pure ()
          · exact asks_stopTyping typing t

theorem asks_typeLetter (typing : Nat) (id : TimerId) :
    Asks .any fun p : Perform Empty σ => typeLetter p typing id := by
  refine .get (fun e => ?_) fun _ _ => rfl
  cases e.typings[typing]? with
  | none => exact .pure ()
  | some t =>
      refine .ite (fun _ => .aside (.changeClock (.clearTimer · _))) fun _ => ?_
      refine .next (.isStale _) fun stale => .ite (fun _ => ?_) fun _ => ?_
      · refine .bind (.blind (blind_modifyTyping _ _)) fun _ => ?_
        exact .aside (.changeClock (.clearTimer · _))
      · refine .next (aside_withTyper _ _ _) fun typed => .ite (fun _ => .pure ()) fun _ => ?_
        exact .next (.changeClock (.clearTimer · _)) fun _ => asks_stopTyping typing t

theorem asks_nextTyping : Asks .any fun p : Perform Empty σ => nextTyping p := by
  refine .get (fun e => ?_) fun _ _ => rfl
  rcases e.typeQueue with _ | _ | ⟨job, rest⟩
  · exact .pure ()
  · exact .task _
  · exact .task _

theorem asks_wrapText (call : TypeCall) :
    Asks scope fun p : Perform Empty σ => wrapText p call := by
  refine .next (.withTree _) fun wrapper => .next (.changeTree _) fun _ => ?_
  exact .next (.fromTree _) fun _ => .bind (.render _ _) fun _ => .pure wrapper

theorem blind_listenToTyping (typing : Nat) :
    Blind (listenToTyping typing : Run Empty σ Unit) :=
  .bind (.modify fun _ _ => rfl) fun _ => .bind (.modify fun _ _ => rfl) fun _ =>
    .modify fun _ _ => rfl

theorem blind_makeTyping (call : TypeCall) (wrapper : ElementId) (moment : Moment) :
    Blind (makeTyping call wrapper moment : Run Empty σ Nat) := by
  have hmake : Blind (do
      let typer ← Run.withTree fun t => Typer.ofElement t wrapper
      let typing := (← MonadState.get).typings.size
      modify fun e => { e with
        typings := e.typings.push {
          id := call.id
          typer := typer
          cursorClass := call.className ++ "-cursor"
          doneClass := call.className ++ "-done"
          cursor := call.options.cursor
          speed := call.speed
          skipKey := call.options.skipKey
          moment := moment } }
      listenToTyping typing
      return typing : Run Empty σ Nat) := by
    refine .bind (IsAside.withTree _).blind fun typer => .get (fun e => ?_) fun _ _ => rfl
    exact .bind (.modify fun _ _ => rfl) fun _ => .bind (blind_listenToTyping _) fun _ => .pure _
  unfold makeTyping
  dsimp only
  split
  · exact .bind (IsAside.changeTree _).blind fun _ => hmake
  · exact hmake

theorem blind_placeText (call : TypeCall) (wrapper : ElementId) :
    Blind (placeText call wrapper : Run Empty σ Placed) := by
  refine .bind IsAside.moment.blind fun moment => .bind (fun _ _ => rfl) fun atOnce => ?_
  refine .bind (IsAside.withTree _).blind fun _ => ?_
  split
  · exact .pure _
  · refine .bind (blind_makeTyping call wrapper moment) fun typing => ?_
    split
    · exact .bind (fun _ _ => rfl) fun _ => .pure _
    · exact .pure _

theorem asks_runTypeBody (call : TypeCall) :
    Asks .any fun p : Perform Empty σ => runTypeBody p call := by
  simp only [runTypeBody_eq]
  refine .bind (asks_wrapText call) fun wrapper => .bind (.blind (blind_placeText call wrapper)) ?_
  intro placed
  cases placed with
  | shown =>
      refine .bind (.blind (x := dequeue) fun _ _ => rfl) fun isNext => ?_
      exact .ite (fun _ => .task _) fun _ => .pure ()
  | waiting => exact .pure ()
  | typed typing => exact asks_beginTyping typing

end StoryEngine.Builtin
