import StoryEngine.Proofs.Builtin.Quick
import StoryEngine.Proofs.Engine.Made
/-!
# StoryEngine.Proofs.Builtin.Made

How the work of the built-in macros is made up. What a macro does when it is called is a matter of
renders (`Scope.rendering`); only what it puts off may ask for more.
-/

namespace StoryEngine.Builtin

variable {σ : Type} {scope : Scope} {place : Place}

/-! ### Macros -/

theorem made_runPrint (call : MacroCall Empty) :
    Made scope place fun p : Perform Empty σ => runPrint p call := by
  unfold runPrint withExpression
  refine .ite (fun _ => .quick (call.quick_error _)) fun _ => ?_
  refine .next (.evaluating (reassigns_evaluate _)) fun result => ?_
  cases result with
  | error e => exact .quick (call.quick_error _)
  | ok value =>
      refine .ite (fun _ => .pure ()) fun _ => .next call.quick_target fun out => ?_
      refine .ite (fun _ => ?_) fun _ => .render _ _
      exact .quick (.changeTree fun _ _ _ => .pushText _ _)

theorem made_chooseFrom (call : MacroCall Empty) (isDebug : Bool) (index : Nat)
    (clauses : List PayloadClause) :
    Made scope place fun p : Perform Empty σ => chooseFrom p call isDebug index clauses := by
  induction clauses generalizing index with
  | nil => exact .quick (quick_closingViews call isDebug false [])
  | cons clause rest ih =>
      unfold chooseFrom
      refine .nextWhen (quick_clauseView call _ _ _) ?_
      refine .next (quick_clauseHolds clause) ?_
      rintro (e | holds | holds)
      · exact .quick (call.quick_error _)
      · exact .next (call.quick_showModes _) fun _ => ih (index + 1)
      · refine .next call.quick_target fun out => .bind (.render _ _) fun _ => ?_
        exact .quick (quick_closingViews call isDebug true rest)

theorem made_runChoose (call : MacroCall Empty) :
    Made scope place fun p : Perform Empty σ => runChoose p call := by
  refine .after .get fun e _ => ?_
  dsimp only
  generalize firstFault? e.config.debug 0 call.payload = fault
  cases fault with
  | some fault => exact .quick (call.quick_error fault)
  | none => exact made_chooseFrom call _ 0 call.payload

theorem made_renderPass (call : MacroCall Empty) (body : List Char) (isFirst : Bool) :
    Made scope place fun p : Perform Empty σ => renderPass p call body isFirst :=
  .next call.quick_target fun _ => .bind (.render _ _) fun _ => .quick quick_takeBreak

theorem made_loopSteps (call : MacroCall Empty) (body : List Char) (condition post : Option String)
    (remaining : Nat) (isFirst : Bool) :
    Made scope place fun p : Perform Empty σ =>
      loopSteps p call body condition post remaining isFirst := by
  induction remaining generalizing isFirst with
  | zero =>
      unfold loopSteps
      refine .next (quick_conditionHolds condition) ?_
      rintro (e | holds | holds)
      · exact .quick (call.quick_error _)
      · exact .pure ()
      · dsimp only
        exact .quick (.bind quick_tooManyPasses fun _ => call.quick_error _)
  | succ remaining ih =>
      unfold loopSteps
      refine .next (quick_conditionHolds condition) ?_
      rintro (e | holds | holds)
      · exact .quick (call.quick_error _)
      · exact .pure ()
      · refine .bind (made_renderPass call body isFirst) fun left => ?_
        refine .ite (fun _ => .pure ()) fun _ => .next (quick_evaluatePart post) ?_
        rintro (_ | e)
        · exact ih false
        · exact .quick (call.quick_error _)

theorem made_loopRange (call : MacroCall Empty) (body : List Char) (key value : Option String)
    (remaining : Nat) (isFirst : Bool) (entries : RangeEntries) :
    Made scope place fun p : Perform Empty σ =>
      loopRange p call body key value remaining isFirst entries := by
  induction remaining generalizing isFirst entries with
  | zero =>
      unfold loopRange
      rcases entries.next? with _ | ⟨⟨entryKey, entryValue⟩, rest⟩
      · exact .pure ()
      · dsimp only
        exact .quick (.bind quick_tooManyPasses fun _ => call.quick_error _)
  | succ remaining ih =>
      unfold loopRange
      rcases entries.next? with _ | ⟨⟨entryKey, entryValue⟩, rest⟩
      · exact .pure ()
      · dsimp only
        refine .next (quick_setVariable entryKey key) fun _ => ?_
        refine .next (quick_setVariable entryValue value) fun _ => ?_
        refine .bind (made_renderPass call body isFirst) fun left => ?_
        exact .ite (fun _ => .pure ()) fun _ => ih false rest

theorem made_runForm (call : MacroCall Empty) (body : List Char) (form : LoopForm) :
    Made scope place fun p : Perform Empty σ => runForm p call body form := by
  cases form with
  | malformed message => exact .quick (call.quick_error message)
  | steps init condition post =>
      refine .next (quick_hideBlank call body) fun _ => ?_
      refine .next (quick_evaluatePart init) fun result => ?_
      cases result with
      | some e => exact .quick (call.quick_error _)
      | none => exact .after .get fun e _ => made_loopSteps call body condition post _ true
  | range key value collection =>
      refine .next (.evaluating (reassigns_evaluate collection)) fun result => ?_
      cases result with
      | error e => exact .quick (call.quick_error _)
      | ok collection =>
          dsimp only
          cases rangeEntries collection with
          | error message => exact .quick (call.quick_error message)
          | ok entries =>
              refine .next (quick_hideBlank call body) fun _ => ?_
              exact .after .get fun e _ => made_loopRange call body key value _ true entries

theorem made_asLoop {X : Perform Empty σ → Run Empty σ Unit} (hX : Made scope place X) :
    Made scope place fun p => asLoop (X p) := by
  refine .next (.modify fun _ => .noWish) fun _ => .bind (.attempt hX) fun outcome => ?_
  refine .next (.modify fun _ => .noWish) fun _ => ?_
  cases outcome with
  | ok u => exact .pure u
  | error f => exact .quick (.fail f)

theorem made_runLoop (call : MacroCall Empty) :
    Made scope place fun p : Perform Empty σ => runLoop p call :=
  made_asLoop (made_runForm call _ _)

theorem made_runCapture (call : MacroCall Empty) :
    Made .rendering place fun p : Perform Empty σ => runCapture p call := by
  refine .ite (fun _ => .quick (call.quick_error _)) fun _ => ?_
  refine .next (call.quick_addShadows _) fun _ => .next call.quick_shadows fun names => ?_
  refine .next (quick_snapshot names) fun overlay => .overlay overlay ?_
  exact .next call.quick_target fun out => .render _ _

theorem made_fillLink (call : MacroCall Empty) (element : ElementId) (first : Value) :
    Made scope place fun p : Perform Empty σ => fillLink p call element first := by
  refine .next (.fromTree _) fun content => ?_
  refine .ite (fun _ => .quick (.bind (quick_showImage _ _) fun _ => .pure _)) fun _ => ?_
  refine .ite (fun _ => ?_) fun _ => .bind (.render _ _) fun _ => .pure _
  refine .next (.changeTree fun _ _ _ => .pushText _ _) fun _ => .ite (fun _ => ?_) fun _ => .pure _
  refine .quick (.bind (.changeTree fun _ _ _ => ?_) fun _ => .pure _)
  exact .trans (.addClass _ _) (.setAttr _ _ _)

theorem made_runLink (context : Context Empty) :
    Made scope (place.within context) fun p : Perform Empty σ => runLink p context := by
  unfold runLink
  dsimp only
  cases context.call.args.values with
  | nil => exact .quick (context.call.quick_error _)
  | cons first rest =>
      refine .element _ fun element hsince => ?_
      refine .bind (made_fillLink context.call element first) fun passage => ?_
      refine .quick (.bind (quick_labelLink _ _) fun _ => ?_)
      refine .bind (.changeTree fun _ _ _ => .addClass _ _) fun _ => ?_
      have hclickable : Quick ((place.knowing element).within context)
          (makeClickable context element (trimText context.call.contents) passage :
            Run Empty σ Unit) :=
        quick_makeClickable context _ passage hsince (place.lt_elements_knowing element)
      refine .bind hclickable fun _ => .bind context.call.quick_target fun out => ?_
      exact .changeTree fun _ _ _ => .append hsince

theorem made_queueText (context : Context Empty) (speed : Nat) (options : TypeOptions) :
    Made scope (place.within context) fun p : Perform Empty σ =>
      queueText p context speed options := by
  refine .next (context.call.quick_showModes _) fun _ => .next context.call.quick_target ?_
  refine fun parent => .next (.withTree fun _ _ ht => .appendElement ht _ _) fun target => ?_
  refine .next (.changeTree fun _ _ _ => .addClass _ _) fun _ => ?_
  exact .start (quick_joinQueue context fun _ => rfl) fun _ _ => texts_of_joinQueue

theorem made_runType (context : Context Empty) :
    Made scope (place.within context) fun p : Perform Empty σ => runType p context := by
  unfold runType
  dsimp only
  cases context.call.args.values.map Value.display with
  | nil => exact .quick (context.call.quick_error _)
  | cons speedText rest =>
      dsimp only
      cases milliseconds speedText with
      | error e => exact .quick (.fail _)
      | ok ms =>
          refine .ite (fun _ => .quick (context.call.quick_error _)) fun _ => ?_
          cases checkedDelay ms speedText with
          | error e => exact .quick (context.call.quick_error _)
          | ok speed =>
              refine .after .get fun e _ => ?_
              rcases typeOptions { skipKey := e.config.typeSkipKey } rest with fault | options
              · cases fault with
                | shown message => exact .quick (context.call.quick_error message)
                | failed f => exact .quick (.fail f)
              · exact .ite (fun _ => .pure ()) fun _ => made_queueText context speed options

/-- A built-in macro that is called only asks for renders, or for the start of the queue when the
turn of its text has come. -/
theorem made_runBuiltin (context : Context Empty) (b : Builtin) :
    Made .rendering (place.within context) fun p : Perform Empty σ => runBuiltin p context b := by
  unfold runBuiltin
  cases b with
  | print => exact made_runPrint context.call
  | set =>
      dsimp only
      exact .quick (quick_runSet context.call)
  | unset =>
      dsimp only
      exact .quick (quick_runUnset context.call)
  | choose => exact made_runChoose context.call
  | loop => exact made_runLoop context.call
  | loopControl => exact Made.quick quick_runLoopControl
  | capture => exact made_runCapture context.call
  | link => exact made_runLink context
  | «repeat» =>
      dsimp only
      exact .quick (quick_runRepeat context)
  | stop =>
      dsimp only
      exact .quick (quick_runStop context.call)
  | timed =>
      dsimp only
      exact .quick (quick_runTimed context)
  | type => exact made_runType context

/-! ### Deferred work -/

theorem made_runPayload (contents : String) :
    Made scope place fun p : Perform Empty σ => runPayload p contents := by
  refine .next (.withTree fun t _ _ => .newOutput t) fun scratch => .bind (.render _ _) fun _ => ?_
  refine .next (.fromTree _) fun errors => ?_
  exact .ite (fun _ => .pure ()) fun _ => .quick (.fail _)

/-- A new output is recent. -/
theorem quickTo_newOutput :
    QuickTo place (fun out => place.mark.extent.outputs ≤ out.index)
      (Run.withTree fun t => t.newOutput : Run Empty σ OutputId) :=
  .withTree fun t _ ht => ⟨.newOutput t, ht.extent.outputs⟩

theorem made_runRepeatBody (wrapper : ElementId) (contents : String) (transition : Bool) :
    Made scope place fun p : Perform Empty σ => runRepeatBody p wrapper contents transition := by
  refine .after quickTo_newOutput fun fragment hfragment => .bind (.render _ _) fun _ => ?_
  refine .next (.fromTree _) fun content => .ite (fun _ => ?_) fun _ => ?_
  · refine .quick (.bind (quick_appendTransition _ _ _) fun insert => ?_)
    exact .changeTree fun _ _ ht => .appendAll ht fun _ _ => .inl hfragment
  · exact .quick (.changeTree fun _ _ ht => .appendAll ht fun _ _ => .inl hfragment)

theorem made_runTimedBody (wrapper : ElementId) (transition : Bool) (item : TimedItem) :
    Made scope place fun p : Perform Empty σ => runTimedBody p wrapper transition item := by
  refine .after quickTo_newOutput fun fragment hfragment => .bind (.render _ _) fun _ => ?_
  refine .next (quick_itemTarget _ _) fun target => .ite (fun _ => ?_) fun _ => ?_
  · refine .quick (.bind (quick_appendTransition _ _ _) fun insert => ?_)
    exact .changeTree fun _ _ ht => .appendAll ht fun _ _ => .inl hfragment
  · exact .quick (.changeTree fun _ _ ht => .appendAll ht fun _ _ => .inl hfragment)

/-- A handler invoked by the queue is that of its first text. -/
theorem due_of_firstText {e e' : Engine Empty σ} {id : HandlerId}
    (h : firstText e = (.ok (some id), e')) : e'.Due id := by
  simp only [firstText, Run.get_bind_apply] at h
  rcases hq : e.typeQueue with _ | _ | ⟨job, rest⟩ <;> rw [hq] at h <;> cases h
  exact .text hq

theorem made_startFirst : Made .any place fun p : Perform Empty σ => startFirst p :=
  .invoke (fun _ => .nothing) quick_firstText (fun _ _ _ => due_of_firstText) (fun _ => rfl)
    fun _ _ => rfl

/-- A handler invoked for a clause is that of the clause's chain. -/
theorem chain_of_takeItem {e e' : Engine Empty σ} {chain : Nat} {id : TimerId}
    {c : HandlerId × TimedItem} (h : takeItem chain id e = (.ok (some c), e')) :
    ∃ k, e'.chains[chain]? = some k ∧ k.handler = c.1 ∧ k.moment = e'.moment := by
  simp only [takeItem, Run.get_bind_apply, Run.modify_bind_apply] at h
  cases hk : e.chains[chain]? with
  | none => rw [hk] at h; cases h
  | some k =>
      rw [hk] at h
      dsimp only at h
      rw [Run.isStale_bind_apply] at h
      split at h
      · cases h
      · rename_i hfresh
        have hnow : e.moment = k.moment := by simpa [Engine.moment] using hfresh
        cases hitems : k.items with
        | nil => rw [hitems] at h; cases h
        | cons item rest =>
            rw [hitems] at h
            -- what is done from here on leaves the chains and the moment alone
            have hlater (e₁ : Engine Empty σ) (he₁ : e₁.chains =
                e.chains.modify chain fun c => { c with items := rest })
                (hmoment : e₁.moment = e.moment) :
                ∃ k', e₁.chains[chain]? = some k' ∧ k'.handler = k.handler ∧ k'.moment = e₁.moment := by
              refine ⟨{ k with items := rest }, ?_, rfl, (hmoment.trans hnow).symm⟩
              rw [he₁, Array.getElem?_modify, if_pos rfl, hk]
              rfl
            cases rest with
            | nil => cases h; exact hlater _ rfl rfl
            | cons next others => cases h; exact hlater _ rfl rfl

theorem due_of_takeItem {e e' : Engine Empty σ} {chain : Nat} {id : TimerId}
    {c : HandlerId × TimedItem} (h : takeItem chain id e = (.ok (some c), e')) : e'.Due c.1 := by
  obtain ⟨k, hchain, hhandler, hnow⟩ := chain_of_takeItem h
  exact hhandler ▸ .item hchain hnow

theorem made_runTimedStep (chain : Nat) (id : TimerId) :
    Made .any place fun p : Perform Empty σ => runTimedStep p chain id :=
  .invoke (fun c => .item c.2) (quick_takeItem chain id) (fun _ _ _ => due_of_takeItem)
    (fun _ => rfl) fun _ _ => rfl

/-- An interval that is not stale has a recent handler. -/
theorem quickTo_isStale (m : Moment) :
    QuickTo place (fun stale => stale = false → place.mark.turn ≤ m.turn)
      (Run.isStale m : Run Empty σ Bool) := by
  intro e he
  refine .ofChanges rfl .refl fun hfresh => ?_
  have hnow : e.moment = m := not_not.mp (of_decide_eq_false hfresh)
  rw [← hnow]
  exact he.parted.turn

theorem made_runRepeatTick {handler : HandlerId} {moment : Moment} (id : TimerId)
    (h : place.mark.Allows moment handler) :
    Made .any place fun p : Perform Empty σ => runRepeatTick p handler moment id := by
  refine .after (quickTo_isStale moment) fun stale hstale => .ite (fun _ => ?_) fun hfresh => ?_
  · exact .quick (.bind (.changeClock (.clearTimer · _)) fun _ => quick_forgetRepeat id)
  · have hnow := hstale (Bool.eq_false_of_not_eq_true hfresh)
    exact .tick id handler .nothing (h.resolve_left (Nat.not_lt.mpr hnow))

theorem made_nextTyping : Made .any place fun p : Perform Empty σ => nextTyping p := by
  refine .after .get fun e _ => ?_
  rcases e.typeQueue with _ | _ | ⟨job, rest⟩
  · exact .pure ()
  · exact .task trivial
  · exact .task trivial

theorem textsAfter_suffix (id : Nat) (texts : List TypeJob) : textsAfter id texts <:+ texts := by
  cases texts with
  | nil => exact List.suffix_refl []
  | cons job rest =>
      by_cases h : job.id = id
      · simp only [textsAfter, h, if_true]
        exact List.suffix_cons job rest
      · simp only [textsAfter, h, if_false]
        exact List.suffix_refl _

/-- What is left of a queue that loses its first texts. -/
theorem getD_map_suffix {change : List TypeJob → List TypeJob} (h : ∀ texts, change texts <:+ texts)
    (e : Engine Empty σ) : (e.typeQueue.map change).getD [] <:+ e.texts := by
  unfold Engine.texts
  cases e.typeQueue with
  | none => exact List.suffix_refl []
  | some queue => exact h queue

theorem made_stopTyping (typing : Nat) (t : Typing) :
    Made .any place fun p : Perform Empty σ => stopTyping p typing t := by
  refine .ite (fun _ => .pure ()) fun _ => .next (quick_modifyTyping _ fun _ => rfl) fun _ => ?_
  refine .bind (.move fun e => .dequeue (getD_map_suffix (textsAfter_suffix t.id) e)) fun _ => ?_
  refine .bind (.task trivial) fun _ => .quick (.changeTree fun _ _ _ => ?_)
  dsimp only
  split
  · exact .trans (.trans (.removeClass _ _) (.addClass _ _)) (.addClass _ _)
  · exact .trans (.removeClass _ _) (.addClass _ _)

/-- A text is stopped if there is one. -/
def stopText (p : Perform Empty σ) (typing : Nat) : Option Typing → Run Empty σ Unit
  | some t => stopTyping p typing t
  | none => pure ()

theorem made_stopText (typing : Nat) (t : Option Typing) :
    Made .any place fun p : Perform Empty σ => stopText p typing t := by
  cases t with
  | none => exact .pure ()
  | some t => exact made_stopTyping typing t

theorem beginTyping_eq (p : Perform Empty σ) (typing : Nat) : beginTyping p typing = (do
    match (← get).typings[typing]? with
    | none => pure ()
    | some t =>
      if ← Run.isStale t.moment then modifyTyping typing fun t => { t with isStopped := true }
      else
        p (.trigger .typingStart "")
        stopText p typing (← typeFirst typing)) := by
  have hfirst : (do
      match (← get).typings[typing]? with
      | none => pure ()
      | some t =>
        if ← withTyper typing t Typer.typeNext then
          let _ ← Run.withClock fun c => c.setInterval t.speed (.typeLetter typing)
        else stopTyping p typing t : Run Empty σ Unit) = typeFirst typing >>= stopText p typing := by
    rw [typeFirst, bind_assoc]
    refine bind_congr fun e => ?_
    cases e.typings[typing]? with
    | none => rfl
    | some t =>
        simp only [bind_assoc]
        refine bind_congr fun typed => ?_
        cases typed <;> simp [stopText]
  rw [beginTyping]
  refine bind_congr fun e => ?_
  cases e.typings[typing]? with
  | none => rfl
  | some t =>
      refine bind_congr fun stale => ?_
      cases stale with
      | true => rfl
      | false => exact bind_congr fun _ => hfirst

theorem made_beginTyping (typing : Nat) :
    Made .any place fun p : Perform Empty σ => beginTyping p typing := by
  simp only [beginTyping_eq]
  refine .after .get fun e _ => ?_
  cases e.typings[typing]? with
  | none => exact .pure ()
  | some t =>
      refine .next (.isStale _) fun stale => .ite (fun _ => ?_) fun _ => ?_
      · exact .quick (quick_modifyTyping _ fun _ => rfl)
      · exact .bind (.task trivial) fun _ => .next (quick_typeFirst typing) (made_stopText typing)

theorem typeLetter_eq (p : Perform Empty σ) (typing : Nat) (id : TimerId) :
    typeLetter p typing id = typeStep typing id >>= stopText p typing := by
  rw [typeLetter, typeStep, bind_assoc]
  refine bind_congr fun e => ?_
  cases e.typings[typing]? with
  | none => rfl
  | some t =>
      dsimp only
      split
      · simp [stopText]
      · simp only [bind_assoc]
        refine bind_congr fun stale => ?_
        cases stale
        · simp only [Bool.false_eq_true, if_false, bind_assoc]
          refine bind_congr fun typed => ?_
          cases typed <;> simp [stopText]
        · simp [stopText]

theorem made_typeLetter (typing : Nat) (id : TimerId) :
    Made .any place fun p : Perform Empty σ => typeLetter p typing id := by
  simp only [typeLetter_eq]
  exact .next (quick_typeStep typing id) (made_stopText typing)

theorem made_dequeue : Made .any place fun _ : Perform Empty σ => (dequeue : Run Empty σ Bool) := by
  refine .bind (.move fun e => .dequeue ?_) fun _ => .quick (.get fun _ _ => .pure _)
  exact getD_map_suffix List.tail_suffix e

/-- The element around a text gets its classes and its `id`. -/
def dressWrapper (call : TypeCall) (wrapper : ElementId) (t : Tree) : Tree :=
  let t := t.addClass wrapper call.className
  let t :=
    match call.options.elementId with
    | some id => t.setAttr wrapper "id" id
    | none => t
  match call.options.classes with
  | some classes => t.addClass wrapper classes
  | none => t

theorem grows_dressWrapper {x : Extent} {display : OutputId} (call : TypeCall)
    (wrapper : ElementId) (t : Tree) : t.Grows x display (dressWrapper call wrapper t) := by
  unfold dressWrapper
  dsimp only
  split <;> split
  · exact .trans (.trans (.addClass _ _) (.setAttr _ _ _)) (.addClass _ _)
  · exact .trans (.addClass _ _) (.addClass _ _)
  · exact .trans (.addClass _ _) (.setAttr _ _ _)
  · exact .addClass _ _

/-- Render a text in its element. -/
def fillText (p : Perform Empty σ) (call : TypeCall) (wrapper : ElementId) : Run Empty σ Unit := do
  Run.changeTree (dressWrapper call wrapper)
  p (.render (← Run.fromTree fun t => t.content wrapper) call.contents)

theorem made_fillText (call : TypeCall) (wrapper : ElementId) :
    Made scope place fun p : Perform Empty σ => fillText p call wrapper := by
  refine .next (.changeTree fun t _ _ => grows_dressWrapper call wrapper t) fun _ => ?_
  exact .next (.fromTree _) fun _ => .render _ _

theorem wrapText_eq (p : Perform Empty σ) (call : TypeCall) : wrapText p call = (do
    let wrapper ← Run.withTree fun t => t.newElement call.options.tag
    fillText p call wrapper
    return wrapper) := by
  simp only [wrapText, fillText, bind_assoc]
  rfl

theorem made_wrapText (call : TypeCall) :
    Made scope place fun p : Perform Empty σ => wrapText p call := by
  simp only [wrapText_eq]
  refine .next (.withTree fun t _ _ => .newElement t _) fun wrapper => ?_
  exact .bind (made_fillText call wrapper) fun _ => .pure wrapper

/-- Go on with a text that has been put in its place. -/
def afterPlacing (p : Perform Empty σ) : Placed → Run Empty σ Unit
  | .shown => do if ← dequeue then p .startTyping
  | .waiting => pure ()
  | .typed typing => beginTyping p typing

theorem runTypeBody_eq (p : Perform Empty σ) (call : TypeCall) : runTypeBody p call = (do
    let wrapper ← wrapText p call
    afterPlacing p (← placeText call wrapper)) := by
  simp only [runTypeBody, placeText, bind_assoc]
  refine bind_congr fun wrapper => bind_congr fun moment => bind_congr fun atOnce => ?_
  refine bind_congr fun _ => ?_
  cases atOnce with
  | true => simp [afterPlacing]
  | false =>
      simp only [Bool.false_eq_true, if_false, bind_assoc]
      refine bind_congr fun typing => ?_
      split <;> simp [afterPlacing]

theorem made_afterPlacing (placed : Placed) :
    Made .any place fun p : Perform Empty σ => afterPlacing p placed := by
  cases placed with
  | shown =>
      exact .bind made_dequeue fun isNext => .ite (fun _ => .task trivial) fun _ => .pure ()
  | waiting => exact .pure ()
  | typed typing => exact made_beginTyping typing

theorem made_runTypeBody (call : TypeCall) :
    Made .any place fun p : Perform Empty σ => runTypeBody p call := by
  simp only [runTypeBody_eq, wrapText_eq, bind_assoc, pure_bind]
  refine .element _ fun wrapper hsince => .bind (made_fillText call wrapper) fun _ => ?_
  exact .next (quick_placeText call hsince (place.lt_elements_knowing wrapper)) made_afterPlacing

end StoryEngine.Builtin
