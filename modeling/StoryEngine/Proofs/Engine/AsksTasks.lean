import StoryEngine.Proofs.Builtin.Asks
import StoryEngine.Proofs.Play.Played
/-!
# StoryEngine.Proofs.Engine.AsksTasks

What the tasks of an engine ask for. A render does nothing to texts but to have them join the queue
(`asks_render`). All other tasks are blind to what the host has noted down, too, and so is whatever
the host asks for: with and without the record, a run is the same (`recorded_mirrors`).
-/

namespace StoryEngine

variable {σ : Type} {scope : Scope}

/-! ### Renders -/

theorem asks_callMacro (out : OutputId) (entry : MacroEntry (Handler Empty))
    (handler : Handler Empty) (tag : Tag) (clauses : List Clause) (source : String) :
    Asks scope fun p : Perform Empty σ =>
      callMacro (runHandler Host.idle p) out entry handler tag clauses source := by
  refine .next (aside_openCall out entry tag clauses source) fun made => ?_
  cases made with
  | none => exact .pure ()
  | some context =>
      cases handler with
      | host procedure => exact procedure.elim
      | builtin b =>
          refine .bind (.attempt (asks_inContext context (Builtin.asks_runBuiltin context b))) ?_
          rintro (f | u)
          · exact .aside (aside_showError _ _ _)
          · exact .pure ()

theorem asks_renderTag (out : OutputId) (tag : Tag) (following : List Segment) :
    Asks scope fun p : Perform Empty σ =>
      renderTag (runHandler Host.idle p) out tag following := by
  refine .get (fun e => ?_) fun _ _ => rfl
  dsimp only
  cases e.registry.get? tag.name with
  | none => exact .next (aside_showError _ _ _) fun _ => .pure 0
  | some entry =>
      dsimp only
      cases entry.definition.handler with
      | none => exact .pure 0
      | some handler =>
          refine .ite (fun _ => ?_) fun _ => .bind (asks_callMacro out entry _ _ _ _) fun _ => .pure 0
          cases bodyFrom tag.name entry.definition.childTags 0 (.ofTag tag) 0 following with
          | error e => exact .next (aside_showError _ _ _) fun _ => .pure 0
          | ok body => exact .bind (asks_callMacro out entry _ _ _ _) fun _ => .pure body.next

theorem asks_renderSegments (out : OutputId) (skip : Nat) (segments : List Segment) :
    Asks scope fun p : Perform Empty σ =>
      renderSegments (runHandler Host.idle p) out skip segments := by
  induction segments generalizing skip with
  | nil => exact .pure ()
  | cons segment rest ih =>
      cases skip with
      | succ skip => exact ih skip
      | zero =>
          refine .get (fun e => .ite (fun _ => .pure ()) fun _ => ?_) fun _ _ => rfl
          cases segment with
          | text s => exact .next (.changeTree _) fun _ => ih 0
          | tag tag => exact .bind (asks_renderTag out tag rest) ih

theorem asks_render (out : OutputId) (source : String) :
    Asks scope fun p : Perform Empty σ =>
      StoryEngine.render (runHandler Host.idle p) out source :=
  asks_deeper ⟨fun _ => .ofOk rfl (.of_eq rfl rfl), fun _ _ => rfl⟩
    (asks_renderSegments out 0 (segmentsOf source))

/-! ### Deferred work -/

theorem asks_rendering (callback : Callback Empty) (h : callback.IsRendering) (arg : HandlerArg) :
    Asks scope fun p : Perform Empty σ => runCallback Host.idle p callback arg := by
  cases callback with
  | payload contents => exact Builtin.asks_runPayload contents
  | repeatBody wrapper contents transition =>
      exact Builtin.asks_runRepeatBody wrapper contents transition
  | timedBody wrapper transition =>
      cases arg with
      | item item => exact Builtin.asks_runTimedBody wrapper transition item
      | nothing => exact .pure ()
      | value v => exact .pure ()
  | goTo title => exact h.elim
  | typeBody call => exact h.elim
  | host procedure => exact h.elim

theorem asks_runPart? (arg : HandlerArg) (part : Option (Callback Empty)) :
    Asks .any fun p : Perform Empty σ => runPart? (runCallback Host.idle p) arg part := by
  cases part with
  | none => exact .pure ()
  | some callback =>
      cases callback with
      | goTo title => exact .task _
      | typeBody call => exact Builtin.asks_runTypeBody call
      | host procedure => exact procedure.elim
      | payload contents => exact asks_rendering (.payload contents) trivial arg
      | repeatBody wrapper contents transition =>
          exact asks_rendering (.repeatBody wrapper contents transition) trivial arg
      | timedBody wrapper transition =>
          exact asks_rendering (.timedBody wrapper transition) trivial arg

theorem asks_runListener (detail : String) (action : ListenerAction Empty) :
    Asks .any fun p : Perform Empty σ => runListener Host.idle p detail action := by
  cases action with
  | clearRepeats => exact .aside Builtin.aside_clearRepeats
  | clearTimed => exact .aside Builtin.aside_clearTimed
  | dropTyping => exact .blind Builtin.blind_dropTyping
  | startTyping => exact .task _
  | skipTyping typing => exact .aside (Builtin.aside_skipTyping typing detail)
  | nextTyping => exact Builtin.asks_nextTyping
  | host procedure => exact procedure.elim

theorem asks_runTimer (timer : Timer (TimerAction Empty)) :
    Asks .any fun p : Perform Empty σ => runTimer Host.idle p timer := by
  obtain ⟨id, due, period, action⟩ := timer
  cases action with
  | repeatTick handler moment => exact Builtin.asks_runRepeatTick handler moment id
  | timedStep chain => exact Builtin.asks_runTimedStep chain id
  | settle element className =>
      simp only [runTimer]
      exact .aside (.changeTree _)
  | beginTyping typing => exact Builtin.asks_beginTyping typing
  | typeLetter typing => exact Builtin.asks_typeLetter typing id
  | host procedure => exact procedure.elim

theorem asks_reporting {X : Perform Empty σ → Run Empty σ Unit} (hX : Asks scope X) :
    Asks scope fun p => Run.reporting (X p) := by
  refine .bind (.attempt hX) ?_
  rintro (f | u)
  · exact .aside (.report f)
  · exact .pure ()

theorem Engine.aside_leaveShadow (e : Engine Empty σ) (id : HandlerId) (depth : Nat)
    (previous : Option (Context Empty)) : e.Aside (e.leaveShadow id depth previous) := by
  unfold Engine.leaveShadow
  dsimp only
  split
  · cases hover : (e.state.dropOverlays (depth + 1)).overlays with
    | nil => simp only [State.pop, hover]; exact .of_eq rfl rfl
    | cons overlay outer =>
        simp only [State.pop, hover]
        -- the handler keeps what was given to the variables it captured, and is the same otherwise
        have hkeeps : e.KeepsHandlers { e with
            handlers := e.handlers.modify id.index fun h => { h with store := overlay } } :=
          .of_modify rfl
        exact ⟨rfl, hkeeps, fun l hl => .inl hl,
          fun timer htimer _ => ⟨timer, htimer, rfl, rfl, rfl⟩, fun _ hid => .inl hid⟩
  · exact .of_eq rfl rfl

theorem Engine.leaveShadow_withHost (e : Engine Empty σ) (host : σ) (id : HandlerId) (depth : Nat)
    (previous : Option (Context Empty)) :
    (e.withHost host).leaveShadow id depth previous =
      (e.leaveShadow id depth previous).withHost host := by
  unfold Engine.leaveShadow
  dsimp only [Engine.withHost]
  split
  · split <;> rfl
  · rfl

theorem asks_runShadowed (id : HandlerId) {X : Perform Empty σ → Run Empty σ Unit}
    (hX : Asks scope X) : Asks scope fun p => runShadowed id (X p) := by
  simp only [runShadowed_eq]
  refine .get (fun e => ?_) fun _ _ => rfl
  cases e.handlers[id.index]? with
  | none => exact .pure ()
  | some h =>
      refine .bind (.modify (fun _ => .of_eq rfl rfl) fun _ _ => rfl) fun _ => ?_
      exact .closing hX (fun e' => e'.aside_leaveShadow id _ _) fun e' host =>
        e'.leaveShadow_withHost host id _ _

theorem asks_invokeHandler (id : HandlerId) (arg : HandlerArg) :
    Asks .any fun p : Perform Empty σ => invokeHandler (runCallback Host.idle p) id arg := by
  refine .get (fun e => ?_) fun _ _ => rfl
  cases e.handlers[id.index]? with
  | none => exact .pure ()
  | some h =>
      refine .bind (asks_runPart? arg h.start) fun _ => .ite (fun _ => ?_) fun _ => ?_
      · exact .bind (asks_runShadowed id (asks_runPart? arg h.callback)) fun _ => asks_runPart? arg _
      · exact asks_runPart? arg _

/-! ### Tasks -/

theorem asks_callListeners (detail : String) (actions : List (ListenerAction Empty)) :
    Asks .any fun p : Perform Empty σ => callListeners Host.idle p detail actions := by
  induction actions with
  | nil => exact .pure ()
  | cons action rest ih => exact .bind (asks_reporting (asks_runListener detail action)) fun _ => ih

theorem asks_trigger (event : Event) (detail : String) :
    Asks .any fun p : Perform Empty σ => trigger Host.idle p event detail := by
  refine .get (fun e => .bind (.blind (.modify fun _ _ => rfl)) fun _ => ?_) fun _ _ => rfl
  exact asks_callListeners detail _

theorem asks_showPassage (source : String) :
    Asks .any fun p : Perform Empty σ => showPassage p source := by
  refine .bind (.blind (.modify fun _ _ => rfl)) fun _ => .get (fun e => ?_) fun _ _ => rfl
  exact .bind (.task _) fun _ => .blind (.modify fun _ _ => rfl)

theorem asks_navigate (title : String) :
    Asks .any fun p : Perform Empty σ => navigate p title := by
  refine .get (fun e => ?_) fun _ _ => rfl
  cases Entries.find? title e.passages with
  | none => exact .aside (.fail _)
  | some source =>
      refine .bind (.blind (.modify fun _ _ => rfl)) fun _ => .bind (.task _) fun _ => ?_
      exact .bind (asks_showPassage source) fun _ => .task _

theorem blind_takeTimer (limit : Nat) :
    Blind (takeTimer limit : Run Empty σ (Option (Timer (TimerAction Empty)))) := by
  refine .get (fun e => ?_) fun _ _ => rfl
  split
  · exact .pure none
  · exact .bind (.modify fun _ _ => rfl) fun _ => .pure _

theorem asks_fireDue (limit fuel : Nat) :
    Asks .any fun p : Perform Empty σ => fireDue Host.idle p limit fuel := by
  induction fuel with
  | zero => exact .blind fun _ _ => rfl
  | succ fuel ih =>
      refine .bind (.blind (blind_takeTimer limit)) fun timer => ?_
      cases timer with
      | none => exact .pure ()
      | some timer => exact .bind (asks_reporting (asks_runTimer timer)) fun _ => ih

theorem asks_advance (fuel ms : Nat) :
    Asks .any fun p : Perform Empty σ => advance Host.idle p fuel ms := by
  refine .get (fun e => .bind (asks_fireDue _ fuel) fun _ => ?_) fun _ _ => rfl
  exact .aside (.changeClock (.setNow · _))

theorem asks_performTask (fuel : Nat) (t : Task) :
    Asks .any fun p : Perform Empty σ => performTask Host.idle p fuel t := by
  cases t with
  | render out source => exact asks_render out source
  | trigger event detail => exact asks_trigger event detail
  | navigate title => exact asks_navigate title
  | invoke handler arg => exact asks_invokeHandler handler arg
  | startTyping => exact Builtin.asks_startFirst
  | advance ms => exact asks_advance fuel ms

/-- With and without the record, an engine does the same. -/
theorem recorded_mirrors (n : Nat) : PerformsMirrored (recorded n) (perform Host.idle n) := by
  induction n with
  | zero => exact fun _ _ _ => rfl
  | succ n ih =>
      intro t e host
      exact (asks_performTask n t).mirrors ih (e.noting t) host

theorem HostCall.mirrors {p p' : Perform Empty σ} (hp : PerformsMirrored p p') (call : HostCall) :
    Mirrors (call.run p) (call.run p') := by
  cases call with
  | addPassage title source => exact .modify fun _ _ => rfl
  | render out source => exact hp _
  | navigate title => exact hp _
  | pressKey key => exact hp _
  | advance ms => exact hp _
  | set name value => exact (IsAside.changingState fun _ _ => State.reassigned_of_set).blind
  | newOutput => exact .bind (IsAside.withTree _).blind fun _ => .pure _
  | takeErrors => exact .modify fun _ _ => rfl
  | click element =>
      refine .bind (.get (fun e => ?_) fun _ _ => rfl) fun _ => .pure _
      cases takeClickable? element e.clickables with
      | none => exact .pure _
      | some found =>
          obtain ⟨k, others⟩ := found
          dsimp only
          split
          · exact .bind (.modify fun _ _ => rfl) fun _ => .bind (hp _) fun _ => .pure _
          · exact .bind (hp _) fun _ => .pure _

end StoryEngine
