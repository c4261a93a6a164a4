import StoryEngine.Proofs.Builtin.Steady
/-!
# StoryEngine.Proofs.Engine.SteadyTasks

What tasks are made up of, as far as what is put off is concerned: steps, further tasks, and procedures
of the host. Only a timer that fires for the next clause of a chain takes part in what is tracked in a
way that depends on the firing, so it is not among what is shown here to be steady.
-/

namespace StoryEngine

variable {η σ : Type} {terms : Terms η σ}

/-! ### Renders -/

theorem steady_runHandler (handler : Handler η) (context : Context η) :
    Steady terms fun p => runHandler terms.host p handler context := by
  cases handler with
  | builtin b => exact Builtin.steady_runBuiltin context b
  | host procedure => exact .procedure procedure (.call context)

theorem steady_callMacro (out : OutputId) (entry : MacroEntry (Handler η)) (handler : Handler η)
    (tag : Tag) (clauses : List Clause) (source : String) :
    Steady terms fun p => callMacro (runHandler terms.host p) out entry handler tag clauses source := by
  refine .bind (steady_openCall out entry tag clauses source) fun made => ?_
  cases made with
  | none => exact .pure ()
  | some context =>
      have hhandler : Steady terms fun p => runHandler terms.host p handler context :=
        steady_runHandler handler context
      refine .bind (.attempt (steady_inContext context hhandler)) fun outcome => ?_
      cases outcome with
      | ok u => exact .pure ()
      | error f => exact .still fun _ => rfl

theorem steady_renderTag (out : OutputId) (tag : Tag) (following : List Segment) :
    Steady terms fun p => renderTag (runHandler terms.host p) out tag following := by
  refine .get fun e => ?_
  dsimp only
  cases e.registry.get? tag.name with
  | none => exact .next (fun _ => rfl) fun _ => .pure 0
  | some entry =>
      dsimp only
      cases entry.definition.handler with
      | none => exact .pure 0
      | some handler =>
          have hcall (clauses : List Clause) (source : String) : Steady terms fun p =>
              callMacro (runHandler terms.host p) out entry handler tag clauses source :=
            steady_callMacro out entry handler tag clauses source
          refine .ite ?_ (.bind (hcall _ _) fun _ => .pure 0)
          cases bodyFrom tag.name entry.definition.childTags 0 (.ofTag tag) 0 following with
          | error e => exact .next (fun _ => rfl) fun _ => .pure 0
          | ok body => exact .bind (hcall _ _) fun _ => .pure body.next

theorem steady_renderSegments (out : OutputId) (skip : Nat) (segments : List Segment) :
    Steady terms fun p => renderSegments (runHandler terms.host p) out skip segments := by
  induction segments generalizing skip with
  | nil => exact .pure ()
  | cons segment rest ih =>
      cases skip with
      | succ skip => exact ih skip
      | zero =>
          refine .get fun e => .ite (.pure ()) ?_
          cases segment with
          | text s => exact .next (fun _ => rfl) fun _ => ih 0
          | tag tag => exact .bind (steady_renderTag out tag rest) ih

theorem steady_renderTask (out : OutputId) (source : String) :
    Steady terms fun p => render (runHandler terms.host p) out source :=
  steady_deeper (.get fun _ => .still fun _ => rfl)
    (steady_renderSegments out 0 (segmentsOf source))

/-! ### Deferred work -/

theorem steady_runCallback (callback : Callback η) (arg : HandlerArg) :
    Steady terms fun p => runCallback terms.host p callback arg := by
  cases callback with
  | payload contents => exact Builtin.steady_runPayload contents
  | goTo title => exact .task trivial
  | repeatBody wrapper contents transition =>
      exact Builtin.steady_runRepeatBody wrapper contents transition
  | timedBody wrapper transition =>
      cases arg with
      | item item => exact Builtin.steady_runTimedBody wrapper transition item
      | nothing => exact .pure ()
      | value v => exact .pure ()
  | typeBody text => exact Builtin.steady_runTypeBody text
  | host procedure => exact .procedure procedure (.part arg)

theorem steady_runPart? (arg : HandlerArg) (part : Option (Callback η)) :
    Steady terms fun p => runPart? (runCallback terms.host p) arg part := by
  cases part with
  | none => exact .pure ()
  | some callback => exact steady_runCallback callback arg

theorem steady_invokeHandler (id : HandlerId) (arg : HandlerArg) :
    Steady terms fun p => invokeHandler (runCallback terms.host p) id arg := by
  refine .get fun e => ?_
  cases e.handlers[id.index]? with
  | none => exact .pure ()
  | some h =>
      have hpart (part : Option (Callback η)) :
          Steady terms fun p => runPart? (runCallback terms.host p) arg part := steady_runPart? arg part
      refine .bind (hpart h.start) fun _ => .nextWhen ?_ (hpart h.done)
      exact steady_runShadowed id (hpart h.callback)

theorem steady_runListener (detail : String) {action : ListenerAction η}
    (hcancels : action.cancels = true → terms.endsTurn) :
    Steady terms fun p => runListener terms.host p detail action := by
  cases action with
  | clearRepeats => exact Builtin.steady_clearRepeats (hcancels rfl)
  | clearTimed => exact Builtin.steady_clearTimed (hcancels rfl)
  | dropTyping => exact .unlisten none Builtin.typingNamespace
  | startTyping => exact .task trivial
  | skipTyping typing => exact Builtin.steady_skipTyping typing detail
  | nextTyping => exact Builtin.steady_nextTyping
  | host procedure => exact .procedure procedure (.event detail)

/-- What a timer runs may cancel that timer, and if it is an interval, that ticks meanwhile. -/
theorem steady_runTimer {timer : Timer (TimerAction η)} (hclears : terms.clears timer.id)
    (htick : ∀ handler moment, timer.action = .repeatTick handler moment → ∀ id, terms.clears id)
    (h : ∀ chain, timer.action ≠ .timedStep chain) : Steady terms fun p => runTimer terms.host p timer := by
  obtain ⟨id, due, period, action⟩ := timer
  cases action with
  | repeatTick handler moment => exact Builtin.steady_runRepeatTick (htick handler moment rfl) handler moment id
  | timedStep chain => exact (h chain rfl).elim
  | settle element className => exact .still fun _ => rfl
  | beginTyping typing => exact Builtin.steady_beginTyping typing
  | typeLetter typing => exact Builtin.steady_typeLetter typing hclears
  | host procedure => exact .procedure procedure (.timer id)

/-! ### Tasks -/

theorem steady_callListeners (detail : String) {actions : List (ListenerAction η)}
    (hcancels : ∀ action ∈ actions, action.cancels = true → terms.endsTurn) :
    Steady terms fun p => callListeners terms.host p detail actions := by
  induction actions with
  | nil => exact .pure ()
  | cons action rest ih =>
      have hfirst := hcancels action List.mem_cons_self
      refine .bind (.reporting (steady_runListener detail hfirst)) fun _ => ih fun other hother => ?_
      exact hcancels other (List.mem_cons_of_mem action hother)

/-- Announce the next passage, render it, and announce that it is there. -/
theorem steady_showNext (hends : terms.endsTurn) (title source : String) :
    Steady terms fun p : Perform η σ => (do
      p (.trigger .passageInit title)
      showPassage p source
      p (.trigger .passageEnd title) : Run η σ Unit) := by
  refine .bind (.task hends) fun _ => .bind ?_ fun _ => .task trivial
  exact .next (fun _ => rfl) fun _ => .get fun e => .bind (.task trivial) fun _ => .still fun _ => rfl

theorem steady_navigate (hends : terms.endsTurn) (title : String) :
    Steady terms fun p : Perform η σ => navigate p title := by
  refine .get fun e => ?_
  cases Entries.find? title e.passages with
  | none => exact .fail _
  | some source =>
      have hturn : Steady terms fun _ : Perform η σ =>
          (modify fun e => e.beginTurn title : Run η σ Unit) := .own fun _ => .single (.turn title)
      exact .bind hturn fun _ => steady_showNext hends title source

end StoryEngine
