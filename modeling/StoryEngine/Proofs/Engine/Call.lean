import StoryEngine.Proofs.Engine.Quick
/-!
# StoryEngine.Proofs.Engine.Call

What becomes of a tag, if nothing is wrong with its arguments: a context with a new call in it
(`openCall_apply`), in which the macro runs (`renderTag_void`, `renderTag_unparsed`). As long as the
settings ask for no debug views the call makes none, so its output goes to where the call stands
(`MacroCall.IsPlain`).
-/

namespace StoryEngine

variable {η σ : Type}

theorem Run.evaluating_apply {α : Type} (x : Evaluation α) (e : Engine η σ) :
    Run.evaluating x e = (.ok (x e.state).1, { e with state := (x e.state).2 }) := rfl

theorem Run.andFinally_congr {α : Type} {x y : Run η σ α} {e e' : Engine η σ} (h : x e = y e')
    (change : Engine η σ → Engine η σ) :
    Run.andFinally x change e = Run.andFinally y change e' := by
  have hattempt : Run.attempt x e = Run.attempt y e' := by
    unfold Run.attempt
    rw [h]
  rw [Run.andFinally, Run.andFinally, Run.bind_apply, Run.bind_apply, hattempt]

/-! ### Calls without debug views -/

/-- The call makes no debug view. -/
def MacroCall.IsPlain (call : MacroCall η) (e : Engine η σ) : Prop :=
  (e.calls[call.id]?.getD {}).isDebug = false

theorem MacroCall.IsPlain.view?_apply {call : MacroCall η} {e : Engine η σ}
    (h : call.IsPlain e) : call.view? e = (.ok none, e) := by
  have hstate : call.state e = (.ok (e.calls[call.id]?.getD {}), e) := rfl
  have hview : (!(e.calls[call.id]?.getD {}).isDebug) = true := by
    unfold MacroCall.IsPlain at h
    rw [h]
    rfl
  rw [MacroCall.view?, Run.bind_of_ok hstate, if_pos hview]
  rfl

theorem MacroCall.IsPlain.target_apply {call : MacroCall η} {e : Engine η σ}
    (h : call.IsPlain e) : call.target e = (.ok call.output, e) := by
  rw [MacroCall.target, Run.bind_of_ok h.view?_apply]
  rfl

theorem MacroCall.IsPlain.showModes_apply {call : MacroCall η} {e : Engine η σ}
    (h : call.IsPlain e) (modes : List String) : call.showModes modes e = (.ok (), e) := by
  rw [MacroCall.showModes, Run.bind_of_ok h.view?_apply]
  rfl

/-! ### Opening a call -/

theorem Context.make_apply (entry : MacroEntry (Handler η)) {name : String}
    (hname : name.isEmpty = false) (args : ArgumentList) (payload : List PayloadClause)
    (source : String) (parent : Option (Context η)) (output : OutputId) (isDebug : Bool)
    (e : Engine η σ) :
    Context.make {
        entry := some entry
        name := name
        args := args
        payload := payload
        source := source
        parent := parent
        output := some output
        isDebug := isDebug } e =
      (.ok {
        call := {
          id := e.calls.size
          definition := entry.definition
          name := entry.aliasOf.getD name
          displayName := name
          args := args
          payload := payload
          source := source
          output := output }
        outer := (parent.map Context.calls).getD [] },
      { e with calls := e.calls.push { isDebug := isDebug } }) := by
  have hnot : ¬ name.isEmpty = true := by
    rw [hname]
    exact Bool.false_ne_true
  unfold Context.make
  dsimp only
  rw [if_neg hnot]
  cases parent <;> rfl

theorem Context.make_of_isEmpty (entry : MacroEntry (Handler η)) {name : String}
    (hname : name.isEmpty = true) (args : ArgumentList) (payload : List PayloadClause)
    (source : String) (parent : Option (Context η)) (output : OutputId) (isDebug : Bool)
    (e : Engine η σ) :
    Context.make {
        entry := some entry
        name := name
        args := args
        payload := payload
        source := source
        parent := parent
        output := some output
        isDebug := isDebug } e =
      (.error (.failure (.context (.missing "name"))), e) := by
  unfold Context.make
  dsimp only
  rw [if_pos hname]
  rfl

/-- The context that a call is executed in. -/
def Engine.callContext (e : Engine η σ) (out : OutputId) (entry : MacroEntry (Handler η))
    (name : String) (args : ArgumentList) (payload : List PayloadClause) (source : String) :
    Context η where
  call := {
    id := e.calls.size
    definition := entry.definition
    name := entry.aliasOf.getD name
    displayName := name
    args := args
    payload := payload
    source := source
    output := out }
  outer := (e.current.map Context.calls).getD []

/-- The engine with one more call. -/
def Engine.addCall (e : Engine η σ) : Engine η σ :=
  { e with calls := e.calls.push { isDebug := e.config.debug } }

/-- The engine in which a new call is executed. -/
def Engine.enterCall (e : Engine η σ) (context : Context η) : Engine η σ :=
  { e.addCall with current := some context }

theorem Engine.isPlain_enterCall {e : Engine η σ} (hdebug : e.config.debug = false)
    {context : Context η} (hid : context.call.id = e.calls.size) :
    context.call.IsPlain (e.enterCall context) := by
  have hcall : (e.enterCall context).calls[context.call.id]? =
      some { isDebug := e.config.debug } := by
    rw [hid]
    exact Array.getElem?_push_size
  unfold MacroCall.IsPlain
  rw [hcall]
  exact hdebug

theorem openCall_apply {out : OutputId} {entry : MacroEntry (Handler η)} {tag : Tag}
    {clauses : List Clause} {source : String} {e : Engine η σ} {args : ArgumentList}
    {payload : List PayloadClause}
    (hargs : callArguments entry.definition tag.args e = (.ok (.ok args), e))
    (hpayload : payloadClauses entry.definition clauses e = (.ok (.ok payload), e))
    (hname : tag.name.isEmpty = false) :
    openCall out entry tag clauses source e =
      (.ok (some (e.callContext out entry tag.name args payload source)), e.addCall) := by
  have hmake := Context.make_apply entry hname args payload source e.current out e.config.debug e
  rw [openCall, Run.bind_of_ok hargs]
  dsimp only
  rw [Run.bind_of_ok hpayload]
  dsimp only
  rw [Run.get_bind_apply, Run.bind_of_ok (Run.attempt_of_ok hmake)]
  rfl

section Unparsed

variable {definition : Definition (Handler η)}

/-- The clause as it is handed to a macro that reads the arguments itself. -/
def Clause.unparsed (clause : Clause) : PayloadClause :=
  ⟨clause.name, .unparsed clause.args, clause.contents, clause.source⟩

theorem callArguments_of_skipArgs (hskip : definition.skipArgs = true) (raw : String)
    (e : Engine η σ) : callArguments definition raw e = (.ok (.ok (.unparsed raw)), e) := by
  rw [callArguments, if_pos hskip]
  rfl

theorem payloadClauses_of_skipArgs (hskip : definition.skipArgs = true) (clauses : List Clause)
    (e : Engine η σ) :
    payloadClauses definition clauses e = (.ok (.ok (clauses.map Clause.unparsed)), e) := by
  induction clauses with
  | nil => rfl
  | cons clause rest ih =>
      rw [payloadClauses, Run.bind_of_ok (callArguments_of_skipArgs hskip clause.args e)]
      dsimp only
      rw [Run.bind_of_ok ih]
      rfl

end Unparsed

/-! ### Executing a call -/

/-- Run what the macro's name stands for in the context of a call, and show a failure in the place
of the call. -/
def executeCall (run : Context η → Run η σ Unit) (context : Context η) : Run η σ Unit := do
  match ← Run.attempt (inContext context (run context)) with
  | .ok () => pure ()
  | .error f =>
    showError context.call.output
      ("cannot execute macro <<" ++ context.call.displayName ++ ">>: " ++ f.wording)
      context.call.source

theorem executeCall_of_ok {run : Context η → Run η σ Unit} {context : Context η}
    {e e' : Engine η σ} (h : run context { e with current := some context } = (.ok (), e')) :
    executeCall run context e = (.ok (), { e' with current := e.current }) := by
  have hcontext : inContext context (run context) e = (.ok (), { e' with current := e.current }) :=
    Run.andFinally_of_returned _ h (returned_ok ())
  rw [executeCall, Run.bind_of_ok (Run.attempt_of_ok hcontext)]
  rfl

/-- Only what happens in the context matters, and the context around it. -/
theorem executeCall_congr {run run' : Context η → Run η σ Unit} {context : Context η}
    {e e' : Engine η σ}
    (h : run context { e with current := some context } =
      run' context { e' with current := some context }) (hcurrent : e.current = e'.current) :
    executeCall run context e = executeCall run' context e' := by
  have hcontext : inContext context (run context) e = inContext context (run' context) e' := by
    rw [inContext, inContext, Run.get_bind_apply, Run.get_bind_apply, Run.modify_bind_apply,
      Run.modify_bind_apply, hcurrent]
    exact Run.andFinally_congr h _
  have hcalled : Run.attempt (inContext context (run context)) e =
      Run.attempt (inContext context (run' context)) e' := by
    unfold Run.attempt
    rw [hcontext]
  rw [executeCall, executeCall, Run.bind_apply, hcalled, ← Run.bind_apply]

/-- A tag that calls a macro with a body, if the body is found: the segments of the body are not
rendered here. -/
theorem renderTag_container {out : OutputId} {entry : MacroEntry (Handler η)} {handler : Handler η}
    {tag : Tag} {following : List Segment} {body : Body} {e : Engine η σ}
    (hentry : e.registry.get? tag.name = some entry)
    (hhandler : entry.definition.handler = some handler)
    (hcontainer : entry.definition.isContainer = true)
    (hbody : bodyFrom tag.name entry.definition.childTags 0 (.ofTag tag) 0 following = .ok body)
    (run : Handler η → Context η → Run η σ Unit) :
    renderTag run out tag following e =
      (callMacro run out entry handler tag body.clauses
        (tag.source ++ String.join ((following.take body.next).map (·.source))) >>= fun _ =>
          pure body.next) e := by
  rw [renderTag, Run.get_bind_apply, hentry]
  dsimp only
  rw [hhandler]
  dsimp only
  rw [if_pos hcontainer, hbody]

theorem callMacro_of_openCall {out : OutputId} {entry : MacroEntry (Handler η)} {tag : Tag}
    {clauses : List Clause} {source : String} {e e' : Engine η σ} {args : ArgumentList}
    {payload : List PayloadClause}
    (hopen : openCall out entry tag clauses source e =
      (.ok (some (e.callContext out entry tag.name args payload source)), e'))
    (run : Handler η → Context η → Run η σ Unit) (handler : Handler η) :
    callMacro run out entry handler tag clauses source e =
      executeCall (run handler) (e.callContext out entry tag.name args payload source) e' := by
  rw [callMacro, Run.bind_of_ok hopen]
  rfl

/-- A tag that calls a macro with a body, which reads its arguments itself: one call is executed,
whatever the arguments are. -/
theorem renderTag_unparsed {out : OutputId} {entry : MacroEntry (Handler η)} {handler : Handler η}
    {tag : Tag} {following : List Segment} {body : Body} {e : Engine η σ}
    (hentry : e.registry.get? tag.name = some entry)
    (hhandler : entry.definition.handler = some handler)
    (hcontainer : entry.definition.isContainer = true)
    (hskip : entry.definition.skipArgs = true) (hname : tag.name.isEmpty = false)
    (hbody : bodyFrom tag.name entry.definition.childTags 0 (.ofTag tag) 0 following = .ok body)
    (run : Handler η → Context η → Run η σ Unit) :
    renderTag run out tag following e =
      (executeCall (run handler) (e.callContext out entry tag.name (.unparsed tag.args)
          (body.clauses.map Clause.unparsed)
          (tag.source ++ String.join ((following.take body.next).map (·.source)))) >>= fun _ =>
        pure body.next) e.addCall := by
  let source := tag.source ++ String.join ((following.take body.next).map (·.source))
  have hopen : openCall out entry tag body.clauses source e =
      (.ok (some (e.callContext out entry tag.name (.unparsed tag.args)
        (body.clauses.map Clause.unparsed) source)), e.addCall) :=
    openCall_apply (callArguments_of_skipArgs hskip tag.args e)
      (payloadClauses_of_skipArgs hskip body.clauses e) hname
  rw [renderTag_container hentry hhandler hcontainer hbody, Run.bind_apply,
    callMacro_of_openCall hopen, Run.bind_apply]

section Void

variable {out : OutputId} {entry : MacroEntry (Handler η)} {handler : Handler η} {tag : Tag}
  {e : Engine η σ} {args : ArgumentList}

/-- A tag that calls a macro without a body. The segments behind it are not part of the call. -/
theorem renderTag_callMacro (hentry : e.registry.get? tag.name = some entry)
    (hhandler : entry.definition.handler = some handler)
    (hcontainer : entry.definition.isContainer = false)
    (run : Handler η → Context η → Run η σ Unit) (following : List Segment) :
    renderTag run out tag following e =
      (callMacro run out entry handler tag [] tag.source >>= fun _ => pure 0) e := by
  have hbody : ¬ entry.definition.isContainer = true := by simp [hcontainer]
  rw [renderTag, Run.get_bind_apply, hentry]
  dsimp only
  rw [hhandler]
  dsimp only
  rw [if_neg hbody]

/-- If its arguments can be read, one call is executed. -/
theorem renderTag_void (hentry : e.registry.get? tag.name = some entry)
    (hhandler : entry.definition.handler = some handler)
    (hcontainer : entry.definition.isContainer = false)
    (hargs : callArguments entry.definition tag.args e = (.ok (.ok args), e))
    (hname : tag.name.isEmpty = false) (run : Handler η → Context η → Run η σ Unit)
    (following : List Segment) :
    renderTag run out tag following e =
      (executeCall (run handler) (e.callContext out entry tag.name args [] tag.source) >>= fun _ =>
        pure 0) e.addCall := by
  have hopen : openCall out entry tag [] tag.source e =
      (.ok (some (e.callContext out entry tag.name args [] tag.source)), e.addCall) :=
    openCall_apply hargs rfl hname
  rw [renderTag_callMacro hentry hhandler hcontainer, Run.bind_apply,
    callMacro_of_openCall hopen, Run.bind_apply]

theorem renderSegments_tag (hbreak : e.loopBreak = none)
    (run : Handler η → Context η → Run η σ Unit) (following : List Segment) :
    renderSegments run out 0 (.tag tag :: following) e =
      (renderTag run out tag following >>= fun skip =>
        renderSegments run out skip following) e := by
  have hnone : e.loopBreak.isSome = false := by simp [hbreak]
  rw [renderSegments, Run.get_bind_apply, hnone]
  rfl

end Void

end StoryEngine
