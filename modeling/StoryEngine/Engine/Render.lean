import StoryEngine.Engine.Shadow
import StoryEngine.Passage.Body
/-!
# StoryEngine.Engine.Render

Rendering source text: text is displayed as it is, and every tag is a call of a macro. What goes
wrong is displayed in its place, and rendering goes on behind it. Rendering stops when a loop is
being left, and refuses to nest deeper than the settings allow.
-/

namespace StoryEngine

variable {η σ : Type}

/-- Run a computation in a context, and leave it afterwards. -/
def inContext (context : Context η) (x : Run η σ Unit) : Run η σ Unit := do
  let previous := (← get).current
  modify fun e => { e with current := some context }
  Run.andFinally x fun e => { e with current := previous }

/-- Read the arguments of a call, or leave them as they are if the macro wants them so. -/
def callArguments (definition : Definition (Handler η)) (raw : String) :
    Run η σ (Except ArgumentError ArgumentList) :=
  if definition.skipArgs then pure (.ok (.unparsed raw)) else Run.reading (readArguments raw)

/-- Read the arguments of clauses, up to the first that fails. -/
def payloadClauses (definition : Definition (Handler η)) :
    List Clause → Run η σ (Except ArgumentError (List PayloadClause))
  | [] => pure (.ok [])
  | clause :: rest => do
    match ← callArguments definition clause.args with
    | .error e => return .error e
    | .ok args =>
      match ← payloadClauses definition rest with
      | .error e => return .error e
      | .ok clauses => return .ok (⟨clause.name, args, clause.contents, clause.source⟩ :: clauses)

/-- What is wrong with a tag that calls no macro. -/
def strayTagMessage (registry : Registry (Handler η)) (name : String) : String :=
  match Entries.find? name registry.tags with
  | some parents =>
    "child tag <<" ++ name ++ ">> was found outside of a call to its " ++ parentList parents
  | none => "macro <<" ++ name ++ ">> does not exist"

/-- Show an error at the end of an output. -/
def showError (out : OutputId) (message source : String) : Run η σ Unit :=
  Run.changeTree fun t => t.appendError out message source

/-- The new context of a call, with its arguments and those of its clauses read. What goes wrong
with these is shown, and there is no context. -/
def openCall (out : OutputId) (entry : MacroEntry (Handler η)) (tag : Tag) (clauses : List Clause)
    (source : String) : Run η σ (Option (Context η)) := do
  match ← callArguments entry.definition tag.args with
  | .error e =>
    showError out ("<<" ++ tag.name ++ ">>: " ++ e.message) source
    return none
  | .ok args =>
    match ← payloadClauses entry.definition clauses with
    | .error e =>
      showError out ("<<" ++ tag.name ++ ">>: " ++ e.message) source
      return none
    | .ok payload =>
      let e ← get
      let made ← Run.attempt (Context.make {
        entry := some entry
        name := tag.name
        args := args
        payload := payload
        source := source
        parent := e.current
        output := some out
        isDebug := e.config.debug })
      match made with
      | .error f =>
        showError out f.wording source
        return none
      | .ok context => return some context

/-- Call a macro: read its arguments and those of its clauses, and run its handler in a new
context. -/
def callMacro (runHandler : Handler η → Context η → Run η σ Unit) (out : OutputId)
    (entry : MacroEntry (Handler η)) (handler : Handler η) (tag : Tag) (clauses : List Clause)
    (source : String) : Run η σ Unit := do
  match ← openCall out entry tag clauses source with
  | none => pure ()
  | some context =>
    match ← Run.attempt (inContext context (runHandler handler context)) with
    | .ok () => pure ()
    | .error f =>
      showError out ("cannot execute macro <<" ++ tag.name ++ ">>: " ++ f.wording) source

/-- Render a tag, which the segments follow, and tell how many of these belong to the call. -/
def renderTag (runHandler : Handler η → Context η → Run η σ Unit) (out : OutputId) (tag : Tag)
    (following : List Segment) : Run η σ Nat := do
  let registry := (← get).registry
  match registry.get? tag.name with
  | none =>
    showError out (strayTagMessage registry tag.name) tag.source
    return 0
  | some entry =>
    match entry.definition.handler with
    | none => return 0
    | some handler =>
      if entry.definition.isContainer then
        match bodyFrom tag.name entry.definition.childTags 0 (.ofTag tag) 0 following with
        | .error e =>
          showError out e.message tag.source
          return 0
        | .ok body =>
          let source := tag.source ++ String.join ((following.take body.next).map (·.source))
          callMacro runHandler out entry handler tag body.clauses source
          return body.next
      else
        callMacro runHandler out entry handler tag [] tag.source
        return 0

/-- Render segments, the first `skip` of which belong to a call that is done. -/
def renderSegments (runHandler : Handler η → Context η → Run η σ Unit) (out : OutputId) :
    Nat → List Segment → Run η σ Unit
  | _, [] => pure ()
  | skip + 1, _ :: rest => renderSegments runHandler out skip rest
  | 0, segment :: rest => do
    if (← get).loopBreak.isSome then pure ()
    else
      match segment with
      | .text s => do
        Run.changeTree fun t => t.pushText out s
        renderSegments runHandler out 0 rest
      | .tag tag => do
        let skip ← renderTag runHandler out tag rest
        renderSegments runHandler out skip rest

/-- Run a computation as one more render inside those under way, unless the settings do not allow
as many. -/
def deeper (tooDeep x : Run η σ Unit) : Run η σ Unit := do
  let e ← get
  if h : e.renderDepth < e.config.maxRenderDepth then
    set { e with renderDepth := e.renderDepth + 1, renderDepth_le := h }
    Run.andFinally x fun e => { e with
      renderDepth := e.renderDepth - 1
      renderDepth_le := Nat.le_trans (Nat.sub_le ..) e.renderDepth_le }
  else tooDeep

/-- The complaint about renders that nest too deep. -/
def tooDeepMessage (limit : Nat) : String :=
  "maximum render depth (" ++ toString limit ++ ") exceeded"

/-- Render source text at the end of an output. -/
def render (runHandler : Handler η → Context η → Run η σ Unit) (out : OutputId)
    (source : String) : Run η σ Unit :=
  deeper (do showError out (tooDeepMessage (← get).config.maxRenderDepth) source)
    (renderSegments runHandler out 0 (segmentsOf source))

end StoryEngine
