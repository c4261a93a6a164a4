import StoryEngine.Builtin.Catalogue
import StoryEngine.Clock
import StoryEngine.Display.Typer
import StoryEngine.Engine.Failure
import StoryEngine.Event
import StoryEngine.State
/-!
# StoryEngine.Engine.Work

What an engine has to do, as data. Work that is put off, to a timer, an event or a click, is
described by what it will do and on what. A host that embeds an engine adds procedures of its own
type `η` to that of the built-in macros.
-/

namespace StoryEngine

/-- What runs when a macro is called. -/
inductive Handler (η : Type) where
  | builtin (b : Builtin)
  | host (procedure : η)

/-- A clause of a call's body with its arguments read. -/
structure PayloadClause where
  name : String
  args : ArgumentList
  contents : String
  /-- The tag as written. -/
  source : String

/-- A call of a macro. -/
structure MacroCall (η : Type) where
  /-- Tells calls apart. -/
  id : Nat
  definition : Definition (Handler η)
  /-- The name of the macro; for an alias, that of its target. -/
  name : String
  /-- The name as written. -/
  displayName : String
  args : ArgumentList
  /-- The clauses of a container's body, the opening tag's first. -/
  payload : List PayloadClause
  /-- The call as written, with its body. -/
  source : String
  /-- Where the call stands. -/
  output : OutputId

/-- What stands between the opening tag and the next tag of the call. -/
def MacroCall.contents {η : Type} (call : MacroCall η) : String :=
  match call.payload with
  | clause :: _ => clause.contents
  | [] => ""

/-- What changes about a call while it lasts. -/
structure CallState where
  /-- The variables that the call shadows for work it puts off. -/
  shadows : List String := []
  /-- The debug view around the call's output. -/
  view : Option ViewId := none
  /-- The call makes a debug view when it first needs one. -/
  isDebug : Bool := false

/-- A call with the calls that it stands in. -/
structure Context (η : Type) where
  call : MacroCall η
  /-- The calls around it, nearest first. -/
  outer : List (MacroCall η)

/-- The calls of a context, nearest first. -/
def Context.calls {η : Type} (context : Context η) : List (MacroCall η) :=
  context.call :: context.outer

/-- A passage and the turn in which it is shown. Work that belongs to a moment is stale in any
other one. -/
structure Moment where
  passage : String
  turn : Nat
deriving Repr, DecidableEq

/-- The identity of a deferred handler. -/
structure HandlerId where
  index : Nat
deriving Repr, DecidableEq

/-- A clause that is rendered after a delay. -/
structure TimedItem where
  name : String
  source : String
  delay : Nat
  contents : String
deriving Repr, DecidableEq

/-- The clauses of a call that are rendered one after another. -/
structure TimedChain where
  handler : HandlerId
  /-- The clauses not rendered yet. -/
  items : List TimedItem
  moment : Moment

/-- What becomes of the cursor that marks where text is typed. -/
inductive Cursor where
  /-- It goes when the text is typed out. -/
  | whileTyping
  /-- It stays. -/
  | kept
  /-- There is none. -/
  | hidden
deriving Repr, DecidableEq

/-- How a text is typed out. -/
structure TypeOptions where
  /-- Classes of the element around the text. -/
  classes : Option String := none
  /-- The `id` attribute of the element. -/
  elementId : Option String := none
  /-- The tag of the element. -/
  tag : String := "div"
  /-- The key that finishes the text. -/
  skipKey : String
  /-- The delay before the first letter, in milliseconds. -/
  start : Nat := 400
  cursor : Cursor := .whileTyping
deriving Repr, DecidableEq

/-- A text to be typed out when its turn comes. -/
structure TypeCall where
  id : Nat
  /-- The time between two letters, in milliseconds. -/
  speed : Nat
  options : TypeOptions
  /-- The class of the element around the text, from which other classes are made. -/
  className : String
  contents : String
  /-- Where the text will stand. -/
  parent : OutputId
  /-- The element that keeps its place. -/
  target : ElementId
deriving Repr, DecidableEq

/-- A text waiting for its turn. -/
structure TypeJob where
  id : Nat
  handler : HandlerId
deriving Repr, DecidableEq

/-- A text that is being typed out. -/
structure Typing where
  id : Nat
  typer : Typer
  cursorClass : String
  doneClass : String
  cursor : Cursor
  speed : Nat
  skipKey : String
  moment : Moment
  isStopped : Bool := false

/-- What a deferred handler is told when it is invoked. -/
inductive HandlerArg where
  | nothing
  /-- Something that the host tells it. -/
  | value (v : Value)
  /-- The clause that is due. -/
  | item (i : TimedItem)

/-- What a part of a deferred handler does. -/
inductive Callback (η : Type) where
  /-- Renders a click's payload for what it does; errors in it fail. -/
  | payload (contents : String)
  /-- Goes to a passage. -/
  | goTo (title : String)
  /-- Renders the body of an interval behind what the wrapper holds. -/
  | repeatBody (wrapper : ElementId) (contents : String) (isTransition : Bool)
  /-- Renders the clause that is due behind what the wrapper holds. -/
  | timedBody (wrapper : ElementId) (isTransition : Bool)
  /-- Renders a text and begins to type it out. -/
  | typeBody (call : TypeCall)
  | host (procedure : η)

/-- A deferred handler: the context that it was made in, the values that the variables shadowed
there had when it was made or last ran, and its parts. Only the middle part, the callback, sees
those values. -/
structure ShadowHandler (η : Type) where
  context : Context η
  store : Overlay
  start : Option (Callback η) := none
  callback : Option (Callback η) := none
  done : Option (Callback η) := none

/-- What a timer does. -/
inductive TimerAction (η : Type) where
  /-- An interval of a moment invokes its handler. -/
  | repeatTick (handler : HandlerId) (moment : Moment)
  /-- The next clause of a chain is due. -/
  | timedStep (chain : Nat)
  /-- A transition ends: an element loses a class. -/
  | settle (element : ElementId) (className : String)
  /-- The first letter of a text is typed. -/
  | beginTyping (typing : Nat)
  /-- The next letter of a text is typed. -/
  | typeLetter (typing : Nat)
  | host (procedure : η)

/-- What a listener does. -/
inductive ListenerAction (η : Type) where
  /-- Cancels all intervals of the passage that is left. -/
  | clearRepeats
  /-- Cancels all chains of the passage that is left. -/
  | clearTimed
  /-- Drops all listeners that have to do with typing. -/
  | dropTyping
  /-- Starts the first text of the queue. -/
  | startTyping
  /-- Finishes the text being typed if the right key is pressed. -/
  | skipTyping (typing : Nat)
  /-- Starts the next text of the queue, or announces that there is none. -/
  | nextTyping
  | host (procedure : η)

/-- Where a click leads. -/
structure Clickable where
  element : ElementId
  handler : HandlerId
  /-- The element can be clicked only once. -/
  once : Bool
deriving Repr, DecidableEq

/-- How a loop was left. -/
inductive LoopBreak where
  | «continue»
  | «break»
deriving Repr, DecidableEq

/-- What one piece of work asks the engine to do as part of it. -/
inductive Task where
  /-- Render source text at the end of an output. -/
  | render (out : OutputId) (source : String)
  /-- Call the listeners of an event. -/
  | trigger (event : Event) (detail : String)
  /-- Go to a passage. -/
  | navigate (title : String)
  /-- Invoke a deferred handler. -/
  | invoke (handler : HandlerId) (arg : HandlerArg)
  /-- Start the first text of the typing queue. -/
  | startTyping
  /-- Let time pass, in milliseconds. -/
  | advance (ms : Nat)

end StoryEngine
