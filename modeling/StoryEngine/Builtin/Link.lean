import StoryEngine.Engine.Shadow
/-!
# StoryEngine.Builtin.Link

The macros that make an element to be clicked. A click renders the contents for what they do and
then goes to a passage, if the element leads to one and the contents had no errors. An element
that leads to a passage can be clicked only once.
-/

namespace StoryEngine.Builtin

variable {η σ : Type}

/-- The member of an object is true. -/
def isFlagged (value : Value) (name : String) : Bool :=
  match value.member? name with
  | some (.bool b) => b
  | _ => false

/-- The text that is a member of an object. -/
def textMember? (value : Value) (name : String) : Option String :=
  match value.member? name with
  | some (.string s) => some s
  | _ => none

/-- Fill the element with an image. -/
def showImage (element : ElementId) (first : Value) : Run η σ Unit := do
  let image ← Run.withTree fun t => t.appendElement (t.content element) "img"
  if let some source := textMember? first "source" then
    Run.changeTree fun t => t.setAttr image "src" source
  Run.changeTree fun t => t.addClass element "link-image"

/-- Fill the element from the first argument, and tell which passage it leads to. -/
def fillLink (perform : Perform η σ) (call : MacroCall η) (element : ElementId) (first : Value) :
    Run η σ (Option String) := do
  let content ← Run.fromTree fun t => t.content element
  if isFlagged first "isImage" then
    showImage element first
    return textMember? first "link"
  else if isFlagged first "isLink" then
    Run.changeTree fun t => t.pushText content ((textMember? first "text").getD "")
    if isFlagged first "external" then
      Run.changeTree fun t =>
        (t.addClass element "link-external").setAttr element "href"
          ((textMember? first "link").getD "")
      return none
    else return textMember? first "link"
  else
    perform (.render content first.display)
    return call.args.text? 1

/-- Label the element by where it leads. -/
def labelLink (element : ElementId) (passage : Option String) : Run η σ Unit := do
  match passage with
  | some title => do
    let isThere := Entries.has title (← get).passages
    Run.changeTree fun t =>
      (t.setAttr element "data-passage" title).addClass element
        (if isThere then "link-internal" else "link-broken")
  | none =>
    Run.changeTree fun t =>
      if t.hasClass element "link-external" then t else t.addClass element "link-internal"

/-- Let clicks of an element render the contents and go to the passage, where there are such. -/
def makeClickable (context : Context η) (element : ElementId) (contents : String)
    (passage : Option String) : Run η σ Unit := do
  let handler ← ShadowHandler.make context none
    (if contents.isEmpty then none else some (.payload contents)) (passage.map .goTo)
  modify fun e => { e with clickables := e.clickables ++ [⟨element, handler, passage.isSome⟩] }

/-- Make an element that can be clicked. -/
def runLink (perform : Perform η σ) (context : Context η) : Run η σ Unit := do
  let call := context.call
  let isButton := call.name == "button"
  match call.args.values with
  | [] => call.error ("no " ++ (if isButton then "button" else "link") ++ " text specified")
  | first :: _ =>
    let element ← Run.withTree fun t => t.newElement (if isButton then "button" else "a")
    let passage ← fillLink perform call element first
    labelLink element passage
    Run.changeTree fun t => t.addClass element ("macro-" ++ call.name)
    makeClickable context element (trimText call.contents) passage
    let out ← call.target
    Run.changeTree fun t => t.append out (.element element)

/-- Render a click's payload for what it does. The errors in it are its failure. -/
def runPayload (perform : Perform η σ) (contents : String) : Run η σ Unit := do
  let scratch ← Run.withTree fun t => t.newOutput
  perform (.render scratch contents)
  let errors ← Run.fromTree fun t => t.errors scratch
  unless errors.isEmpty do Run.failWith (String.intercalate "; " errors)

end StoryEngine.Builtin
