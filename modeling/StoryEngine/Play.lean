import StoryEngine.Engine.Perform
/-!
# StoryEngine.Play

Playing a story: making an engine, giving it passages, and what a player can do besides going to
a passage and letting time pass, which are tasks of their own.
-/

namespace StoryEngine

variable {η σ : Type}

namespace Engine

/-- An engine with the macros of a registry. -/
def ofRegistry (config : Config) (registry : Registry (Handler η)) (host : σ) : Engine η σ :=
  let (display, tree) := ({} : Tree).newOutput
  { config := config, registry := registry, tree := tree, display := display, host := host }

/-- An engine with the built-in macros. -/
def ofConfig (config : Config) (host : σ) : Engine η σ :=
  ofRegistry config (Registry.ofBuiltins .builtin) host

/-- Add a passage. It takes the place of another one with the same title. -/
def addPassage (e : Engine η σ) (title source : String) : Engine η σ :=
  { e with passages := Entries.put title source e.passages }

/-- There is a passage with the title. -/
def hasPassage (e : Engine η σ) (title : String) : Bool :=
  Entries.has title e.passages

/-- Take the failures that nobody has handled. -/
def takeErrors (e : Engine η σ) : List Failure × Engine η σ :=
  (e.errors, { e with errors := [] })

end Engine

/-- Press a key. -/
def pressKey (perform : Perform η σ) (key : String) : Run η σ Unit :=
  perform (.trigger .keydown key)

/-- The first of the clickables that belongs to an element, and the others. -/
def takeClickable? (element : ElementId) : List Clickable → Option (Clickable × List Clickable)
  | [] => none
  | c :: rest =>
    if c.element = element then some (c, rest)
    else (takeClickable? element rest).map fun (found, others) => (found, c :: others)

/-- Click an element, and tell whether it can be clicked. One that can be clicked only once
cannot be from then on. -/
def click (perform : Perform η σ) (element : ElementId) : Run η σ Bool := do
  match takeClickable? element (← get).clickables with
  | none => return false
  | some (c, others) => do
    if c.once then modify fun e => { e with clickables := others }
    perform (.invoke c.handler .nothing)
    return true

end StoryEngine
