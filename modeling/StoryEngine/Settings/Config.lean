import StoryEngine.Settings.Notation
/-!
# StoryEngine.Settings.Config

The settings of an engine. Settings are read from JSON: either an object, whose members are
looked up by name and may be missing, or an array with the values in order, of which the last may
be missing. A missing setting has its default.
-/

namespace StoryEngine

/-- The settings of an engine. -/
structure Config where
  /-- Wrap the output of macros in debug views. -/
  debug : Bool := false
  /-- How often the body of a loop is rendered at most. -/
  maxLoopIterations : Nat := 1000
  /-- Type text out letter by letter also in passages seen before. -/
  typeVisitedPassages : Bool := true
  /-- The key that finishes the text being typed. -/
  typeSkipKey : String := " "
  /-- The least delay of timers that macros set, in milliseconds. -/
  domDelayMs : Nat := 40
  /-- How deep renders may nest. -/
  maxRenderDepth : Nat := 100
deriving Repr, DecidableEq

namespace Config

/-- A boolean setting. -/
def flag? : Datum → Option Bool
  | .bool b => some b
  | _ => none

/-- A setting that counts something: an integer that fits into 64 bits. -/
def count? : Datum → Option Nat
  | .integer n => if 0 ≤ n && n < UInt64.size then some n.toNat else none
  | _ => none

/-- A text setting. -/
def text? : Datum → Option String
  | .string s => s
  | _ => none

/-- The names of the settings, in the order of their values in an array. -/
def names : List String :=
  ["debug", "maxLoopIterations", "typeVisitedPassages", "typeSkipKey", "domDelayMs",
    "maxRenderDepth"]

/-- The settings with the named one changed. Names of no setting change nothing. -/
def change? (config : Config) (name : String) (value : Datum) : Option Config :=
  if name == "debug" then (flag? value).map fun b => { config with debug := b }
  else if name == "maxLoopIterations" then
    (count? value).map fun n => { config with maxLoopIterations := n }
  else if name == "typeVisitedPassages" then
    (flag? value).map fun b => { config with typeVisitedPassages := b }
  else if name == "typeSkipKey" then (text? value).map fun s => { config with typeSkipKey := s }
  else if name == "domDelayMs" then (count? value).map fun n => { config with domDelayMs := n }
  else if name == "maxRenderDepth" then
    (count? value).map fun n => { config with maxRenderDepth := n }
  else some config

/-- The settings with each of the named ones changed, none of them twice. -/
def changeAll? : List (String × Datum) → List String → Config → Option Config
  | [], _, config => some config
  | (name, value) :: rest, seen, config =>
    if names.contains name && seen.contains name then none
    else (config.change? name value).bind (changeAll? rest (name :: seen))

/-- The settings that a JSON text gives. -/
def ofText? (text : String) : Option Config :=
  match Datum.ofText? text with
  | some (.object members) => changeAll? members [] {}
  | some (.array values) =>
    if names.length < values.length then none else changeAll? (names.zip values) [] {}
  | _ => none

end Config

end StoryEngine
