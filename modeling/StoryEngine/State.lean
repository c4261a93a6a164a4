import StoryEngine.Name
import StoryEngine.Value.Basic
/-!
# StoryEngine.State

The variables of a story and the player's way through it. Story variables (`$gold`) last; temporary
variables (`_i`) are cleared whenever the player moves on. Overlays stand in front of both stores:
a variable that is among the cells of an overlay is read from and written to the innermost such
cell, and a cell can be empty, which means that the variable does not exist there.
-/

namespace StoryEngine

/-- Cells in front of the stores, by variable. An empty cell hides the variable. -/
abbrev Overlay := Entries (Option Value)

/-- The name is no variable. -/
structure InvalidVariable where
  name : String
deriving Repr, DecidableEq

/-- The wording of the error. -/
def InvalidVariable.message (e : InvalidVariable) : String :=
  "invalid variable name \"" ++ e.name ++ "\""

/-- Variables, overlays and the way through the story. -/
structure State where
  /-- The story variables, by full name. -/
  story : Entries Value := []
  /-- The temporary variables, by full name. -/
  temporary : Entries Value := []
  /-- The overlays in force, innermost first. -/
  overlays : List Overlay := []
  /-- The title of the current passage. -/
  passage : String := ""
  /-- How often the player has moved. -/
  turns : Nat := 0
  /-- The titles of the visited passages, the current one last. -/
  history : List String := []

namespace State

/-- The variable belongs to the story store and not to the temporary one. -/
def isStoryVariable (name : String) : Bool :=
  name.toList.head? == some '$'

/-- The cell of the name in the innermost overlay that has one. -/
def cell? (name : String) : List Overlay → Option (Option Value)
  | [] => none
  | overlay :: outer =>
    match Entries.find? name overlay with
    | some cell => some cell
    | none => cell? name outer

/-- The overlays with the innermost cell of the name filled or emptied. -/
def putCell (name : String) (cell : Option Value) : List Overlay → List Overlay
  | [] => []
  | overlay :: outer =>
    if Entries.has name overlay then Entries.put name cell overlay :: outer
    else overlay :: putCell name cell outer

/-- The value that the store holds for the variable, overlays aside. -/
def stored? (s : State) (name : String) : Option Value :=
  if isVariable name then
    Entries.find? name (if isStoryVariable name then s.story else s.temporary)
  else none

/-- The value of the variable. -/
def get? (s : State) (name : String) : Option Value :=
  match cell? name s.overlays with
  | some cell => cell
  | none => s.stored? name

/-- The variable has a value. -/
def has (s : State) (name : String) : Bool :=
  (s.get? name).isSome

/-- The value of the variable, null if it has none. -/
def value (s : State) (name : String) : Value :=
  (s.get? name).getD .null

/-- Change the store that the variable belongs to. -/
def modifyStore (s : State) (name : String) (change : Entries Value → Entries Value) : State :=
  if isStoryVariable name then { s with story := change s.story }
  else { s with temporary := change s.temporary }

/-- Give the variable a value, in its innermost cell or else in its store. -/
def set (s : State) (name : String) (value : Value) : Except InvalidVariable State :=
  if !isVariable name then .error ⟨name⟩
  else if (cell? name s.overlays).isSome then
    .ok { s with overlays := putCell name (some value) s.overlays }
  else .ok (s.modifyStore name (Entries.put name value))

/-- Remove the variable, from its innermost cell or else from its store, and tell whether it had
a value there. -/
def unset (s : State) (name : String) : Except InvalidVariable (Bool × State) :=
  if !isVariable name then .error ⟨name⟩
  else
    match cell? name s.overlays with
    | some cell => .ok (cell.isSome, { s with overlays := putCell name none s.overlays })
    | none => .ok ((s.stored? name).isSome, s.modifyStore name (Entries.remove name))

/-- Put an overlay in front. -/
def push (s : State) (overlay : Overlay) : State :=
  { s with overlays := overlay :: s.overlays }

/-- Take the innermost overlay away, with what its cells hold by now. -/
def pop (s : State) : Option Overlay × State :=
  match s.overlays with
  | [] => (none, s)
  | overlay :: outer => (some overlay, { s with overlays := outer })

/-- The passage was visited before the current visit. -/
def visitedBefore (s : State) (title : String) : Bool :=
  s.history.dropLast.contains title

/-- The passage was visited. -/
def hasPlayed (s : State) (title : String) : Bool :=
  s.history.contains title

/-- Move on to a passage: a new turn with no temporary variables. -/
def advance (s : State) (title : String) : State :=
  { s with
    passage := title
    turns := s.turns + 1
    history := s.history ++ [title]
    temporary := [] }

/-! ### Reading what was written -/

/-- What was put into a cell is in it. -/
theorem cell?_putCell_self {name : String} (cell : Option Value) {overlays : List Overlay}
    (h : (cell? name overlays).isSome) : cell? name (putCell name cell overlays) = some cell := by
  induction overlays with
  | nil => simp [cell?] at h
  | cons overlay outer ih =>
    cases hf : Entries.find? name overlay with
    | some old => simp [putCell, cell?, Entries.has, hf]
    | none =>
      simp only [cell?, hf] at h
      simp [putCell, cell?, Entries.has, hf, ih h]

/-- The cells of other names stay as they are. -/
theorem cell?_putCell_of_ne {name other : String} (h : other ≠ name) (cell : Option Value)
    (overlays : List Overlay) : cell? other (putCell name cell overlays) = cell? other overlays := by
  induction overlays with
  | nil => rfl
  | cons overlay outer ih =>
    simp only [putCell]
    split
    · simp [cell?, Entries.find?_put_of_ne h]
    · simp [cell?, ih]

@[simp]
theorem length_putCell (name : String) (cell : Option Value) (overlays : List Overlay) :
    (putCell name cell overlays).length = overlays.length := by
  induction overlays with
  | nil => rfl
  | cons overlay outer ih =>
    simp only [putCell]
    split <;> simp [ih]

@[simp]
theorem pop_push (s : State) (overlay : Overlay) : (s.push overlay).pop = (some overlay, s) := rfl

/-- A variable has the value that it was given, wherever that value went. -/
theorem get?_of_set {s t : State} {name : String} {value : Value} (h : s.set name value = .ok t) :
    t.get? name = some value := by
  unfold set at h
  split at h
  · cases h
  · rename_i hv
    have hv : isVariable name = true := by simpa using hv
    split at h
    · rename_i hc
      cases h
      simp [get?, cell?_putCell_self _ hc]
    · rename_i hc
      have hc : cell? name s.overlays = none := by simpa using hc
      cases h
      by_cases hs : isStoryVariable name = true <;>
        simp [get?, modifyStore, stored?, hc, hv, hs]

end State

end StoryEngine
