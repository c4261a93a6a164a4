import StoryEngine.Proofs.Variables.Cells
/-!
# StoryEngine.Proofs.Variables.Isolated

Calls that set and unset variables behind an overlay. They fall into two parts that do not know of
each other: those on the names of the overlay change its cells and nothing else, and those on all
other names change what they change without the overlay (`overlay_isolates`).
-/

namespace StoryEngine

/-- A call that changes one variable. -/
inductive VariableCall where
  | set (name : String) (value : Value)
  | unset (name : String)

namespace VariableCall

/-- The variable that the call is about. -/
def name : VariableCall → String
  | set name _ => name
  | unset name => name

/-- What a call answers. Unsetting tells whether there was a value. -/
abbrev Answer := Except InvalidVariable (Option Bool)

/-- The call on the variables as they are. One that fails changes nothing. -/
def run : VariableCall → State → Answer × State
  | set name value, s =>
    match s.set name value with
    | .ok t => (.ok none, t)
    | .error e => (.error e, s)
  | unset name, s =>
    match s.unset name with
    | .ok (had, t) => (.ok (some had), t)
    | .error e => (.error e, s)

/-- The call on the cell that an overlay has for its variable. -/
def runCell : VariableCall → Overlay → Answer × Overlay
  | set name value, overlay => (.ok none, Entries.put name (some value) overlay)
  | unset name, overlay =>
    (.ok (some (Entries.find? name overlay).join.isSome), Entries.put name none overlay)

/-- The overlay has a cell for the variable of the call. -/
def isOn (overlay : Overlay) (call : VariableCall) : Bool :=
  Entries.has call.name overlay

/-- All calls in order, each with its answer, and what is left in the end. -/
def runAll {α : Type} (run : VariableCall → α → Answer × α) :
    List VariableCall → α → List (VariableCall × Answer) × α
  | [], a => ([], a)
  | call :: rest, a =>
    ((call, (run call a).1) :: (runAll run rest (run call a).2).1, (runAll run rest (run call a).2).2)

theorem map_fst_runAll {α : Type} (run : VariableCall → α → Answer × α) (calls : List VariableCall)
    (a : α) : (runAll run calls a).1.map Prod.fst = calls := by
  induction calls generalizing a with
  | nil => rfl
  | cons call rest ih => rw [runAll, List.map_cons, ih]

variable {s : State} {overlay : Overlay} {call : VariableCall}

/-- A call on a name that is no variable fails and changes nothing. -/
theorem run_of_not_isVariable (h : isVariable call.name = false) :
    call.run s = (.error ⟨call.name⟩, s) := by
  cases call with
  | set name value =>
      have hset : s.set name value = .error ⟨name⟩ := State.set_of_not_isVariable h value
      rw [run, hset, VariableCall.name]
  | unset name =>
      have hunset : s.unset name = .error ⟨name⟩ := State.unset_of_not_isVariable h
      rw [run, hunset, VariableCall.name]

/-- A call on a variable of the overlay is one on its cell. -/
theorem run_push_of_isOn (h : call.isOn overlay = true) (hname : isVariable call.name = true)
    (s : State) :
    call.run (s.push overlay) = ((call.runCell overlay).1, s.push (call.runCell overlay).2) := by
  obtain ⟨cell, hcell⟩ := Option.isSome_iff_exists.1 h
  cases call with
  | set name value =>
      obtain ⟨t, ht⟩ : ∃ t, s.set name value = .ok t := State.exists_set_iff.2 hname
      have hpush := State.set_push_of_some (s := s) hcell value
      dsimp only [VariableCall.name] at hpush
      rw [run, hpush, ht]
      rfl
  | unset name =>
      obtain ⟨had, t, ht⟩ : ∃ had t, s.unset name = .ok (had, t) := State.exists_unset hname
      have hpush := State.unset_push_of_some (s := s) hcell
      dsimp only [VariableCall.name] at hpush hcell
      rw [run, hpush, ht, runCell, hcell]
      rfl

/-- Any other call is one behind the overlay. -/
theorem run_push_of_not_isOn (h : call.isOn overlay = false) (s : State) :
    call.run (s.push overlay) = ((call.run s).1, (call.run s).2.push overlay) := by
  have hcell : Entries.find? call.name overlay = none := by simpa [isOn, Entries.has] using h
  cases call with
  | set name value =>
      have hpush := State.set_push_of_none (s := s) hcell value
      dsimp only [VariableCall.name] at hpush
      rw [run, hpush, run]
      cases s.set name value <;> rfl
  | unset name =>
      have hpush := State.unset_push_of_none (s := s) hcell
      dsimp only [VariableCall.name] at hpush
      rw [run, hpush, run]
      cases s.unset name <;> rfl

/-- A call on a cell leaves the overlay with cells for the same names. -/
theorem names_runCell (h : call.isOn overlay = true) :
    Overlay.names (call.runCell overlay).2 = overlay.names := by
  cases call with
  | set name value => exact Overlay.names_put _ h
  | unset name => exact Overlay.names_put _ h

theorem isOn_congr {overlay' : Overlay} (h : Overlay.names overlay' = overlay.names) :
    isOn overlay' = isOn overlay := by
  funext call
  have hmem : call.name ∈ Overlay.names overlay' ↔ call.name ∈ overlay.names := by rw [h]
  exact Bool.eq_iff_iff.2 hmem

/-- Behind an overlay the calls on its names and all others go separate ways. -/
theorem runAll_push (s : State) {overlay : Overlay}
    (h : ∀ name ∈ overlay.names, isVariable name = true) (calls : List VariableCall) :
    let all := runAll run calls (s.push overlay)
    let own := runAll runCell (calls.filter (isOn overlay)) overlay
    let other := runAll run (calls.filter (!isOn overlay ·)) s
    all.2 = other.2.push own.2 ∧ Overlay.names own.2 = overlay.names ∧
      all.1.filter (isOn overlay ·.1) = own.1 ∧ all.1.filter (!isOn overlay ·.1) = other.1 := by
  induction calls generalizing s overlay with
  | nil => exact ⟨rfl, rfl, rfl, rfl⟩
  | cons call rest ih =>
      cases hon : isOn overlay call with
      | true =>
          have hnames := names_runCell hon
          obtain ⟨hleft, hkept, hown, hother⟩ := ih s (hnames ▸ h)
          rw [isOn_congr hnames] at hleft hkept hown hother
          simp only [runAll, run_push_of_isOn hon (h call.name hon) s, List.filter_cons, hon,
            if_true, Bool.not_true, Bool.false_eq_true, if_false]
          exact ⟨hleft, hkept.trans hnames, congrArg _ hown, hother⟩
      | false =>
          obtain ⟨hleft, hkept, hown, hother⟩ := ih (call.run s).2 h
          simp only [runAll, run_push_of_not_isOn hon s, List.filter_cons, hon, if_true,
            Bool.not_false, Bool.false_eq_true, if_false]
          exact ⟨hleft, hkept, hown, congrArg _ hother⟩

end VariableCall

open VariableCall

/-- Calls behind an overlay whose names are variables. What is taken away in the end is the overlay
with the calls on its own names made on its cells, and it has cells for the same names; what is left
is the state after all other calls, which do not see the overlay. Each call answers what it answers
there, and a call on a name that is no variable fails and changes nothing. -/
theorem overlay_isolates (s : State) {overlay : Overlay}
    (h : ∀ name ∈ overlay.names, isVariable name = true) (calls : List VariableCall) :
    let all := runAll run calls (s.push overlay)
    let own := runAll runCell (calls.filter (isOn overlay)) overlay
    let other := runAll run (calls.filter (!isOn overlay ·)) s
    all.2.pop = (some own.2, other.2) ∧ Overlay.names own.2 = overlay.names ∧
      all.1.map Prod.fst = calls ∧ all.1.filter (isOn overlay ·.1) = own.1 ∧
      all.1.filter (!isOn overlay ·.1) = other.1 ∧
      ∀ call : VariableCall, isVariable call.name = false →
        ∀ t, call.run t = (.error ⟨call.name⟩, t) := by
  intro all own other
  obtain ⟨hleft, hnames, hown, hother⟩ := runAll_push s h calls
  have hpop : all.2.pop = (some own.2, other.2) := by
    rw [show all.2 = other.2.push own.2 from hleft, State.pop_push]
  exact ⟨hpop, hnames, map_fst_runAll run calls _, hown, hother,
    fun call hcall t => run_of_not_isVariable hcall⟩

/-- An overlay with an empty cell: the variable is set there and not in the story, and unsetting it
empties the cell again, while another variable of the story is unset and a name that is none is not
set. -/
theorem overlay_isolates_of_empty_cell :
    let s : State := { story := [("$x", .bool true), ("$y", .bool true)] }
    let overlay : Overlay := [("$x", none)]
    (∀ name ∈ overlay.names, isVariable name = true) ∧
      (runAll run [.set "$x" .null, .unset "$x", .unset "$y", .set "x" .null] (s.push overlay)).2.pop =
        (some overlay, { s with story := [("$x", .bool true)] }) := by
  intro s overlay
  have hnames : ∀ name ∈ overlay.names, isVariable name = true := by
    intro name hname
    have hx : name = "$x" := by
      by_contra hne
      simp [overlay, Overlay.names, Entries.has, Entries.find?, hne] at hname
    rw [hx]
    decide
  refine ⟨hnames, (overlay_isolates s hnames _).1.trans ?_⟩
  rfl

end StoryEngine
