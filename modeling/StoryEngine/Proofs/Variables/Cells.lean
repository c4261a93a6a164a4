import StoryEngine.Engine.Failure
import StoryEngine.Proofs.Variables.Reassigned
/-!
# StoryEngine.Proofs.Variables.Cells

Variables with private cells. A script reads, sets and unsets variables in any order, each step
depending on what the steps before it gave, and succeeds or fails in the end. Run with an overlay
in front of the variables (`Script.run`), it does what it does when the names of the overlay are
cells of its own and all others are those of the story (`Script.runWith`), and it leaves the
cells in the overlay (`Script.run_push`).
-/

namespace StoryEngine

/-! ### Variables behind an overlay -/

namespace State

variable {s : State} {overlay : Overlay} {name : String}

/-- The name belongs to the overlay. -/
theorem cell?_push_of_some {cell : Option Value} (h : Entries.find? name overlay = some cell) :
    cell? name (s.push overlay).overlays = some cell := by
  show cell? name (overlay :: s.overlays) = some cell
  rw [cell?, h]

/-- The name does not belong to the overlay. -/
theorem cell?_push_of_none (h : Entries.find? name overlay = none) :
    cell? name (s.push overlay).overlays = cell? name s.overlays := by
  show cell? name (overlay :: s.overlays) = _
  rw [cell?, h]

theorem get?_push_of_some {cell : Option Value} (h : Entries.find? name overlay = some cell) :
    (s.push overlay).get? name = cell := by
  rw [get?, cell?_push_of_some h]

theorem get?_push_of_none (h : Entries.find? name overlay = none) :
    (s.push overlay).get? name = s.get? name := by
  rw [get?, get?, cell?_push_of_none h]
  rfl

theorem putCell_push_of_some {cell : Option Value} (h : Entries.find? name overlay = some cell)
    (new : Option Value) :
    putCell name new (s.push overlay).overlays = Entries.put name new overlay :: s.overlays := by
  have hhas : Entries.has name overlay = true := by
    rw [Entries.has, h]
    rfl
  show putCell name new (overlay :: s.overlays) = _
  rw [putCell, if_pos hhas]

theorem putCell_push_of_none (h : Entries.find? name overlay = none) (new : Option Value) :
    putCell name new (s.push overlay).overlays = overlay :: putCell name new s.overlays := by
  have hhas : ¬ Entries.has name overlay = true := by
    rw [Entries.has, h]
    exact Bool.false_ne_true
  show putCell name new (overlay :: s.overlays) = _
  rw [putCell, if_neg hhas]

theorem modifyStore_push (change : Entries Value → Entries Value) :
    (s.push overlay).modifyStore name change = (s.modifyStore name change).push overlay := by
  unfold modifyStore
  split <;> rfl

/-- A name that belongs to the overlay is set there, if it is a variable at all. -/
theorem set_push_of_some {cell : Option Value} (h : Entries.find? name overlay = some cell)
    (value : Value) :
    (s.push overlay).set name value =
      (s.set name value).map fun _ => s.push (Entries.put name (some value) overlay) := by
  unfold set
  by_cases hname : (!isVariable name) = true
  · rw [if_pos hname, if_pos hname]
    rfl
  · have hcell : (cell? name (s.push overlay).overlays).isSome = true := by
      rw [cell?_push_of_some h]
      rfl
    rw [if_neg hname, if_neg hname, if_pos hcell, putCell_push_of_some h]
    split <;> rfl

/-- Any other name is set as it is without the overlay. -/
theorem set_push_of_none (h : Entries.find? name overlay = none) (value : Value) :
    (s.push overlay).set name value = (s.set name value).map fun t => t.push overlay := by
  unfold set
  by_cases hname : (!isVariable name) = true
  · rw [if_pos hname, if_pos hname]
    rfl
  · rw [if_neg hname, if_neg hname, cell?_push_of_none h]
    by_cases hcell : (cell? name s.overlays).isSome = true
    · rw [if_pos hcell, if_pos hcell, putCell_push_of_none h]
      rfl
    · rw [if_neg hcell, if_neg hcell, modifyStore_push]
      rfl

/-- A name that belongs to the overlay is unset there, if it is a variable at all. -/
theorem unset_push_of_some {cell : Option Value} (h : Entries.find? name overlay = some cell) :
    (s.push overlay).unset name =
      (s.unset name).map fun _ => (cell.isSome, s.push (Entries.put name none overlay)) := by
  unfold unset
  by_cases hname : (!isVariable name) = true
  · rw [if_pos hname, if_pos hname]
    rfl
  · rw [if_neg hname, if_neg hname, cell?_push_of_some h, putCell_push_of_some h]
    dsimp only
    split <;> rfl

/-- Any other name is unset as it is without the overlay. -/
theorem unset_push_of_none (h : Entries.find? name overlay = none) :
    (s.push overlay).unset name =
      (s.unset name).map fun (had, t) => (had, t.push overlay) := by
  unfold unset
  by_cases hname : (!isVariable name) = true
  · rw [if_pos hname, if_pos hname]
    rfl
  · rw [if_neg hname, if_neg hname, cell?_push_of_none h]
    cases cell? name s.overlays with
    | some cell =>
      dsimp only
      rw [putCell_push_of_none h]
      rfl
    | none =>
      dsimp only
      rw [modifyStore_push]
      rfl

end State

/-! ### Names that are no variables -/

namespace State

variable {s : State} {name : String}

theorem set_of_not_isVariable (h : isVariable name = false) (value : Value) :
    s.set name value = .error ⟨name⟩ := by
  rw [set, h]
  rfl

theorem unset_of_not_isVariable (h : isVariable name = false) :
    s.unset name = .error ⟨name⟩ := by
  rw [unset, h]
  rfl

/-- All variables can be set, and nothing else. -/
theorem exists_set_iff {value : Value} :
    (∃ t, s.set name value = .ok t) ↔ isVariable name = true := by
  cases h : isVariable name with
  | false => simp [set_of_not_isVariable h]
  | true =>
      unfold set
      simp only [h, Bool.not_true, Bool.false_eq_true, if_false, iff_true]
      split
      · exact ⟨_, rfl⟩
      · exact ⟨_, rfl⟩

theorem exists_unset (h : isVariable name = true) : ∃ had t, s.unset name = .ok (had, t) := by
  unfold unset
  simp only [h, Bool.not_true, Bool.false_eq_true, if_false]
  split
  · exact ⟨_, _, rfl⟩
  · exact ⟨_, _, rfl⟩

end State

/-! ### Variables that no overlay has a cell for -/

namespace State

variable {s t : State} {name : String}

theorem cell?_eq_none (h : ∀ names ∈ s.shape, name ∉ names) : cell? name s.overlays = none := by
  unfold shape at h
  generalize s.overlays = overlays at h
  induction overlays with
  | nil => rfl
  | cons overlay outer ih =>
      have hnot : ¬ (Entries.find? name overlay).isSome = true :=
        h overlay.names (List.mem_map_of_mem List.mem_cons_self)
      rw [cell?, Option.not_isSome_iff_eq_none.mp hnot]
      exact ih fun names hnames => h names (List.mem_cons_of_mem _ hnames)

/-- Such a variable is read from its store. -/
theorem get?_of_unshadowed (h : ∀ names ∈ s.shape, name ∉ names) : s.get? name = s.stored? name := by
  rw [get?, cell?_eq_none h]

/-- It is set in its store. -/
theorem set_of_unshadowed (h : ∀ names ∈ s.shape, name ∉ names) {value : Value}
    (ht : s.set name value = .ok t) : t = s.modifyStore name (Entries.put name value) := by
  unfold set at ht
  rw [cell?_eq_none h] at ht
  split at ht
  · cases ht
  · exact (Except.ok.inj ht).symm

/-- It is removed from its store. -/
theorem unset_of_unshadowed (h : ∀ names ∈ s.shape, name ∉ names) {had : Bool}
    (ht : s.unset name = .ok (had, t)) : t = s.modifyStore name (Entries.remove name) := by
  unfold unset at ht
  rw [cell?_eq_none h] at ht
  split at ht
  · cases ht
  · cases ht
    rfl

end State

/-! ### Other variables -/

namespace State

variable {s t : State} {name other : String}

/-- The stores hold the same for a variable other than the one that is changed. -/
theorem stored?_modifyStore_of_ne {change : Entries Value → Entries Value}
    (hchange : ∀ entries, Entries.find? other (change entries) = Entries.find? other entries) :
    (s.modifyStore name change).stored? other = s.stored? other := by
  unfold modifyStore stored?
  by_cases hname : isStoryVariable name = true
  · by_cases hother : isStoryVariable other = true <;> simp [hname, hother, hchange]
  · by_cases hother : isStoryVariable other = true <;> simp [hname, hother, hchange]

theorem get?_modifyStore_of_ne {change : Entries Value → Entries Value}
    (hchange : ∀ entries, Entries.find? other (change entries) = Entries.find? other entries) :
    (s.modifyStore name change).get? other = s.get? other := by
  have hoverlays : (s.modifyStore name change).overlays = s.overlays := by
    unfold modifyStore
    split <;> rfl
  rw [get?, get?, hoverlays, stored?_modifyStore_of_ne hchange]

theorem get?_putCell_of_ne (h : other ≠ name) (cell : Option Value) :
    get? { s with overlays := putCell name cell s.overlays } other = s.get? other := by
  rw [get?, get?, cell?_putCell_of_ne h]
  rfl

/-- Setting a variable changes no other one. -/
theorem get?_of_set_of_ne {value : Value} (h : s.set name value = .ok t) (hne : other ≠ name) :
    t.get? other = s.get? other := by
  unfold set at h
  split at h
  · cases h
  · split at h
    · cases h
      exact get?_putCell_of_ne hne _
    · cases h
      exact get?_modifyStore_of_ne fun entries => Entries.find?_put_of_ne hne value entries

/-- Unsetting a variable changes no other one. -/
theorem get?_of_unset_of_ne {had : Bool} (h : s.unset name = .ok (had, t)) (hne : other ≠ name) :
    t.get? other = s.get? other := by
  unfold unset at h
  split at h
  · cases h
  · split at h
    · cases h
      exact get?_putCell_of_ne hne _
    · cases h
      exact get?_modifyStore_of_ne fun entries => Entries.find?_remove_of_ne hne entries

end State

/-! ### Scripts -/

/-- A program on variables. -/
inductive Script where
  /-- It succeeds or fails. -/
  | finish (outcome : Except Failure Unit)
  /-- It reads a variable. -/
  | get (name : String) (next : Option Value → Script)
  /-- It sets a variable, unless the name is no variable. -/
  | set (name : String) (value : Value) (next : Except InvalidVariable Unit → Script)
  /-- It unsets a variable, unless the name is no variable, and is told whether there was one. -/
  | unset (name : String) (next : Except InvalidVariable Bool → Script)

namespace Script

/-- Run the script on the variables as they are. -/
def run : Script → State → Except Failure Unit × State
  | finish outcome, s => (outcome, s)
  | get name next, s => (next (s.get? name)).run s
  | set name value next, s =>
    match s.set name value with
    | .ok t => (next (.ok ())).run t
    | .error e => (next (.error e)).run s
  | unset name next, s =>
    match s.unset name with
    | .ok (had, t) => (next (.ok had)).run t
    | .error e => (next (.error e)).run s

end Script

/-- Cells of their own for some names. A cell can be empty. -/
abbrev Cells := String → Option (Option Value)

/-- The cells of an overlay. -/
def Overlay.cells (overlay : Overlay) : Cells :=
  fun name => Entries.find? name overlay

/-- The cells with one filled or emptied. -/
def Cells.put (cells : Cells) (name : String) (cell : Option Value) : Cells :=
  fun other => if other = name then some cell else cells other

namespace Script

/-- Run the script with cells of its own: a name that has a cell never touches the variables of the
story, and any other name is a variable of the story. -/
def runWith : Script → Cells → State → Except Failure Unit × Cells × State
  | finish outcome, cells, s => (outcome, cells, s)
  | get name next, cells, s =>
    match cells name with
    | some cell => (next cell).runWith cells s
    | none => (next (s.get? name)).runWith cells s
  | set name value next, cells, s =>
    match s.set name value, cells name with
    | .error e, _ => (next (.error e)).runWith cells s
    | .ok _, some _ => (next (.ok ())).runWith (cells.put name (some value)) s
    | .ok t, none => (next (.ok ())).runWith cells t
  | unset name next, cells, s =>
    match s.unset name, cells name with
    | .error e, _ => (next (.error e)).runWith cells s
    | .ok _, some cell => (next (.ok cell.isSome)).runWith (cells.put name none) s
    | .ok (had, t), none => (next (.ok had)).runWith cells t

end Script

theorem Overlay.cells_put (overlay : Overlay) (name : String) (cell : Option Value) :
    Overlay.cells (Entries.put name cell overlay) = Cells.put overlay.cells name cell := by
  funext other
  by_cases h : other = name
  · subst h
    simp [Overlay.cells, Cells.put]
  · simp [Overlay.cells, Cells.put, h, Entries.find?_put_of_ne h]

/-- Run with an overlay in front of the variables, a script has the cells of the overlay for its
own, and leaves them in the overlay. -/
theorem Script.run_push (script : Script) (s : State) (overlay : Overlay) :
    ∃ left : Overlay,
      left.cells = (script.runWith overlay.cells s).2.1 ∧
      script.run (s.push overlay) =
        ((script.runWith overlay.cells s).1, (script.runWith overlay.cells s).2.2.push left) := by
  induction script generalizing s overlay with
  | finish outcome => exact ⟨overlay, rfl, rfl⟩
  | get name next ih =>
    cases hcell : Entries.find? name overlay with
    | some cell =>
      have hcells : overlay.cells name = some cell := hcell
      rw [run, runWith, hcells, State.get?_push_of_some hcell]
      exact ih cell s overlay
    | none =>
      have hcells : overlay.cells name = none := hcell
      rw [run, runWith, hcells, State.get?_push_of_none hcell]
      exact ih (s.get? name) s overlay
  | set name value next ih =>
    cases hcell : Entries.find? name overlay with
    | some cell =>
      have hcells : overlay.cells name = some cell := hcell
      rw [run, runWith, hcells, State.set_push_of_some hcell]
      cases s.set name value with
      | error e => exact ih (.error e) s overlay
      | ok t =>
        have := ih (.ok ()) s (Entries.put name (some value) overlay)
        rwa [Overlay.cells_put] at this
    | none =>
      have hcells : overlay.cells name = none := hcell
      rw [run, runWith, hcells, State.set_push_of_none hcell]
      cases s.set name value with
      | error e => exact ih (.error e) s overlay
      | ok t => exact ih (.ok ()) t overlay
  | unset name next ih =>
    cases hcell : Entries.find? name overlay with
    | some cell =>
      have hcells : overlay.cells name = some cell := hcell
      rw [run, runWith, hcells, State.unset_push_of_some hcell]
      cases s.unset name with
      | error e => exact ih (.error e) s overlay
      | ok result =>
        have := ih (.ok cell.isSome) s (Entries.put name none overlay)
        rwa [Overlay.cells_put] at this
    | none =>
      have hcells : overlay.cells name = none := hcell
      rw [run, runWith, hcells, State.unset_push_of_none hcell]
      cases s.unset name with
      | error e => exact ih (.error e) s overlay
      | ok result => exact ih (.ok result.1) result.2 overlay

/-! ### What cells keep apart -/

/-- How cells and the variables of the story go on from others: the same names have cells, the
variables of the story with these names are as they were, and the overlays in front of them have
cells for the names they had. -/
structure Cells.Apart (cells : Cells) (s : State) (cells' : Cells) (s' : State) : Prop where
  names : ∀ name, (cells' name).isSome = (cells name).isSome
  live : ∀ name, (cells name).isSome = true → s'.get? name = s.get? name
  reassigned : s.Reassigned s'

namespace Cells.Apart

variable {cells cells₁ cells' : Cells} {s s₁ s' : State}

theorem refl (cells : Cells) (s : State) : cells.Apart s cells s :=
  ⟨fun _ => rfl, fun _ _ => rfl, .refl s⟩

theorem trans (h : cells.Apart s cells₁ s₁) (h₁ : cells₁.Apart s₁ cells' s') :
    cells.Apart s cells' s' where
  names name := (h₁.names name).trans (h.names name)
  live name hname := (h₁.live name ((h.names name).trans hname)).trans (h.live name hname)
  reassigned := h.reassigned.trans h₁.reassigned

theorem put {name : String} {cell : Option Value} (hcell : cells name = some cell)
    (new : Option Value) (s : State) : cells.Apart s (cells.put name new) s where
  names other := by
    by_cases h : other = name
    · subst h
      simp [Cells.put, hcell]
    · simp [Cells.put, h]
  live _ _ := rfl
  reassigned := .refl s

theorem ofLive {name : String} (hcell : cells name = none) (hs : s.Reassigned s')
    (hother : ∀ other, other ≠ name → s'.get? other = s.get? other) : cells.Apart s cells s' where
  names _ := rfl
  live other hsome := by
    apply hother
    rintro rfl
    rw [hcell] at hsome
    cases hsome
  reassigned := hs

end Cells.Apart

/-- Whatever a script does, it does to its cells and to variables of the story that have none. -/
theorem Script.apart_runWith (script : Script) (cells : Cells) (s : State) :
    cells.Apart s (script.runWith cells s).2.1 (script.runWith cells s).2.2 := by
  induction script generalizing cells s with
  | finish outcome => exact .refl cells s
  | get name next ih =>
    rw [runWith]
    cases cells name with
    | some cell => exact ih cell cells s
    | none => exact ih (s.get? name) cells s
  | set name value next ih =>
    rw [runWith]
    cases hset : s.set name value with
    | error e => exact ih (.error e) cells s
    | ok t =>
      cases hcell : cells name with
      | some cell => exact (Cells.Apart.put hcell (some value) s).trans (ih (.ok ()) _ s)
      | none =>
        have hlive : cells.Apart s cells t :=
          .ofLive hcell (State.reassigned_of_set hset) fun _ => State.get?_of_set_of_ne hset
        exact hlive.trans (ih (.ok ()) cells t)
  | unset name next ih =>
    rw [runWith]
    cases hunset : s.unset name with
    | error e => exact ih (.error e) cells s
    | ok result =>
      obtain ⟨had, t⟩ := result
      cases hcell : cells name with
      | some cell => exact (Cells.Apart.put hcell none s).trans (ih (.ok cell.isSome) _ s)
      | none =>
        have hlive : cells.Apart s cells t :=
          .ofLive hcell (State.reassigned_of_unset hunset) fun _ =>
            State.get?_of_unset_of_ne hunset
        exact hlive.trans (ih (.ok had) cells t)

/-- A script gives the variables other values and does nothing else. -/
theorem Script.reassigned_run (script : Script) (s : State) : s.Reassigned (script.run s).2 := by
  induction script generalizing s with
  | finish outcome => exact .refl s
  | get name next ih => exact ih (s.get? name) s
  | set name value next ih =>
    rw [run]
    cases hset : s.set name value with
    | error e => exact ih (.error e) s
    | ok t => exact (State.reassigned_of_set hset).trans (ih (.ok ()) t)
  | unset name next ih =>
    rw [run]
    cases hunset : s.unset name with
    | error e => exact ih (.error e) s
    | ok result => exact (State.reassigned_of_unset hunset).trans (ih (.ok result.1) result.2)

end StoryEngine
