import Mathlib.Data.Set.Basic
import StoryEngine.Argument.List
import StoryEngine.Proofs.Expr.Targets
/-!
# StoryEngine.Proofs.Variables.Reassigned

Working on variables gives them other values and changes nothing else: whatever an expression, an
assignment or a list of arguments does, the player stays where they are, and the overlays in force
stay in force, each with cells for the same names (`State.Reassigned`).

The relation says nothing about values. What is set goes to the innermost cell or to a store, and
in both cases no overlay gains or loses a cell.
-/

namespace StoryEngine

/-! ### The shape of overlays -/

/-- The names that an overlay has cells for. -/
def Overlay.names (overlay : Overlay) : Set String :=
  {name | Entries.has name overlay = true}

/-- The names that the overlays in force have cells for, innermost first. -/
def State.shape (s : State) : List (Set String) :=
  s.overlays.map Overlay.names

/-- Filling a cell that an overlay has gives it no other cells. -/
theorem Overlay.names_put {name : String} (cell : Option Value) {overlay : Overlay}
    (h : Entries.has name overlay = true) :
    Overlay.names (Entries.put name cell overlay) = Overlay.names overlay := by
  ext other
  show Entries.has other (Entries.put name cell overlay) = true ↔ Entries.has other overlay = true
  by_cases hn : other = name
  · subst hn
    simp [h]
  · rw [Entries.has_put_of_ne hn]

/-- Filling the innermost cell of a name leaves every overlay the cells that it has. -/
theorem State.names_putCell (name : String) (cell : Option Value) (overlays : List Overlay) :
    (State.putCell name cell overlays).map Overlay.names = overlays.map Overlay.names := by
  induction overlays with
  | nil => rfl
  | cons overlay outer ih =>
      simp only [State.putCell]
      split
      · rename_i h
        rw [List.map_cons, List.map_cons, Overlay.names_put cell h]
      · rw [List.map_cons, List.map_cons, ih]

theorem State.length_shape (s : State) : s.shape.length = s.overlays.length :=
  List.length_map _

/-! ### Reassignment -/

/-- The second state is the first with other values in its variables. -/
structure State.Reassigned (s t : State) : Prop where
  shape : t.shape = s.shape
  passage : t.passage = s.passage
  turns : t.turns = s.turns
  history : t.history = s.history

namespace State.Reassigned

variable {s t u : State}

theorem refl (s : State) : s.Reassigned s := ⟨rfl, rfl, rfl, rfl⟩

theorem trans (h : s.Reassigned t) (k : t.Reassigned u) : s.Reassigned u where
  shape := k.shape.trans h.shape
  passage := k.passage.trans h.passage
  turns := k.turns.trans h.turns
  history := k.history.trans h.history

end State.Reassigned

theorem State.reassigned_modifyStore (s : State) (name : String)
    (change : Entries Value → Entries Value) : s.Reassigned (s.modifyStore name change) := by
  unfold State.modifyStore
  split <;> exact ⟨rfl, rfl, rfl, rfl⟩

theorem State.reassigned_putCell (s : State) (name : String) (cell : Option Value) :
    s.Reassigned { s with overlays := State.putCell name cell s.overlays } :=
  ⟨State.names_putCell name cell s.overlays, rfl, rfl, rfl⟩

theorem State.reassigned_of_set {s t : State} {name : String} {value : Value}
    (h : s.set name value = .ok t) : s.Reassigned t := by
  unfold State.set at h
  split at h
  · cases h
  · split at h
    · cases h
      exact s.reassigned_putCell name (some value)
    · cases h
      exact s.reassigned_modifyStore name _

theorem State.reassigned_of_unset {s t : State} {name : String} {existed : Bool}
    (h : s.unset name = .ok (existed, t)) : s.Reassigned t := by
  unfold State.unset at h
  split at h
  · cases h
  · split at h
    · cases h
      exact s.reassigned_putCell name none
    · cases h
      exact s.reassigned_modifyStore name _

/-! ### Computations on variables -/

section Reassigns

variable {ε ε' α β : Type}

/-- Whether it fails or not, the computation does nothing but give variables other values. -/
def Reassigns (x : ExceptT ε (StateM State) α) : Prop :=
  ∀ s : State, s.Reassigned (x.run.run s).2

theorem Reassigns.pure (a : α) : Reassigns (Pure.pure a : ExceptT ε (StateM State) α) :=
  State.Reassigned.refl

theorem Reassigns.throw (error : ε) : Reassigns (throw error : ExceptT ε (StateM State) α) :=
  State.Reassigned.refl

theorem Reassigns.get : Reassigns (get : ExceptT ε (StateM State) State) :=
  State.Reassigned.refl

theorem Reassigns.bind {x : ExceptT ε (StateM State) α} {f : α → ExceptT ε (StateM State) β}
    (hx : Reassigns x) (hf : ∀ a, Reassigns (f a)) : Reassigns (x >>= f) := by
  intro s
  have h : s.Reassigned (x s).2 := hx s
  show s.Reassigned ((x >>= f) s).2
  rw [bind_state_apply]
  rcases hr : x s with ⟨e | a, t⟩
  · rwa [hr] at h
  · rw [hr] at h
    exact h.trans (hf a t)

theorem Reassigns.adapt {x : ExceptT ε (StateM State) α} (change : ε → ε') (hx : Reassigns x) :
    Reassigns (ExceptT.adapt change x) := by
  intro s
  have h := hx s
  have ha : ((ExceptT.adapt change x).run.run s).2 = (x.run.run s).2 := rfl
  rwa [ha]

end Reassigns

/-! ### Expressions -/

theorem State.Sets.reassigned {names : List String} {s t : State} (h : s.Sets names t) :
    s.Reassigned t := by
  induction h with
  | refl => exact .refl s
  | tail _ hone ih =>
      obtain ⟨_, _, _, hset⟩ := hone
      exact ih.trans (State.reassigned_of_set hset)

/-- An expression only gives variables other values. -/
theorem Expr.reassigns_eval (e : Expr) : Reassigns e.eval :=
  fun s => (e.sets_eval s).reassigned

theorem reassigns_evalStatements (statements : List Expr) (last : Value) :
    Reassigns (evalStatements statements last) := by
  induction statements generalizing last with
  | nil => exact .pure last
  | cons statement rest ih => exact .bind statement.reassigns_eval ih

theorem reassigns_evaluate (source : String) : Reassigns (evaluate source) := by
  unfold evaluate
  split
  · exact .throw _
  · exact reassigns_evalStatements _ _

theorem reassigns_evaluateCondition (source : String) : Reassigns (evaluateCondition source) :=
  .bind (reassigns_evaluate source) fun _ => .pure _

/-! ### Arguments -/

theorem ArgumentToken.reassigns_value (token : ArgumentToken) : Reassigns token.value := by
  unfold ArgumentToken.value
  split
  · exact .throw _
  · split
    · exact .bind .get fun s => .pure _
    · exact .pure _
  · dsimp only
    split
    · exact .pure _
    · exact .adapt _ (reassigns_evaluate _)
  · split
    · exact .pure _
    · exact .throw _
  · split
    · exact .pure _
    · exact .throw _

theorem reassigns_tokenValues (tokens : List ArgumentToken) :
    Reassigns (tokenValues tokens) := by
  induction tokens with
  | nil => exact .pure []
  | cons token rest ih =>
      exact .bind token.reassigns_value fun value => .bind ih fun values => .pure _

/-- Reading the arguments of a call only gives variables other values. -/
theorem reassigns_readArguments (raw : String) : Reassigns (readArguments raw) :=
  .bind (reassigns_tokenValues _) fun _ => .pure _

end StoryEngine
