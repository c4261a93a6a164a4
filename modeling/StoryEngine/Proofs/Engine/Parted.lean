import StoryEngine.Play
import StoryEngine.Proofs.Display.Growth
/-!
# StoryEngine.Proofs.Engine.Parted

What is put off belongs to a turn. A `Mark` remembers how much of everything there was when a turn
began, so that what was put off before can be told from what is recent. An engine is *parted* by a
mark if nothing from before the mark can come back: what can be clicked, the texts that wait for
their turn, and the chains and intervals that are not stale have recent handlers, and nothing that
is displayed was there before (`Tree.Parted`).
-/

namespace StoryEngine

variable {σ : Type}

/-- How much of everything there was when a turn began, and which turn it was. -/
structure Mark where
  extent : Extent := {}
  handlers : Nat := 0
  turn : Nat := 0

/-- The handler is recent, or the moment it belongs to is past. -/
def Mark.Allows (mark : Mark) (m : Moment) (id : HandlerId) : Prop :=
  m.turn < mark.turn ∨ mark.handlers ≤ id.index

/-- An interval that is not stale has a recent handler. -/
def TimerAction.Obeys (mark : Mark) : TimerAction Empty → Prop
  | .repeatTick handler moment => mark.Allows moment handler
  | _ => True

/-- The moment that the story is in. -/
def Engine.moment (e : Engine Empty σ) : Moment :=
  ⟨e.state.passage, e.state.turns⟩

/-- The texts that wait for their turn. -/
def Engine.texts (e : Engine Empty σ) : List TypeJob :=
  e.typeQueue.getD []

theorem typeQueue_of_texts {e : Engine Empty σ} {job : TypeJob} {rest : List TypeJob}
    (h : e.texts = job :: rest) : e.typeQueue = some (job :: rest) := by
  unfold Engine.texts at h
  cases hq : e.typeQueue with
  | none => rw [hq] at h; cases h
  | some queue => rw [hq] at h; exact congrArg some h

/-- Nothing from before the mark can come back. -/
structure Engine.Parted (mark : Mark) (e : Engine Empty σ) : Prop where
  tree : e.tree.Parted mark.extent e.display
  handlers : mark.handlers ≤ e.handlers.size
  turn : mark.turn ≤ e.state.turns
  clickables : ∀ k ∈ e.clickables,
    mark.handlers ≤ k.handler.index ∧ mark.extent.elements ≤ k.element.index
  texts : ∀ job ∈ e.texts, mark.handlers ≤ job.handler.index
  chains : ∀ k ∈ e.chains, mark.Allows k.moment k.handler
  /-- A recent text that is being typed out was set aside in what is present. -/
  typings : ∀ t ∈ e.typings, mark.extent.elements ≤ t.typer.wrapper.index →
    mark.extent.Present e.display t.typer.full
  timers : ∀ timer ∈ e.clock.timers, timer.action.Obeys mark

/-- What it depends on whether an engine is parted. -/
def Engine.dated (e : Engine Empty σ) : (Tree × OutputId) × Nat × Nat × List Clickable ×
    List TypeJob × Array TimedChain × Array Typing × Clock (TimerAction Empty) :=
  ((e.tree, e.display), e.handlers.size, e.state.turns, e.clickables, e.texts, e.chains, e.typings,
    e.clock)

namespace Engine.Parted

variable {mark : Mark} {e e' : Engine Empty σ}

/-- Everything is recent if there was nothing yet. -/
theorem zero (e : Engine Empty σ) : e.Parted {} where
  tree := Tree.parted_zero e.display e.tree
  handlers := Nat.zero_le _
  turn := Nat.zero_le _
  clickables _ _ := ⟨Nat.zero_le _, Nat.zero_le _⟩
  texts _ _ := Nat.zero_le _
  chains _ _ := .inr (Nat.zero_le _)
  typings _ _ _ := .inl (Nat.zero_le _)
  timers timer _ := by
    cases timer.action with
    | repeatTick handler moment => exact .inr (Nat.zero_le _)
    | _ => trivial

theorem congr (he : e.Parted mark) (h : e'.dated = e.dated) : e'.Parted mark := by
  simp only [Engine.dated, Prod.mk.injEq] at h
  obtain ⟨⟨htree, hdisplay⟩, hhandlers, hturn, hclickables, htexts, hchains, htypings, hclock⟩ := h
  exact ⟨by rw [htree, hdisplay]; exact he.tree, by rw [hhandlers]; exact he.handlers,
    by rw [hturn]; exact he.turn, by rw [hclickables]; exact he.clickables,
    by rw [htexts]; exact he.texts, by rw [hchains]; exact he.chains,
    by rw [htypings, hdisplay]; exact he.typings, by rw [hclock]; exact he.timers⟩

end Engine.Parted

end StoryEngine
