import StoryEngine.Proofs.Display.Added
import StoryEngine.Proofs.Engine.Quick
/-!
# StoryEngine.Proofs.Engine.Mirror

Work on an engine beside the same work on one that shows debug views. With debug views on, one macro
looks at its clauses more closely and may show an error that the plain engine does not know of
(`ErrorView.IsAssignment`). So there are three computations: the one of the plain engine, another one
that looks as closely, and the one of the engine with debug views. The latter two come to the same
(`Run.Meet`), and so does the first, unless such an error is shown (`Run.MirrorAt`). An error that is
shown stays, so the rules for `MirrorAt` follow the structure of computations.
-/

namespace StoryEngine

variable {σ α β γ δ : Type}

/-- The error is one about an assignment in a condition. -/
def ErrorView.IsAssignment (view : ErrorView) : Prop :=
  ∃ name rest, view.message =
    "<<" ++ name ++ ">>: " ++ ("assignment operator found within <<" ++ rest)

/-- An error about an assignment in a condition is displayed somewhere. -/
def Tree.HasAssignment (t : Tree) : Prop :=
  ∃ out view, .error view ∈ t.nodes out ∧ view.IsAssignment

theorem Tree.Extends.hasAssignment {t t' : Tree} (h : t.Extends t') (ht : t.HasAssignment) :
    t'.HasAssignment := by
  obtain ⟨out, view, hmem, hview⟩ := ht
  obtain ⟨out', hmem'⟩ := h.errors out view hmem
  exact ⟨out', view, hmem', hview⟩

namespace Run

/-- Both computations came to their end with results that belong together, or failed for the same
reason, or ran out of fuel. -/
inductive Meet (E : Engine Empty σ → Engine Empty σ → Prop)
    (Q : α → β → Engine Empty σ → Engine Empty σ → Prop) :
    Except Halt α × Engine Empty σ → Except Halt β × Engine Empty σ → Prop
  | ok {a : α} {b : β} {e d : Engine Empty σ} (h : Q a b e d) : Meet E Q (.ok a, e) (.ok b, d)
  | fail (f : Failure) {e d : Engine Empty σ} (h : E e d) :
      Meet E Q (.error (.failure f), e) (.error (.failure f), d)
  | halt (e d : Engine Empty σ) : Meet E Q (.error .outOfFuel, e) (.error .outOfFuel, d)

/-- Started on the two engines, the second and the third computation come to the same, and so does
the first unless an error about an assignment is displayed. -/
structure MirrorAt (E : Engine Empty σ → Engine Empty σ → Prop)
    (Q : α → β → Engine Empty σ → Engine Empty σ → Prop) (x x' : Run Empty σ α)
    (y : Run Empty σ β) (e d : Engine Empty σ) : Prop where
  meet : Meet E Q (x' e) (y d)
  same : x e = x' e ∨ (y d).2.tree.HasAssignment
  extend : d.tree.Extends (y d).2.tree

namespace MirrorAt

variable {E : Engine Empty σ → Engine Empty σ → Prop}
  {Q : α → β → Engine Empty σ → Engine Empty σ → Prop}
  {R : γ → δ → Engine Empty σ → Engine Empty σ → Prop} {x x' : Run Empty σ α} {y : Run Empty σ β}
  {f f' : α → Run Empty σ γ} {g : β → Run Empty σ δ} {e e₁ d d₁ : Engine Empty σ}

theorem mono {E' : Engine Empty σ → Engine Empty σ → Prop}
    {Q' : α → β → Engine Empty σ → Engine Empty σ → Prop} (h : MirrorAt E Q x x' y e d)
    (hE : ∀ e d, E e d → E' e d) (hQ : ∀ a b e d, Q a b e d → Q' a b e d) :
    MirrorAt E' Q' x x' y e d := by
  refine ⟨?_, h.same, h.extend⟩
  have hmeet := h.meet
  generalize x' e = r, y d = s at hmeet ⊢
  cases hmeet with
  | ok h => exact .ok (hQ _ _ _ _ h)
  | fail f h => exact .fail f (hE _ _ h)
  | halt e d => exact .halt e d

/-- Only what the computations do matters. They may be others, started on other engines. -/
theorem of_eq {x₁ x₁' : Run Empty σ α} {y₁ : Run Empty σ β} (h : MirrorAt E Q x₁ x₁' y₁ e₁ d₁)
    (hx : x e = x₁ e₁) (hx' : x' e = x₁' e₁) (hy : y d = y₁ d₁) (htree : d₁.tree = d.tree) :
    MirrorAt E Q x x' y e d := by
  obtain ⟨hmeet, hsame, hextend⟩ := h
  rw [← hx', ← hy] at hmeet
  rw [← hx, ← hx', ← hy] at hsame
  rw [← hy, htree] at hextend
  exact ⟨hmeet, hsame, hextend⟩

theorem congr {x₁ x₁' : Run Empty σ α} {y₁ : Run Empty σ β} (h : MirrorAt E Q x₁ x₁' y₁ e d)
    (hx : x e = x₁ e) (hx' : x' e = x₁' e) (hy : y d = y₁ d) : MirrorAt E Q x x' y e d :=
  h.of_eq hx hx' hy rfl

theorem pure {a : α} {b : β} (h : Q a b e d) : MirrorAt E Q (pure a) (pure a) (pure b) e d :=
  ⟨.ok h, .inl rfl, .refl _⟩

theorem fail (failure : Failure) (h : E e d) :
    MirrorAt E Q (Run.fail failure) (Run.fail failure) (Run.fail failure) e d :=
  ⟨.fail failure h, .inl rfl, .refl _⟩

theorem bind (hx : MirrorAt E Q x x' y e d)
    (hf : ∀ a b e₁ d₁, Q a b e₁ d₁ → MirrorAt E R (f a) (f' a) (g b) e₁ d₁) :
    MirrorAt E R (x >>= f) (x' >>= f') (y >>= g) e d := by
  have hmeet := hx.meet
  have hsame := hx.same
  have hextend := hx.extend
  rcases hx' : x' e with ⟨r, e₁⟩
  rcases hy : y d with ⟨s, d₁⟩
  rw [hx', hy] at hmeet
  rw [hx', hy] at hsame
  rw [hy] at hextend
  cases hmeet with
  | @ok a b _ _ h =>
      have hrest := hf a b e₁ d₁ h
      refine ⟨?_, ?_, ?_⟩
      · rw [bind_of_ok hx', bind_of_ok hy]
        exact hrest.meet
      · rw [bind_of_ok hx', bind_of_ok hy]
        rcases hsame with heq | hshown
        · rw [bind_of_ok heq]
          exact hrest.same
        · exact .inr (hrest.extend.hasAssignment hshown)
      · rw [bind_of_ok hy]
        exact hextend.trans hrest.extend
  | fail failure h =>
      refine ⟨?_, ?_, ?_⟩
      · rw [bind_of_error hx', bind_of_error hy]
        exact .fail failure h
      · rw [bind_of_error hx', bind_of_error hy]
        exact hsame.imp_left bind_of_error
      · rw [bind_of_error hy]
        exact hextend
  | halt =>
      refine ⟨?_, ?_, ?_⟩
      · rw [bind_of_error hx', bind_of_error hy]
        exact .halt e₁ d₁
      · rw [bind_of_error hx', bind_of_error hy]
        exact hsame.imp_left bind_of_error
      · rw [bind_of_error hy]
        exact hextend

/-- What is done first does not fail. -/
theorem next {x : Run Empty σ α} {a : α} {b : β} (hx : x e = (.ok a, e₁)) (hy : y d = (.ok b, d₁))
    (hextend : d.tree.Extends d₁.tree) (hf : MirrorAt E R (f a) (f' a) (g b) e₁ d₁) :
    MirrorAt E R (x >>= f) (x >>= f') (y >>= g) e d := by
  refine ⟨?_, ?_, ?_⟩
  · rw [bind_of_ok hx, bind_of_ok hy]
    exact hf.meet
  · rw [bind_of_ok hx, bind_of_ok hx, bind_of_ok hy]
    exact hf.same
  · rw [bind_of_ok hy]
    exact hextend.trans hf.extend

/-- An attempt does not fail. -/
theorem attempt {E' : Engine Empty σ → Engine Empty σ → Prop} (hx : MirrorAt E Q x x' y e d) :
    MirrorAt E'
      (fun r s e d => (∃ a b, r = .ok a ∧ s = .ok b ∧ Q a b e d) ∨
        ∃ failure, r = .error failure ∧ s = .error failure ∧ E e d)
      (Run.attempt x) (Run.attempt x') (Run.attempt y) e d := by
  have hmeet := hx.meet
  have hsame := hx.same
  refine ⟨?_, ?_, ?_⟩
  · unfold Run.attempt
    generalize x' e = r, y d = s at hmeet ⊢
    cases hmeet with
    | @ok a b _ _ h => exact .ok (.inl ⟨a, b, rfl, rfl, h⟩)
    | fail failure h => exact .ok (.inr ⟨failure, rfl, rfl, h⟩)
    | halt e d => exact .halt e d
  · rw [attempt_snd]
    refine hsame.imp_left fun heq => ?_
    unfold Run.attempt
    rw [heq]
  · rw [attempt_snd]
    exact hx.extend

/-- What depends on the engines. -/
theorem get {f f' : Engine Empty σ → Run Empty σ γ} {g : Engine Empty σ → Run Empty σ δ}
    (h : MirrorAt E R (f e) (f' e) (g d) e d) :
    MirrorAt E R (MonadState.get >>= f) (MonadState.get >>= f') (MonadState.get >>= g) e d :=
  ⟨h.meet, h.same, h.extend⟩

/-- A change is made in the end, whether the computation failed or not. -/
theorem andFinally {change change' : Engine Empty σ → Engine Empty σ}
    {E' : Engine Empty σ → Engine Empty σ → Prop}
    {Q' : α → β → Engine Empty σ → Engine Empty σ → Prop} (hx : MirrorAt E Q x x' y e d)
    (htree : ∀ d, (change' d).tree = d.tree) (hE : ∀ e d, E e d → E' (change e) (change' d))
    (hQ : ∀ a b e d, Q a b e d → Q' a b (change e) (change' d)) :
    MirrorAt E' Q' (Run.andFinally x change) (Run.andFinally x' change)
      (Run.andFinally y change') e d := by
  refine hx.attempt.bind fun r s e₁ d₁ h => ?_
  have hextend : d₁.tree.Extends (change' d₁).tree := htree d₁ ▸ .refl _
  refine .next (x := modify change) (y := modify change') rfl rfl hextend ?_
  rcases h with ⟨a, b, rfl, rfl, h⟩ | ⟨failure, rfl, rfl, h⟩
  · exact .pure (hQ a b e₁ d₁ h)
  · exact .fail failure (hE e₁ d₁ h)

end MirrorAt

/-- Wherever they are started on engines that belong together, the second and the third computation
come to the same, and so does the first unless an error about an assignment is displayed. -/
def Mirror (E P : Engine Empty σ → Engine Empty σ → Prop)
    (Q : α → β → Engine Empty σ → Engine Empty σ → Prop) (x x' : Run Empty σ α)
    (y : Run Empty σ β) : Prop :=
  ∀ e d, P e d → MirrorAt E Q x x' y e d

/-- The results are the same, and the engines belong together. -/
abbrev Same (P : Engine Empty σ → Engine Empty σ → Prop) (a b : α) (e d : Engine Empty σ) : Prop :=
  b = a ∧ P e d

namespace Mirror

variable {E P P₁ : Engine Empty σ → Engine Empty σ → Prop}
  {Q : α → β → Engine Empty σ → Engine Empty σ → Prop}
  {R : γ → δ → Engine Empty σ → Engine Empty σ → Prop} {x x' : Run Empty σ α} {y : Run Empty σ β}

theorem mono (h : Mirror E P Q x x' y)
    {Q' : α → β → Engine Empty σ → Engine Empty σ → Prop}
    (hQ : ∀ a b e d, Q a b e d → Q' a b e d) : Mirror E P Q' x x' y :=
  fun e d hP => (h e d hP).mono (fun _ _ hE => hE) hQ

theorem of_imp (h : Mirror E P Q x x' y) {P' : Engine Empty σ → Engine Empty σ → Prop}
    (hP : ∀ e d, P' e d → P e d) : Mirror E P' Q x x' y :=
  fun e d hP' => h e d (hP e d hP')

theorem pure (a : α) : Mirror E P (Same P) (pure a) (pure a) (pure a) :=
  fun _ _ h => .pure ⟨rfl, h⟩

theorem fail (failure : Failure) (hE : ∀ e d, P e d → E e d) :
    Mirror E P Q (Run.fail failure) (Run.fail failure) (Run.fail failure) :=
  fun e d h => .fail failure (hE e d h)

theorem bind (hx : Mirror E P Q x x' y) {f f' : α → Run Empty σ γ} {g : β → Run Empty σ δ}
    (hf : ∀ a b, Mirror E (Q a b) R (f a) (f' a) (g b)) :
    Mirror E P R (x >>= f) (x' >>= f') (y >>= g) :=
  fun e d h => (hx e d h).bind fun a b e₁ d₁ => hf a b e₁ d₁

/-- Both go on with the same result. -/
theorem seq {y : Run Empty σ α} (hx : Mirror E P (Same P₁) x x' y) {f f' : α → Run Empty σ γ}
    {g : α → Run Empty σ δ} (hf : ∀ a, Mirror E P₁ R (f a) (f' a) (g a)) :
    Mirror E P R (x >>= f) (x' >>= f') (y >>= g) := by
  refine hx.bind fun a b e d h => ?_
  obtain ⟨rfl, h⟩ := h
  exact hf b e d h

/-- Something is done before on the engine with debug views only. -/
theorem before {z : Run Empty σ Unit} (hz : Mirror E P (Same P₁) (Pure.pure ()) (Pure.pure ()) z)
    (h : Mirror E P₁ Q x x' y) : Mirror E P Q x x' (z >>= fun _ => y) := by
  intro e d hP
  have hboth : MirrorAt E Q (Pure.pure () >>= fun _ => x) (Pure.pure () >>= fun _ => x')
      (z >>= fun _ => y) e d := (hz e d hP).bind fun _ _ e₁ d₁ hQ => h e₁ d₁ hQ.2
  exact hboth.congr rfl rfl rfl

/-- Both take the same branch. -/
theorem ite {c : Prop} [Decidable c] {x₁ x₁' : Run Empty σ α} {y₁ : Run Empty σ β}
    (h : c → Mirror E P Q x x' y) (h₁ : ¬ c → Mirror E P Q x₁ x₁' y₁) :
    Mirror E P Q (if c then x else x₁) (if c then x' else x₁') (if c then y else y₁) := by
  by_cases hc : c
  · rw [if_pos hc, if_pos hc, if_pos hc]
    exact h hc
  · rw [if_neg hc, if_neg hc, if_neg hc]
    exact h₁ hc

end Mirror

end Run

end StoryEngine
