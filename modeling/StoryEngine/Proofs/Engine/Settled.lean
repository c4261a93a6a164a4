import StoryEngine.Proofs.Engine.Queue
/-!
# StoryEngine.Proofs.Engine.Settled
-/

namespace StoryEngine

variable {σ α β : Type} {place : Place} {limit depth : Nat}

/-- With enough fuel the computation returns, and more fuel makes no difference. -/
def Ends (X : Nat → Run Empty σ α) (e : Engine Empty σ) : Prop :=
  ∃ N r e', Returned r ∧ ∀ n ≥ N, X n e = (r, e')

/-- With enough fuel there have been more texts than the limit when the computation stops, whether
it has returned or not. -/
def Overflows (limit : Nat) (X : Nat → Run Empty σ α) (e : Engine Empty σ) : Prop :=
  ∃ N, ∀ n ≥ N, limit < (X n e).2.nextTypeId

/-- The computation counts up, and ends unless there are more texts than the limit. -/
structure Settles (limit : Nat) (X : Nat → Run Empty σ α) (e : Engine Empty σ) : Prop where
  counts (n : Nat) : CountsUp (X n) e
  settled : Ends X e ∨ Overflows limit X e

namespace Settles

variable {X : Nat → Run Empty σ α} {e e' : Engine Empty σ}

theorem overflow (h : limit < e.nextTypeId) (hcounts : ∀ n, CountsUp (X n) e) :
    Settles limit X e :=
  ⟨hcounts, .inr ⟨0, fun n _ => Nat.lt_of_lt_of_le h (hcounts n)⟩⟩

/-- Work that does not depend on the fuel. -/
theorem const {x : Run Empty σ α} {r : Except Halt α} (h : x e = (r, e')) (hr : Returned r)
    (hle : e.nextTypeId ≤ e'.nextTypeId) : Settles limit (fun _ => x) e :=
  ⟨fun _ => .of_eq h hle, .inl ⟨0, r, e', hr, fun _ _ => h⟩⟩

theorem pure (a : α) : Settles limit (fun _ => Pure.pure a) e :=
  const rfl (returned_ok a) (Nat.le_refl _)

theorem quickTo {P : α → Prop} {x : Run Empty σ α} (hx : QuickTo place P x)
    (he : e.StandsIn place) : Settles limit (fun _ => x) e := by
  obtain ⟨r, e', h, hchanges, hr, -⟩ := hx e he
  exact .const h hr hchanges.nextTypeId_le

/-- Work that is other work on another engine. -/
theorem congr {Y : Nat → Run Empty σ α} (hX : Settles limit X e') (h : ∀ n, Y n e = X n e')
    (hle : e.nextTypeId ≤ e'.nextTypeId) : Settles limit Y e := by
  refine ⟨fun n => ?_, ?_⟩
  · unfold CountsUp
    rw [h n]
    exact Nat.le_trans hle (hX.counts n)
  · rcases hX.settled with ⟨N, r, e₁, hr, hends⟩ | ⟨N, hover⟩
    · exact .inl ⟨N, r, e₁, hr, fun n hn => (h n).trans (hends n hn)⟩
    · refine .inr ⟨N, fun n hn => ?_⟩
      rw [h n]
      exact hover n hn

theorem bind {F : Nat → α → Run Empty σ β} (hX : Settles limit X e)
    (hF : ∀ {n a e₁}, X n e = (.ok a, e₁) → Settles limit (fun n => F n a) e₁) :
    Settles limit (fun n => X n >>= F n) e := by
  refine ⟨fun n => (hX.counts n).bind fun h => (hF h).counts n, ?_⟩
  rcases hX.settled with ⟨N, r, e₁, hr, hends⟩ | ⟨N, hover⟩
  · match r, hr with
    | .error (.failure f), hr =>
        exact .inl ⟨N, _, e₁, returned_failure f, fun n hn => Run.bind_of_error (hends n hn)⟩
    | .error .outOfFuel, hr => exact (hr rfl).elim
    | .ok a, _ =>
        have hfirst (M : Nat) (n : Nat) (hn : n ≥ max N M) : (X n >>= F n) e = F n a e₁ :=
          Run.bind_of_ok (hends n (Nat.le_trans (Nat.le_max_left N M) hn))
        have hsecond (M n : Nat) (hn : n ≥ max N M) : n ≥ M :=
          Nat.le_trans (Nat.le_max_right N M) hn
        rcases (hF (hends N (Nat.le_refl N))).settled with ⟨M, r₁, e', hr₁, hends₁⟩ | ⟨M, hover⟩
        · refine .inl ⟨max N M, r₁, e', hr₁, fun n hn => ?_⟩
          exact (hfirst M n hn).trans (hends₁ n (hsecond M n hn))
        · refine .inr ⟨max N M, fun n hn => ?_⟩
          change limit < ((X n >>= F n) e).2.nextTypeId
          rw [hfirst M n hn]
          exact hover n (hsecond M n hn)
  · refine .inr ⟨N, fun n hn => ?_⟩
    -- what comes after more texts than the limit takes none of them back
    have hlimit := hover n hn
    change limit < ((X n >>= F n) e).2.nextTypeId
    rcases h : X n e with ⟨halt | a, e₁⟩
    · rw [h] at hlimit
      rw [Run.bind_of_error h]
      exact hlimit
    · rw [h] at hlimit
      rw [Run.bind_of_ok h]
      exact Nat.lt_of_lt_of_le hlimit ((hF h).counts n)

/-- Work that goes on after a computation with a known result. -/
theorem next {x : Run Empty σ α} {F : Nat → α → Run Empty σ β} {a : α} (e' : Engine Empty σ)
    (h : x e = (.ok a, e')) (hle : e.nextTypeId ≤ e'.nextTypeId)
    (hF : Settles limit (fun n => F n a) e') : Settles limit (fun n => x >>= F n) e := by
  refine bind (const h (returned_ok a) hle) fun h₁ => ?_
  cases h.symm.trans h₁
  exact hF

theorem attempt (hX : Settles limit X e) : Settles limit (fun n => Run.attempt (X n)) e := by
  refine ⟨fun n => (hX.counts n).attempt, ?_⟩
  rcases hX.settled with ⟨N, r, e', hr, hends⟩ | ⟨N, hover⟩
  · match r, hr with
    | .ok a, _ =>
        exact .inl ⟨N, _, e', returned_ok _, fun n hn => Run.attempt_of_ok (hends n hn)⟩
    | .error (.failure f), _ =>
        exact .inl ⟨N, _, e', returned_ok _, fun n hn => Run.attempt_of_failure (hends n hn)⟩
    | .error .outOfFuel, hr => exact (hr rfl).elim
  · refine .inr ⟨N, fun n hn => ?_⟩
    have hlimit := hover n hn
    change limit < (Run.attempt (X n) e).2.nextTypeId
    rw [Run.attempt_snd]
    exact hlimit

theorem andFinally (hX : Settles limit X e) (change : Engine Empty σ → Engine Empty σ)
    (hchange : ∀ e', (change e').nextTypeId = e'.nextTypeId) :
    Settles limit (fun n => Run.andFinally (X n) change) e := by
  refine hX.attempt.bind fun {n outcome e₁} _ => ?_
  cases outcome with
  | ok a => exact .const rfl (returned_ok a) (Nat.le_of_eq (hchange e₁).symm)
  | error f => exact .const rfl (returned_failure f) (Nat.le_of_eq (hchange e₁).symm)

/-- With no fuel at all nothing is known but that texts are counted up. -/
theorem shift (hX : Settles limit (fun n => X (n + 1)) e) (h : CountsUp (X 0) e) :
    Settles limit X e := by
  refine ⟨fun n => ?_, ?_⟩
  · cases n with
    | zero => exact h
    | succ n => exact hX.counts n
  · rcases hX.settled with ⟨N, r, e', hr, hends⟩ | ⟨N, hover⟩
    · refine .inl ⟨N + 1, r, e', hr, fun n hn => ?_⟩
      obtain ⟨m, rfl⟩ := Nat.exists_eq_add_of_le' hn
      exact hends (m + N) (Nat.le_add_left N m)
    · refine .inr ⟨N + 1, fun n hn => ?_⟩
      obtain ⟨m, rfl⟩ := Nat.exists_eq_add_of_le' hn
      exact hover (m + N) (Nat.le_add_left N m)

end Settles

/-! ### Renders -/

/-- The engine stands in the place, is sound, and allows for so many more renders inside one
another at most. -/
structure Engine.Ready (place : Place) (depth : Nat) (e : Engine Empty σ) : Prop where
  standsIn : e.StandsIn place
  sound : e.Sound
  depth : e.config.maxRenderDepth ≤ e.renderDepth + depth

theorem Engine.Ready.paced {e e' : Engine Empty σ} (he : e.Ready place depth)
    (h : Carried.Leads Engine.Paced place e e') : e'.Ready place depth where
  standsIn := h.1
  sound := h.2.confined.sound he.sound
  depth := by
    rw [h.2.confined.frame.config, h.2.confined.frame.renderDepth]
    exact he.depth

theorem Engine.Ready.changed {e e' : Engine Empty σ} (he : e.Ready place depth)
    (h : Changes place e e') : e'.Ready place depth :=
  he.paced ⟨h.standsIn he.standsIn, Engine.Paced.carried.changes h⟩

theorem Engine.Ready.moved {e e' : Engine Empty σ} (he : e.Ready place depth) (h : Move e e') :
    e'.Ready place depth :=
  he.paced ⟨h.standsIn he.standsIn, .ofMove h⟩

/-- The task settles wherever the engine is ready. -/
def TaskSettles (σ : Type) (limit depth : Nat) (t : Task) : Prop :=
  ∀ (place : Place) (e : Engine Empty σ), e.Ready place depth →
    Settles limit (fun n => perform Host.idle n t) e

/-- What a render is made up of settles if the renders inside it do, and the texts that it
starts. -/
theorem Made.settles {scope : Scope} {X : Perform Empty σ → Run Empty σ α}
    (hrender : ∀ out source, TaskSettles σ limit depth (.render out source))
    (hstart : TaskSettles σ limit depth .startTyping) (hX : Made scope place X)
    (hscope : scope = .rendering) :
    ∀ {e : Engine Empty σ}, e.Ready place depth →
      Settles limit (fun n => X (perform Host.idle n)) e := by
  have hpaced := @Engine.Paced.carried σ
  induction hX with
  | quick hx =>
      intro e he
      exact .quickTo hx he.standsIn
  | @after scope place α β P x F hx _ ihF =>
      intro e he
      obtain ⟨r, e₁, h₁, hchanges, -, hP⟩ := hx e he.standsIn
      have he₁ := he.changed hchanges
      refine .bind (.quickTo hx he.standsIn) fun {n a e₂} h₂ => ?_
      cases h₁.symm.trans h₂
      exact ihF a (hP a rfl) hscope he₁
  | bind hX _ ihX ihF =>
      intro e he
      refine .bind (ihX hscope he) fun {n a e₁} h₁ => ihF a hscope ?_
      exact he.paced (hpaced.made (hpaced.performs n) hX he.standsIn h₁ (returned_ok a))
  | @element scope place α tag F _ ihF =>
      intro e he
      have hinner : Engine.Ready (place.knowing ⟨e.tree.elements.size⟩) depth
          { e with tree := (e.tree.newElement tag).2 } :=
        ⟨he.standsIn.newElement tag, he.sound.congr rfl, he.depth⟩
      have hmade := ihF _ he.standsIn.parted.tree.extent.elements hscope hinner
      exact hmade.congr (fun _ => rfl) (Nat.le_refl _)
  | attempt _ ihX =>
      intro e he
      exact (ihX hscope he).attempt
  | render out source =>
      intro e he
      exact hrender out source _ _ he
  | start hx _ =>
      intro e he
      refine .bind (.quickTo hx he.standsIn) fun {n isNext e₁} h₁ => ?_
      have he₁ := he.paced (hpaced.quickTo hx he.standsIn h₁)
      cases isNext with
      | true => exact hstart _ _ he₁
      | false => exact .const rfl (returned_ok ()) (Nat.le_refl _)
  | @call scope place context X houter hfor hX ihX =>
      intro e he
      have hinner : Engine.Ready (place.within context) depth { e with current := some context } :=
        ⟨he.standsIn.enterCall context, he.sound.congr rfl, he.depth⟩
      have hclosed := (ihX hscope hinner).andFinally (fun e' => { e' with current := e.current })
        fun _ => rfl
      exact hclosed.congr (fun _ => rfl) (Nat.le_refl _)
  | overlay overlay _ ihX =>
      intro e he
      have hinner : Engine.Ready _ depth { e with state := e.state.push overlay } :=
        ⟨he.standsIn.push overlay, he.sound.congr rfl, he.depth⟩
      have hclosed := (ihX hscope hinner).andFinally
        (fun e' => { e' with state := e'.state.dropOverlays e.state.overlays.length }) fun _ => rfl
      exact hclosed.congr (fun _ => rfl) (Nat.le_refl _)
  | _ => cases hscope


theorem perform_render (n : Nat) (out : OutputId) (source : String) (e : Engine Empty σ) :
    perform Host.idle (n + 1) (.render out source) e =
      if h : e.renderDepth < e.config.maxRenderDepth then
        Run.andFinally (renderSegments (runHandler Host.idle (perform Host.idle n)) out 0
          (segmentsOf source)) Engine.ascend (e.descend h)
      else showError out (tooDeepMessage e.config.maxRenderDepth) source e := by
  change render (runHandler Host.idle (perform Host.idle n)) out source e = _
  rw [render, deeper_apply]
  rfl

/-- A render that would nest too deep does nothing but show an error. -/
theorem settles_tooDeep (out : OutputId) (source : String) :
    TaskSettles σ limit 0 (.render out source) := by
  intro place e he
  have hlt : ¬ e.renderDepth < e.config.maxRenderDepth := Nat.not_lt.mpr he.depth
  have hshown : Quick place (showError out (tooDeepMessage e.config.maxRenderDepth) source :
      Run Empty σ Unit) :=
    quick_showError _ _ _
  refine .shift ?_ (Nat.le_refl _)
  refine (Settles.quickTo hshown he.standsIn).congr (fun n => ?_) (Nat.le_refl _)
  rw [perform_render, dif_neg hlt]

/-- A render settles if the renders and the texts inside it do. -/
theorem settles_render (hrender : ∀ out source, TaskSettles σ limit depth (.render out source))
    (hstart : TaskSettles σ limit depth .startTyping) (out : OutputId) (source : String) :
    TaskSettles σ limit (depth + 1) (.render out source) := by
  intro place e he
  by_cases hlt : e.renderDepth < e.config.maxRenderDepth
  · have hinner : (e.descend hlt).Ready place depth := by
      refine ⟨he.standsIn.descend hlt, he.sound.congr rfl, ?_⟩
      have hdepth := he.depth
      change e.config.maxRenderDepth ≤ e.renderDepth + 1 + depth
      omega
    have hsegments :=
      (made_renderSegments out 0 (segmentsOf source)).settles hrender hstart rfl hinner
    refine .shift ?_ (Nat.le_refl _)
    refine (hsegments.andFinally Engine.ascend fun _ => rfl).congr (fun n => ?_) (Nat.le_refl _)
    rw [perform_render, dif_pos hlt]
  · exact settles_tooDeep out source place e ⟨he.standsIn, he.sound, Nat.not_lt.mp hlt⟩

end StoryEngine
