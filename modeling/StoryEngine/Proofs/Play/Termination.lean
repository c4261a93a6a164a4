import Mathlib.Data.Finset.Lattice.Fold
import StoryEngine.Proofs.Engine.Retyping
import StoryEngine.Proofs.Play.LoopControl
/-!
# StoryEngine.Proofs.Play.Termination

Whether a render or the way to a passage comes to its end. The settings bound how deep renders nest
and how often loops run, and a source has only so many segments, so the one thing that can keep it
from returning is the queue of texts: it returns exactly if it does not put more and more texts into
the queue (`returns_iff_texts_bounded`). The settings do not bound their number, and a text can put
itself into the queue again while it is shown (`self_typing_never_returns`).
-/

namespace StoryEngine

variable {σ : Type}

/-- The task renders source text, or goes to a passage. -/
inductive Task.Shows : Task → Prop
  | render (out : OutputId) (source : String) : Shows (.render out source)
  | navigate (title : String) : Shows (.navigate title)

/-- There may be as many texts as one likes: either the task returns or there are more of them. -/
theorem settles_of_shows {e : Engine Empty σ} (hregistry : e.registry = Registry.ofBuiltins .builtin)
    (hsound : e.Sound) {t : Task} (ht : t.Shows) (limit : Nat) :
    Settles limit (fun n => perform Host.idle n t) e := by
  have he : e.Ready { context := e.current } e.config.maxRenderDepth :=
    ⟨.ofRegistry hregistry, hsound, Nat.le_add_left _ _⟩
  cases ht with
  | render out source => exact (settles_both limit _).1 out source _ e he
  | navigate title => exact settles_navigate he title

/-- A render or the way to a passage returns exactly if there is a limit to the number of texts it
puts into the queue, however much fuel it has. Engines are sound between the calls of their host
(`Played.sound`), and during them. -/
theorem returns_iff_texts_bounded {e : Engine Empty σ}
    (hregistry : e.registry = Registry.ofBuiltins .builtin) (hsound : e.Sound) {t : Task}
    (ht : t.Shows) :
    (∃ N r e', Returned r ∧ ∀ n ≥ N, perform Host.idle n t e = (r, e')) ↔
      ∃ limit, ∀ n, (perform Host.idle n t e).2.nextTypeId ≤ limit := by
  constructor
  · rintro ⟨N, r, e', -, hends⟩
    -- below the fuel that suffices there are finitely many runs
    let count (n : Nat) : Nat := (perform Host.idle n t e).2.nextTypeId
    refine ⟨max e'.nextTypeId ((Finset.range N).sup count), fun n => ?_⟩
    by_cases hn : n ≥ N
    · rw [hends n hn]
      exact Nat.le_max_left _ _
    · have hmem : n ∈ Finset.range N := Finset.mem_range.mpr (Nat.not_le.mp hn)
      exact Nat.le_trans (Finset.le_sup (f := count) hmem) (Nat.le_max_right _ _)
  · rintro ⟨limit, hlimit⟩
    rcases (settles_of_shows hregistry hsound ht limit).settled with hends | ⟨N, hover⟩
    · exact hends
    · exact absurd (hover N (Nat.le_refl N)) (Nat.not_lt.mpr (hlimit N))

/-- Plain text puts nothing into the queue, so its render returns. -/
theorem plain_text_returns : ∃ N r e', Returned r ∧
    ∀ n ≥ N, perform Host.idle n (.render ⟨0⟩ "hello") (Engine.ofConfig {} ()) = (r, e') := by
  have hsound : (Engine.ofConfig {} () : Engine Empty Unit).Sound := Played.start.sound
  refine (returns_iff_texts_bounded rfl hsound (.render ⟨0⟩ "hello")).mpr ⟨0, fun n => ?_⟩
  have hsegments : segmentsOf "hello" = [.text "hello"] := by decide +kernel
  have hdepth : (Engine.ofConfig {} () : Engine Empty Unit).renderDepth <
      (Engine.ofConfig {} () : Engine Empty Unit).config.maxRenderDepth := by
    decide
  cases n with
  | zero => exact Nat.le_refl 0
  | succ n =>
      rw [perform_render, dif_pos hdepth, hsegments]
      exact Nat.le_refl 0

/-- A variable that holds a text which types out what the variable prints: the render of a call that
prints the variable never returns. -/
theorem self_typing_never_returns : ∃ e : Engine Empty Unit, Played {} () e ∧
    ¬ ∃ n r e', perform Host.idle n (.render ⟨0⟩ "<<print $x>>") e = (r, e') ∧ Returned r := by
  let state : State := { story := [("$x", .string typeSource)] }
  have hset : ({} : State).set "$x" (.string typeSource) = .ok state := by
    have hvariable : isVariable "$x" = true := by decide +kernel
    rw [State.set, hvariable]
    rfl
  let e : Engine Empty Unit := { Engine.ofConfig {} () with state := state }
  refine ⟨e, .call .start (.set "$x" (.string typeSource)) (n := 0) ?_ (returned_ok ()), ?_⟩
  · change Run.changingState (fun s => s.set "$x" (.string typeSource)) (Engine.ofConfig {} ()) = _
    have hstate : (Engine.ofConfig {} () : Engine Empty Unit).state = {} := rfl
    rw [Run.changingState, Run.get_bind_apply, hstate, hset]
    rfl
  · rintro ⟨n, r, e', h, hr⟩
    have he : e.Retyping := ⟨rfl, rfl, rfl, rfl, State.get?_of_set hset⟩
    obtain ⟨u, -, hfalse⟩ := yields_retyping he rfl (by decide) r e' h hr
    exact hfalse

end StoryEngine
