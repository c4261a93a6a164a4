import StoryEngine.Proofs.Play.Played
import StoryEngine.Proofs.Variables.Cells
/-!
# StoryEngine.Proofs.Play.Ground

What a text that is typed out sees of the variables. It sees the values that its call captured, and
behind them what is in force when its turn comes: its *ground*. When a timer or a listener starts a
text, or a passage has been rendered, that is nothing but the variables of the story. But a text
that is shown at once, or is empty, starts the next one from within its own callback, and then what
it captured itself is part of the ground of the next one.

`overseen` performs tasks as an engine does, but raises an alarm, which can be anything, where a
text is started on another ground than that. The alarm is never raised (`texts_start_on_ground`).
-/

namespace StoryEngine

variable {σ : Type}

/-! ### The watch -/

section Watch

variable (alarm : Run Empty σ Unit)

open Classical in
/-- Start the first text of the queue, or raise the alarm if other overlays are in force than those
of the ground. Where there is none, any overlays may be in force. -/
noncomputable def startOnGround (ground : Option (List (Set String))) (p : Perform Empty σ) :
    Run Empty σ Unit := fun e =>
  if ∀ shape ∈ ground, e.state.shape = shape then Builtin.startFirst p e else alarm e

/-- Do a task, like `perform`, but raise the alarm instead of starting a text elsewhere than on the
ground. The ground of what a handler's part does is what is in force when it begins. A render may
capture variables itself, so it has none. -/
noncomputable def overseen : Nat → Option (List (Set String)) → Perform Empty σ
  | 0, _ => fun _ => throw .outOfFuel
  | fuel + 1, ground => fun t =>
    match t with
    | .render out source =>
      StoryEngine.render (runHandler Host.idle (overseen fuel none)) out source
    | .startTyping => startOnGround alarm ground (overseen fuel ground)
    | .invoke id arg =>
      invokeHandler (fun callback arg => do
        runCallback Host.idle (overseen fuel (some (← get).state.shape)) callback arg) id arg
    | t => performTask Host.idle (overseen fuel ground) fuel t

end Watch

/-! ### The alarm is never raised -/

/-- The overlays of the ground are in force, if there is one. -/
def OnGround (ground : Option (List (Set String))) (place : Place) (e : Engine Empty σ) : Prop :=
  e.StandsIn place ∧ ∀ shape ∈ ground, e.state.shape = shape

theorem OnGround.kept (ground : Option (List (Set String))) :
    Kept (OnGround ground : Place → Engine Empty σ → Prop) fun _ => True where
  standsIn he := he.1
  lasts he hstands _ _ hshape := ⟨hstands, fun shape hground => hshape.trans (he.2 shape hground)⟩
  due _ _ := trivial
  recent _ _ := trivial

/-- Without a ground, overlays make no difference. -/
theorem OnGround.push {place : Place} {e : Engine Empty σ} (overlay : Overlay)
    (he : OnGround none place e) :
    OnGround none place { e with state := e.state.push overlay } :=
  ⟨he.1.push overlay, nofun⟩

/-- On the ground, tasks are performed in the same way under the watch. -/
theorem overseen_alike (alarm : Run Empty σ Unit) (n : Nat) (ground : Option (List (Set String))) :
    PerformsAlike (OnGround ground) (fun _ => True) (overseen alarm n ground)
      (perform Host.idle n) where
  lasting := Engine.Lasts.carried.performs n
  framed := Engine.Frame.carried.performs n
  alike {t place e} he _ := by
    induction n generalizing ground t place e with
    | zero => rfl
    | succ n ih =>
        have hp (ground : Option (List (Set String))) :
            PerformsAlike (OnGround ground) (fun _ => True) (overseen alarm n ground)
              (perform Host.idle n) :=
          ⟨fun he hinvoke => ih ground he hinvoke, Engine.Lasts.carried.performs n,
            Engine.Frame.carried.performs n⟩
        have hwork {α : Type} {ground : Option (List (Set String))} {place : Place}
            {X : Perform Empty σ → Run Empty σ α} (hX : Made .any place X) {e : Engine Empty σ}
            (he : OnGround ground place e) :
            X (overseen alarm n ground) e = X (perform Host.idle n) e :=
          hX.alike (OnGround.kept ground) (hp ground) (fun h => (h rfl).elim) he
        cases t with
        | render out source =>
            exact (made_render out source).alike (OnGround.kept none) (hp none)
              (fun _ _ _ overlay he => he.push overlay) ⟨he.1, nofun⟩
        | startTyping =>
            exact (if_pos he.2).trans (hwork Builtin.made_startFirst he)
        | invoke id arg =>
            refine invokeHandler_alike (OnGround.kept none) (hp none) ?_ id arg ?_ ⟨he.1, nofun⟩
            · exact fun h he => ⟨he.1.enterShadow h, nofun⟩
            · intro callback place e he
              exact hwork (made_runCallback callback arg) ⟨he.1, fun _ hshape => (Option.some.inj hshape)⟩
        | trigger event detail => exact hwork (made_trigger event detail) he
        | navigate title => exact hwork (made_navigate title) he
        | advance ms => exact hwork (made_advance n ms) he

/-- A call of the host starts no text but on its ground, whatever the alarm does (`overseen`): the
first text of a call with no overlay in force, unless a call of a macro starts it, and a text that
another one starts from within its callback with what was in force there. Behind the values that a
text captured itself, it thus sees the variables of the story, except those that were captured by
texts shown right before it. -/
theorem texts_start_on_ground (config : Config) (host : σ) {e : Engine Empty σ}
    (he : Played config host e) :
    (∀ (call : HostCall) (alarm : Run Empty σ Unit) (n : Nat),
      call.run (overseen alarm n (some [])) e = call.run (perform Host.idle n) e) ∧
    ∀ (s : State) (own : Overlay) (name : String),
      (∀ cell, Entries.find? name own = some cell → (s.push own).get? name = cell) ∧
      ((∀ names ∈ (s.push own).shape, name ∉ names) →
        (s.push own).get? name = s.stored? name ∧
        (∀ value t, (s.push own).set name value = .ok t →
          t = (s.modifyStore name (Entries.put name value)).push own) ∧
        ∀ had t, (s.push own).unset name = .ok (had, t) →
          t = (s.modifyStore name (Entries.remove name)).push own) := by
  refine ⟨fun call alarm n => ?_, fun s own name => ⟨fun cell => State.get?_push_of_some, ?_⟩⟩
  · have hground : OnGround (some []) { context := e.current } e := by
      refine ⟨he.standsIn, fun shape hshape => ?_⟩
      cases hshape
      rw [State.shape, he.atRest.overlays]
      rfl
    exact (overseen_alike alarm n (some [])).hostCall (OnGround.kept _) hground
      (fun _ _ => trivial) call
  · intro hunshadowed
    refine ⟨State.get?_of_unshadowed hunshadowed, fun value t ht => ?_, fun had t ht => ?_⟩
    · rw [State.set_of_unshadowed hunshadowed ht, State.modifyStore_push]
    · rw [State.unset_of_unshadowed hunshadowed ht, State.modifyStore_push]

/-- Two texts that are shown at once. The first one captures a variable, the second one shows it. -/
def capturedAndShown : String :=
  "<<set _a to 1>><<capture _a>><<type 0s>>x<</type>><</capture>>" ++
    "<<set _a to 2>><<type 0s>><<print _a>><</type>>"

/-- The texts of a passage, when an engine has just been given it. -/
theorem given_texts_start_on_ground :
    let given : Engine Empty Unit := (Engine.ofConfig {} ()).addPassage "P" capturedAndShown
    Played {} () given ∧ ∀ (alarm : Run Empty Unit Unit) (n : Nat),
      (HostCall.navigate "P").run (overseen alarm n (some [])) given =
        (HostCall.navigate "P").run (perform Host.idle n) given := by
  have hgiven : Played {} () ((Engine.ofConfig {} () : Engine Empty Unit).addPassage "P"
      capturedAndShown) :=
    .call .start (.addPassage "P" capturedAndShown) (n := 0) rfl (returned_ok ())
  exact ⟨hgiven, (texts_start_on_ground {} () hgiven).1 (.navigate "P")⟩

/-- The second text does not show what the variable is, but what it was for the first one. -/
theorem shown_text_sees_other_snapshot : ∃ e : Engine Empty Unit, Played {} () e ∧
    e.tree.text e.display = "x1" ∧ (e.state.value "_a").display = "2" := by
  let given : Engine Empty Unit := (Engine.ofConfig {} ()).addPassage "P" capturedAndShown
  let shown := perform Host.idle 20 (.navigate "P") given
  obtain ⟨hreturned, htext, hvalue⟩ :
      Returned shown.1 ∧ shown.2.tree.text shown.2.display = "x1" ∧
        (shown.2.state.value "_a").display = "2" := by
    decide +kernel
  have hgiven : Played {} () given :=
    .call .start (.addPassage "P" capturedAndShown) (n := 0) rfl (returned_ok ())
  exact ⟨shown.2, .call hgiven (.navigate "P") (n := 20) rfl hreturned, htext, hvalue⟩

end StoryEngine
