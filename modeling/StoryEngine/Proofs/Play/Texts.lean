import StoryEngine.Proofs.Engine.Course
import StoryEngine.Proofs.Engine.StageTasks
/-!
# StoryEngine.Proofs.Play.Texts

The texts that are typed while a story is played, whatever the host asks for. There is one at a time:
in each turn the texts are started in the order of the queue and each of them once, at most one of
them is animated, and none is started before the typing of the one that is animated has stopped
(`texts_one_at_a_time`). When the typing of the last text in the queue stops, that is announced
(`completion_announced`). It is not announced, however, if the last text is shown at once
(`completion_not_announced`).
-/

namespace StoryEngine

/-! ### Calls of the host -/

/-- Do what the host asks for, one call after the other. Failures are left to the host. -/
def HostCall.runAll {σ : Type} (p : Perform Empty σ) : List HostCall → Run Empty σ Unit
  | [] => pure ()
  | call :: rest => do
    let _ ← Run.attempt (call.run p)
    runAll p rest

theorem HostCall.runAll_mirrors {σ : Type} {p p' : Perform Empty σ} (hp : PerformsMirrored p p')
    (calls : List HostCall) : Mirrors (runAll p calls) (runAll p' calls) := by
  induction calls with
  | nil => exact .pure ()
  | cons call rest ih => exact .bind (call.mirrors hp).attempt fun _ => ih

variable {p : Perform Empty Record} {e : Engine Empty Record}

/-- A call of the host does nothing to texts but to have tasks done. -/
theorem HostCall.ends (hp : PerformsInStages p) (call : HostCall) (h : Rests e) :
    EndsIn Rests (call.run p) e := by
  obtain ⟨s, hs, hopen, hplaying⟩ := id h
  have haside {x : Run Empty Record Unit} (hx : IsAside x) : EndsIn Rests x e :=
    hx.ends (fun _ ha => h.aside ha) h.isRight
  cases call with
  | addPassage title source => exact .ofOk rfl (h.aside (.of_eq rfl rfl))
  | render out source =>
      have hrendered := hp.ends (.render hs hopen out source)
      rw [hplaying] at hrendered
      exact hrendered.mono fun _ => Rendered.rests
  | navigate title => exact hp.ends (.navigate h title)
  | click element =>
      refine .seq ?_ fun _ _ h => .pure h
      refine .get_next ?_
      cases hclick : takeClickable? element e.clickables with
      | none => exact .pure h
      | some found =>
          obtain ⟨k, others⟩ := found
          obtain ⟨hmem, hothers⟩ := takeClickable?_mem hclick
          have hplain := hs.plain k.handler (.click hmem)
          have hinvoke {e' : Engine Empty Record} (ha : e.Aside e') :
              EndsIn Rests (p (.invoke k.handler .nothing) >>= fun _ => pure true) e' :=
            (hp.ends (.plain (hs.aside ha) hopen (ha.isPlaying_eq.trans hplaying)
              (hplain.mono ha.handlers ShadowHandler.IsPlain.withStore) .nothing)).seq
              fun _ _ h => .pure h
          dsimp only
          -- an element that can be clicked once is gone before its handler is invoked
          split
          · exact .modify_next (hinvoke (.unclick hothers))
          · exact hinvoke (.refl e)
  | pressKey key => exact hp.ends (.key h key)
  | advance ms => exact hp.ends (.advance h ms)
  | set name value => exact haside (.changingState fun _ _ => State.reassigned_of_set)
  | newOutput => exact haside (.bind (.withTree _) fun _ => .pure _)
  | takeErrors => exact .ofOk rfl (h.aside (.of_eq rfl rfl))

theorem HostCall.ends_runAll (hp : PerformsInStages p) (calls : List HostCall) (h : Rests e) :
    EndsIn Rests (HostCall.runAll p calls) e := by
  induction calls generalizing e with
  | nil => exact .pure h
  | cons call rest ih => exact (call.ends hp h).attempt.seq fun _ _ => ih

/-! ### One text at a time -/

/-- There are no texts in an engine that has just been made. -/
theorem inStage_ofConfig (config : Config) :
    Engine.InStage (.free 0) (Engine.ofConfig config ([] : Record)) where
  queued := ⟨rfl, rfl, fun _ h => by cases h⟩
  clocked := ⟨rfl, fun _ h => (by cases h), fun _ h => (by cases h), fun _ h => (by cases h),
    fun _ h => (by cases h)⟩
  listening := ⟨fun _ h => (by cases h), .inl rfl, fun _ h => (by cases h), fun h => (by cases h)⟩
  plain _ hid := by
    cases hid with
    | click h => cases h
    | item h => exact (Array.not_mem_empty _ h).elim
    | tick h => cases h
  busy h := by cases h
  dry _ h := by cases h
  queue h := by cases h
  playing h := by cases h
  record := ⟨_, .refl _, .inl rfl⟩

/-- An engine is made and called, and what happens to texts is noted down. -/
def HostCall.runRecorded (config : Config) (calls : List HostCall) (n : Nat) :
    Except Halt Unit × Engine Empty Record :=
  runAll (recorded n) calls (Engine.ofConfig config [])

/-- What was noted down is right, and the stage lasts unless the fuel has run out. -/
theorem HostCall.ends_runRecorded (config : Config) (calls : List HostCall) (n : Nat) :
    (runRecorded config calls n).2.IsRight ∧
      ((runRecorded config calls n).1 = .error .outOfFuel ∨ Rests (runRecorded config calls n).2) := by
  have hends := ends_runAll (performsInStages n) calls
    ((inStage_ofConfig config).rests rfl rfl)
  unfold EndsIn at hends
  unfold runRecorded
  generalize runAll (recorded n) calls (Engine.ofConfig config []) = run at hends ⊢
  rcases run with ⟨(failure | _) | u, e⟩
  · exact ⟨hends.isRight, .inr hends⟩
  · exact ⟨hends, .inl rfl⟩
  · exact ⟨hends.isRight, .inr hends⟩

/-- Whatever an engine is called for, there is one text at a time: the texts of a turn are started in
the order of the queue and each of them once, at most one is animated, it begins and ends to be
typed once, and none is started before it has ended. -/
theorem texts_one_at_a_time (config : Config) (calls : List HostCall) (n : Nat) :
    HostCall.runAll (perform Host.idle n) calls (Engine.ofConfig config []) =
        ((HostCall.runRecorded config calls n).1,
          (HostCall.runRecorded config calls n).2.withHost []) ∧
      OneAtATime (HostCall.runRecorded config calls n).2.host ∧
      ((HostCall.runRecorded config calls n).1 = .error .outOfFuel ∨
        (HostCall.runRecorded config calls n).2.animating.length ≤ 1) := by
  obtain ⟨⟨phase, hleads⟩, hends⟩ := HostCall.ends_runRecorded config calls n
  refine ⟨?_, hleads.oneAtATime, hends.imp_right fun ⟨s, hs, _⟩ => ?_⟩
  · exact HostCall.runAll_mirrors (recorded_mirrors n) calls (Engine.ofConfig config []) []
  · have hanimating : (HostCall.runRecorded config calls n).2.animating = s.animating :=
      hs.clocked.animating
    rw [hanimating]
    cases s <;> simp [Stage.animating]

/-- The first text is animated, the second one is shown at once when its turn has come. -/
example : ((HostCall.runRecorded {} [.addPassage "P" "<<type 1s>>a<</type>><<type 0s>>b<</type>>",
      .navigate "P", .advance 5000] 20).2.host.map (·.what)).filter (· ≠ .other) =
    [.turn 0, .started 0, .begun, .ended, .started 1] := by
  decide +kernel

/-- Whatever an engine is called for, when the last text of the queue is typed out that is announced
right away, and at no other time. -/
theorem completion_announced (config : Config) (calls : List HostCall) (n : Nat) :
    Announced ((HostCall.runRecorded config calls n).1 = .error .outOfFuel)
      (HostCall.runRecorded config calls n).2.host := by
  obtain ⟨⟨phase, hleads⟩, hends⟩ := HostCall.ends_runRecorded config calls n
  rcases hends with hfuel | ⟨s, hs, hopen, -⟩
  · exact hleads.announced fun _ _ => hfuel
  · obtain ⟨phase', hleads', hadmits⟩ := hs.record
    exact hleads'.announced fun next hdrained => (hadmits.not_drained hopen next hdrained).elim

/-- A text that is shown at once can be the last one in the queue, too, and that is not announced. -/
theorem completion_not_announced :
    let run := HostCall.runRecorded {} [.addPassage "P" "<<type 0s>>hi<</type>>", .navigate "P"] 20
    Returned run.1 ∧ run.2.host.map (·.queue) = [[], [], [], [0], [0], [0], [0]] ∧
      run.2.typeQueue = some [] ∧ ∀ m ∈ run.2.host, m.what ≠ .completed := by
  decide +kernel

end StoryEngine
