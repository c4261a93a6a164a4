import StoryEngine.Proofs.Builtin.Made
/-!
# StoryEngine.Proofs.Engine.MadeTasks

How the tasks of an engine are made up. All tasks but invocations are covered here. The callback of
an invoked handler does its work in the place of the handler, so `made_runCallback` says how it is
made up there, and what surrounds it is left to `Carried`.
-/

namespace StoryEngine

variable {σ : Type} {scope : Scope} {place : Place}

/-! ### Calls -/

/-- The entry is that of a built-in macro, and if it stands for the name `for`, it is the loop. -/
def isBuiltinEntry (name : String) (entry : MacroEntry (Handler Empty)) : Bool :=
  match entry.definition.handler with
  | some (.builtin b) => entry.aliasOf.getD name != "for" || b == .loop
  | _ => false

/-- There are no macros but the built-in ones. -/
theorem Registry.builtin_of_get? {name : String} {entry : MacroEntry (Handler Empty)}
    (h : (Registry.ofBuiltins Handler.builtin).get? name = some entry) :
    ∃ b, entry.definition.handler = some (.builtin b) ∧
      (entry.aliasOf.getD name = "for" → b = .loop) := by
  obtain ⟨hall, hlegacy⟩ : (Registry.ofBuiltins (@Handler.builtin Empty)).macros.all
        (fun (name, entry) => isBuiltinEntry name entry) = true ∧
      (Registry.ofBuiltins (@Handler.builtin Empty)).legacy.isEmpty = true := by
    decide +kernel
  rw [List.isEmpty_iff] at hlegacy
  have hentry : isBuiltinEntry name entry = true := by
    unfold Registry.get? at h
    rw [hlegacy] at h
    dsimp only at h
    split at h
    · rename_i found hfound
      cases h
      have hmem := Entries.mem_of_find? (Option.filter_eq_some_iff.mp hfound).1
      exact List.all_eq_true.mp hall _ hmem
    · cases h
  unfold isBuiltinEntry at hentry
  split at hentry
  · rename_i b hb
    refine ⟨b, hb, fun hfor => ?_⟩
    rw [hfor] at hentry
    simpa using hentry
  · cases hentry

/-- A call is made up of what its macro does in the context of the call. -/
theorem made_callMacro (out : OutputId) {entry : MacroEntry (Handler Empty)} {b : Builtin}
    {tag : Tag} (hfor : entry.aliasOf.getD tag.name = "for" → b = .loop) (clauses : List Clause)
    (source : String) :
    Made .rendering place fun p : Perform Empty σ =>
      callMacro (runHandler Host.idle p) out entry (.builtin b) tag clauses source := by
  refine .after (quickTo_openCall out entry tag clauses source) fun made hmade => ?_
  cases made with
  | none => exact .pure ()
  | some context =>
      have hcalls := hmade context rfl
      have hloop : context.call.name = "for" → ∃ Y : Perform Empty σ → Run Empty σ Unit,
          (fun p => runHandler Host.idle p (.builtin b) context) =
            fun p => Builtin.asLoop (Y p) := by
        intro hname
        rw [hcalls.name] at hname
        cases hfor hname
        exact ⟨_, rfl⟩
      refine .bind (.attempt (.call hcalls.outer hloop (Builtin.made_runBuiltin context b))) ?_
      rintro (f | u)
      · exact .quick (quick_showError _ _ _)
      · exact .pure ()

theorem made_renderTag (out : OutputId) (tag : Tag) (following : List Segment) :
    Made .rendering place fun p : Perform Empty σ =>
      renderTag (runHandler Host.idle p) out tag following := by
  refine .after .get fun e he => ?_
  rw [he.registry]
  dsimp only
  cases hentry : (Registry.ofBuiltins Handler.builtin).get? tag.name with
  | none => exact .next (quick_showError _ _ _) fun _ => .pure 0
  | some entry =>
      obtain ⟨b, hb, hfor⟩ := Registry.builtin_of_get? hentry
      dsimp only
      rw [hb]
      refine .ite (fun _ => ?_) fun _ => .bind (made_callMacro out hfor _ _) fun _ => .pure 0
      cases bodyFrom tag.name entry.definition.childTags 0 (.ofTag tag) 0 following with
      | error e => exact .next (quick_showError _ _ _) fun _ => .pure 0
      | ok body => exact .bind (made_callMacro out hfor _ _) fun _ => .pure body.next

theorem made_renderSegments (out : OutputId) (skip : Nat) (segments : List Segment) :
    Made .rendering place fun p : Perform Empty σ =>
      renderSegments (runHandler Host.idle p) out skip segments := by
  induction segments generalizing skip with
  | nil => exact .pure ()
  | cons segment rest ih =>
      cases skip with
      | succ skip => exact ih skip
      | zero =>
          refine .after .get fun e _ => .ite (fun _ => .pure ()) fun _ => ?_
          cases segment with
          | text s => exact .next (.changeTree fun _ _ _ => .pushText _ _) fun _ => ih 0
          | tag tag => exact .bind (made_renderTag out tag rest) ih

theorem made_render (out : OutputId) (source : String) :
    Made .render place fun p : Perform Empty σ =>
      StoryEngine.render (runHandler Host.idle p) out source :=
  .deeper (.get fun _ _ => quick_showError _ _ _) (made_renderSegments out 0 (segmentsOf source))

/-! ### Deferred work -/

theorem made_runCallback (callback : Callback Empty) (arg : HandlerArg) :
    Made .any place fun p : Perform Empty σ => runCallback Host.idle p callback arg := by
  cases callback with
  | payload contents => exact Builtin.made_runPayload contents
  | goTo title => exact .task trivial
  | repeatBody wrapper contents transition =>
      exact Builtin.made_runRepeatBody wrapper contents transition
  | timedBody wrapper transition =>
      cases arg with
      | item item => exact Builtin.made_runTimedBody wrapper transition item
      | nothing => exact .pure ()
      | value v => exact .pure ()
  | typeBody call => exact Builtin.made_runTypeBody call
  | host procedure => exact procedure.elim

theorem made_runPart? (arg : HandlerArg) (part : Option (Callback Empty)) :
    Made .any place fun p : Perform Empty σ => runPart? (runCallback Host.idle p) arg part := by
  cases part with
  | none => exact .pure ()
  | some callback => exact made_runCallback callback arg

theorem made_runListener (detail : String) (action : ListenerAction Empty) :
    Made .any place fun p : Perform Empty σ => runListener Host.idle p detail action := by
  cases action with
  | clearRepeats => exact .quick Builtin.quick_clearRepeats
  | clearTimed => exact .quick Builtin.quick_clearTimed
  | dropTyping => exact .quick Builtin.quick_dropTyping
  | startTyping => exact .task trivial
  | skipTyping typing => exact .quick (Builtin.quick_skipTyping typing detail)
  | nextTyping => exact Builtin.made_nextTyping
  | host procedure => exact procedure.elim

theorem made_runTimer {timer : Timer (TimerAction Empty)} (h : timer.action.Obeys place.mark) :
    Made .any place fun p : Perform Empty σ => runTimer Host.idle p timer := by
  obtain ⟨id, due, period, action⟩ := timer
  cases action with
  | repeatTick handler moment => exact Builtin.made_runRepeatTick id h
  | timedStep chain => exact Builtin.made_runTimedStep chain id
  | settle element className =>
      simp only [runTimer]
      exact .quick (.changeTree fun _ _ _ => .removeClass _ _)
  | beginTyping typing => exact Builtin.made_beginTyping typing
  | typeLetter typing => exact Builtin.made_typeLetter typing id
  | host procedure => exact procedure.elim

theorem made_reporting {X : Perform Empty σ → Run Empty σ Unit} (hX : Made scope place X) :
    Made scope place fun p => Run.reporting (X p) := by
  refine .bind (.attempt hX) ?_
  rintro (f | u)
  · exact .quick (.report f)
  · exact .pure ()

/-! ### Tasks -/

theorem made_callListeners (detail : String) (actions : List (ListenerAction Empty)) :
    Made .any place fun p : Perform Empty σ => callListeners Host.idle p detail actions := by
  induction actions with
  | nil => exact .pure ()
  | cons action rest ih => exact .bind (made_reporting (made_runListener detail action)) fun _ => ih

theorem made_trigger (event : Event) (detail : String) :
    Made .any place fun p : Perform Empty σ => trigger Host.idle p event detail := by
  refine .after .get fun e _ => .next (.modify fun e => ?_) fun _ => made_callListeners detail _
  exact .unlisten fun l => !(l.event = event && l.once)

theorem made_navigate (title : String) :
    Made .any place fun p : Perform Empty σ => navigate p title := by
  refine .after .get fun e _ => ?_
  cases Entries.find? title e.passages with
  | none => exact .quick (.fail _)
  | some source =>
      refine .bind (.move fun e => .turn title) fun _ => .bind (.task trivial) fun _ => ?_
      exact .bind (.shown source) fun _ => .task trivial

/-- A timer that fires was pending. -/
theorem quickTo_takeTimer (limit : Nat) :
    QuickTo place (fun timer? => ∀ timer, timer? = some timer → timer.action.Obeys place.mark)
      (takeTimer limit : Run Empty σ (Option (Timer (TimerAction Empty)))) := by
  intro e he
  refine .next rfl .refl ?_
  cases hdue : e.clock.takeDue limit with
  | none => exact .ofChanges rfl .refl nofun
  | some found =>
      obtain ⟨timer, clock⟩ := found
      refine .ofChanges rfl (.single (.clock clock (.takeDue hdue))) fun other hother => ?_
      cases hother
      exact he.parted.timers timer (Clock.mem_of_takeDue hdue)

theorem made_fireDue (limit fuel : Nat) :
    Made .any place fun p : Perform Empty σ => fireDue Host.idle p limit fuel := by
  induction fuel with
  | zero => exact .halt
  | succ fuel ih =>
      refine .after (quickTo_takeTimer limit) ?_
      rintro (_ | timer) hobeys
      · exact .pure ()
      · exact .bind (made_reporting (made_runTimer (hobeys timer rfl))) fun _ => ih

theorem made_advance (fuel ms : Nat) :
    Made .any place fun p : Perform Empty σ => advance Host.idle p fuel ms :=
  .after .get fun _ _ => .bind (made_fireDue _ fuel) fun _ => .quick (.changeClock (.setNow · _))

/-- All that an engine does is made up of quick work, tasks and brackets. -/
theorem made_performTask (fuel : Nat) {t : Task} (ht : t.IsFree) :
    ∃ scope, Made scope place fun p : Perform Empty σ => performTask Host.idle p fuel t := by
  cases t with
  | render out source => exact ⟨_, made_render out source⟩
  | trigger event detail => exact ⟨_, made_trigger event detail⟩
  | navigate title => exact ⟨_, made_navigate title⟩
  | invoke handler arg => exact ht.elim
  | startTyping => exact ⟨_, Builtin.made_startFirst⟩
  | advance ms => exact ⟨_, made_advance fuel ms⟩

end StoryEngine
