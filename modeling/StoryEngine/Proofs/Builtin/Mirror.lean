import StoryEngine.Proofs.Engine.TwinWork
/-!
# StoryEngine.Proofs.Builtin.Mirror

The built-in macros on an engine and on its twin that shows debug views. Both do the same, one
computation after the other; what the second one puts into debug views, the first one puts in the
place of the call.
-/

namespace StoryEngine

open Engine Run

variable {σ : Type} {g g₀ : Progress} {s : Spot} {rest : List Spot} {p p' q : Perform Empty σ}
  {call : MacroCall Empty} {E : Engine Empty σ → Engine Empty σ → Prop}

namespace Builtin

/-! ### Expressions and variables -/

theorem mirror_withExpression (hspots : g.spots = s :: rest) {goOn goOn' goOn'' : Value → Run Empty σ Unit}
    (h : ∀ value, Mirror (Twin g) (During g s call.id) (Same (Twin g)) (goOn value) (goOn' value)
      (goOn'' value)) :
    Mirror (Twin g) (During g s call.id) (Same (Twin g)) (withExpression (call.moved s.plain) goOn)
      (withExpression (call.moved s.plain) goOn') (withExpression (call.moved s.wrapped) goOn'') := by
  unfold withExpression
  dsimp only
  refine .ite (fun _ => .error hspots _) fun _ => ?_
  refine .seq (.sharedDuring (.evaluating _) (.refl g) call.id) fun result => ?_
  cases result with
  | error e => exact .error hspots _
  | ok value => exact h value

theorem mirror_runPrint (hp : MirrorTasks p p' q) (hspots : g.spots = s :: rest) :
    Mirror (Twin g) (During g s call.id) (Same (Twin g)) (runPrint p (call.moved s.plain))
      (runPrint p' (call.moved s.plain)) (runPrint q (call.moved s.wrapped)) := by
  refine mirror_withExpression hspots fun value => ?_
  refine .ite (fun _ => .leave (.pure ())) fun _ => (Mirror.target hspots).bind fun a b e d h => ?_
  obtain ⟨rfl, view, rfl, htwin⟩ := h
  -- the debug view is there, so the value is put into it
  have hle := g.le_within s call.id (some view)
  have hspot : (g.within s call.id (some view)).spots =
    ⟨s.plain, view.2, s.wrapped :: s.up⟩ :: g.spots := rfl
  refine Mirror.leave_le hle (.ite (fun _ => ?_) fun _ => ?_) e d htwin
  · exact .pushText hspot _
  · exact hp.render_le hle hspot _

theorem mirror_runSet (hspots : g.spots = s :: rest) :
    Mirror (Twin g) (During g s call.id) (Same (Twin g))
      (runSet (call.moved s.plain) : Run Empty σ Unit) (runSet (call.moved s.plain))
      (runSet (call.moved s.wrapped)) :=
  mirror_withExpression hspots fun _ => .leave (.showModes hspots _)

theorem mirror_runUnset (hspots : g.spots = s :: rest) :
    Mirror (Twin g) (During g s call.id) (Same (Twin g))
      (runUnset (call.moved s.plain) : Run Empty σ Unit) (runUnset (call.moved s.plain))
      (runUnset (call.moved s.wrapped)) := by
  unfold runUnset
  dsimp only
  refine .ite (fun _ => .error hspots _) fun _ => ?_
  exact .seq (.sharedDuring (shared_unsetAll _) (.refl g) call.id) fun _ =>
    .leave (.showModes hspots _)

/-! ### Capturing -/

theorem mirror_addShadows (names : List String) :
    Mirror (Twin g) (During g s call.id) (Same (During g s call.id))
      ((call.moved s.plain).addShadows names : Run Empty σ Unit)
      ((call.moved s.plain).addShadows names) ((call.moved s.wrapped).addShadows names) := by
  induction names with
  | nil => exact .pure ()
  | cons name rest ih =>
      refine .ite (fun _ => ?_) fun _ => .fail _ fun _ _ h => h.twin
      refine .seq (.during fun view? e d h => ?_) fun _ => ih
      exact ⟨.ok ⟨rfl, h.modifyShadows call.id _⟩, .inl rfl, .refl _⟩

theorem mirror_shadows :
    Mirror (Twin g) (During g s call.id) (Same (During g s call.id))
      ((call.moved s.plain).shadows : Run Empty σ (List String)) (call.moved s.plain).shadows
      (call.moved s.wrapped).shadows := by
  refine .during fun view? e d h => ⟨.ok ⟨?_, h⟩, .inl rfl, .refl _⟩
  exact h.shadows_eq call.id

/-- An overlay is in force in both engines, and is taken away in the end. -/
theorem mirror_underOverlay (overlay : Overlay) {id : Nat} {x x' y : Run Empty σ Unit}
    (h : Mirror (Twin g) (During g s id) (Same (Twin g)) x x' y) :
    Mirror (Twin g) (During g s id) (Same (Twin g)) (underOverlay overlay x)
      (underOverlay overlay x') (underOverlay overlay y) := by
  refine .get (fun _ _ h => h.dressed) (fun _ _ => rfl) fun e => ?_
  refine .seq (.sharedDuring ?_ (.refl g) id) fun _ => .andFinally h (fun _ _ => rfl) fun _ => ⟨rfl, rfl⟩
  exact .modify (fun _ _ => rfl) fun _ => ⟨rfl, rfl⟩

theorem mirror_runCapture (hp : MirrorTasks p p' q) (hspots : g.spots = s :: rest) :
    Mirror (Twin g) (During g s call.id) (Same (Twin g)) (runCapture p (call.moved s.plain))
      (runCapture p' (call.moved s.plain)) (runCapture q (call.moved s.wrapped)) := by
  unfold runCapture
  dsimp only
  refine .ite (fun _ => .error hspots _) fun _ => .seq (mirror_addShadows _) fun _ => ?_
  refine .seq mirror_shadows fun names => ?_
  refine .seq (.sharedDuring (.snapshot names) (.refl g) call.id) fun overlay => ?_
  exact mirror_underOverlay overlay (.leave (hp.renderTarget hspots call call.contents))

/-! ### Conditions -/

/-- Whether debug views are shown matters for assignments in conditions only. -/
theorem clauseFault?_true (index following : Nat) (clause : PayloadClause) :
    clauseFault? true index following clause = clauseFault? false index following clause ∨
      ∃ rest, clauseFault? true index following clause =
        some ("assignment operator found within <<" ++ rest) := by
  unfold clauseFault?
  dsimp only
  by_cases helse : (clause.name == "else") = true
  · rw [if_pos helse, if_pos helse]
    exact .inl rfl
  · by_cases hempty : (trimText clause.args.raw).isEmpty = true
    · rw [if_neg helse, if_neg helse, if_pos hempty, if_pos hempty]
      exact .inl rfl
    · rw [if_neg helse, if_neg helse, if_neg hempty, if_neg hempty]
      by_cases hassigns : hasAssignment (trimText clause.args.raw) = true
      · rw [hassigns]
        refine .inr ⟨clause.name ++ (">> clause" ++ (clauseNumber index ++
          (" (perhaps you meant to use an equality operator: ==, ===, eq, is), invalid: " ++
          trimText clause.args.raw))), ?_⟩
        simp only [Bool.and_self, if_true, String.append_assoc]
      · exact .inl (by simp only [hassigns, Bool.and_false])

theorem firstFault?_true (index : Nat) (clauses : List PayloadClause) :
    firstFault? true index clauses = firstFault? false index clauses ∨
      ∃ rest, firstFault? true index clauses =
        some ("assignment operator found within <<" ++ rest) := by
  induction clauses generalizing index with
  | nil => exact .inl rfl
  | cons clause rest ih =>
      rw [firstFault?, firstFault?]
      rcases clauseFault?_true index rest.length clause with hsame | ⟨text, hfault⟩
      · rw [hsame]
        cases clauseFault? false index rest.length clause with
        | none => exact ih (index + 1)
        | some fault => exact .inl rfl
      · rw [hfault]
        exact .inr ⟨text, rfl⟩

/-- Run the conditional macro, and look closely at its clauses or not. -/
def chooseWith (perform : Perform Empty σ) (call : MacroCall Empty) (isClose isDebug : Bool) :
    Run Empty σ Unit :=
  match firstFault? isClose 0 call.payload with
  | some fault => call.error fault
  | none => chooseFrom perform call isDebug 0 call.payload

theorem chooseWith_of_fault (perform : Perform Empty σ) (call : MacroCall Empty) {isClose : Bool}
    {fault : String} (h : firstFault? isClose 0 call.payload = some fault) (isDebug : Bool) :
    chooseWith perform call isClose isDebug = call.error fault := by
  rw [chooseWith, h]

theorem chooseWith_of_none (perform : Perform Empty σ) (call : MacroCall Empty) {isClose : Bool}
    (h : firstFault? isClose 0 call.payload = none) (isDebug : Bool) :
    chooseWith perform call isClose isDebug = chooseFrom perform call isDebug 0 call.payload := by
  rw [chooseWith, h]

/-- A debug view for a clause is seen in the one engine only. -/
theorem mirror_clauseView (hspots : g.spots = s :: rest) (name title : String)
    (modes : List (String × Bool)) :
    Mirror (σ := σ) (Twin g) (During g s call.id) (Same (During g s call.id)) (pure ()) (pure ())
      (clauseView (call.moved s.wrapped) name title modes) := by
  intro e d h
  obtain ⟨d', view, inside, hmake, htwin, hextend⟩ :=
    h.createView_apply hspots (some name) (some title)
  have hmodes : d'.tree.Extends (d'.tree.setModes view modes) := .setModes d'.tree view modes
  have hview : clauseView (call.moved s.wrapped) name title modes d =
      (.ok (), { d' with tree := d'.tree.setModes view modes }) := by
    rw [clauseView, bind_of_ok hmake]
    rfl
  refine ⟨?_, .inl rfl, ?_⟩
  · rw [hview]
    have hswitched : Twin (g.within s call.id (some (view, inside))) e
        { d' with tree := d'.tree.setModes view modes } :=
      htwin.withTrees hmodes rfl rfl (fun _ hx => .inl hx) fun _ hscene => hscene.setModes _ _
    exact .ok ⟨rfl, _, hswitched⟩
  · rw [hview]
    exact hextend.trans hmodes

theorem mirror_skippedViews (hspots : g.spots = s :: rest) (clauses : List PayloadClause) :
    Mirror (σ := σ) (Twin g) (During g s call.id) (Same (During g s call.id)) (pure ()) (pure ())
      (skippedViews (call.moved s.wrapped) clauses) := by
  induction clauses with
  | nil => exact .pure ()
  | cons clause rest ih => exact .before (mirror_clauseView hspots _ _ _) ih

theorem mirror_closingViews (hspots : g.spots = s :: rest) (found : Bool)
    (after : List PayloadClause) :
    Mirror (σ := σ) (Twin g) (During g s call.id) (Same (During g s call.id))
      (closingViews (call.moved s.plain) false found after)
      (closingViews (call.moved s.plain) false found after)
      (closingViews (call.moved s.wrapped) true found after) :=
  .before (mirror_skippedViews hspots after) (mirror_clauseView hspots _ _ _)

theorem mirror_chooseFrom (hp : MirrorTasks p p' q) (hspots : g.spots = s :: rest)
    (index : Nat) (clauses : List PayloadClause) :
    Mirror (Twin g) (During g s call.id) (Same (Twin g))
      (chooseFrom p (call.moved s.plain) false index clauses)
      (chooseFrom p' (call.moved s.plain) false index clauses)
      (chooseFrom q (call.moved s.wrapped) true index clauses) := by
  induction clauses generalizing index with
  | nil => exact .leave (mirror_closingViews hspots false [])
  | cons clause rest ih =>
      refine .before (mirror_clauseView hspots _ _ _) ?_
      refine .seq (.sharedDuring (shared_clauseHolds clause) (.refl g) call.id) fun result => ?_
      cases result with
      | error e => exact .error hspots _
      | ok holds =>
          cases holds with
          | true =>
              exact hp.renderTarget_seq hspots call _ (.leave (mirror_closingViews hspots true rest))
          | false => exact .seq (.showModes hspots _) fun _ => ih (index + 1)

/-- The error about an assignment is displayed. -/
theorem hasAssignment_error {e d : Engine Empty σ} (h : During g s call.id e d)
    (hspots : g.spots = s :: rest) (text : String) :
    ((call.moved s.wrapped).error ("assignment operator found within <<" ++ text) d).2.tree.HasAssignment := by
  obtain ⟨slots, hpair, -⟩ := h.twin
  have hmade := (hpair.scene.made (s := s) (by simp [Progress.scene, hspots])).2
  refine ⟨s.wrapped, Tree.errorView ((call.moved s.wrapped).errorText
    ("assignment operator found within <<" ++ text)) call.source, ?_, call.displayName, text, ?_⟩
  · change _ ∈ (d.tree.append s.wrapped _).nodes s.wrapped
    rw [Tree.append, Tree.nodes_modifyNodes hmade]
    simp
  · simp [Tree.errorView, MacroCall.errorText]

theorem mirror_runChoose (hp : MirrorTasks p p' q) (hspots : g.spots = s :: rest) :
    Mirror (Twin g) (During g s call.id) (Same (Twin g)) (runChoose p (call.moved s.plain))
      (chooseWith p' (call.moved s.plain) true false) (runChoose q (call.moved s.wrapped)) := by
  intro e d h
  obtain ⟨slots, hpair, -⟩ := h.twin
  have hrun (perform : Perform Empty σ) (call : MacroCall Empty) (e : Engine Empty σ) :
      runChoose perform call e = chooseWith perform call e.config.debug e.config.debug e := rfl
  have hplain := hrun p (call.moved s.plain) e
  have hwrapped := hrun q (call.moved s.wrapped) d
  rw [hpair.plain] at hplain
  rw [hpair.wrapped] at hwrapped
  refine .congr ?_ hplain rfl hwrapped
  cases hfault : firstFault? true 0 call.payload with
  | none =>
      have hnone : firstFault? false 0 call.payload = none := by
        rcases firstFault?_true 0 call.payload with hsame | ⟨text, htext⟩
        · rw [← hsame, hfault]
        · rw [hfault] at htext
          cases htext
      rw [chooseWith_of_none p (call.moved s.plain) hnone,
        chooseWith_of_none p' (call.moved s.plain) hfault,
        chooseWith_of_none q (call.moved s.wrapped) hfault]
      exact mirror_chooseFrom hp hspots 0 call.payload e d h
  | some fault =>
      have herror := Mirror.error (E := Twin g) hspots fault e d h
      rw [chooseWith_of_fault p' (call.moved s.plain) hfault,
        chooseWith_of_fault q (call.moved s.wrapped) hfault]
      rcases firstFault?_true 0 call.payload with hsame | ⟨text, htext⟩
      · rw [chooseWith_of_fault p (call.moved s.plain) (hsame.symm.trans hfault)]
        exact herror
      · -- the plain engine may go on, but the error is displayed
        cases hfault.symm.trans htext
        exact ⟨herror.meet, .inr (hasAssignment_error h hspots text), herror.extend⟩

/-! ### Loops -/

theorem mirror_hideBlank (hspots : g.spots = s :: rest) (body : List Char) :
    Mirror (σ := σ) (Twin g) (During g s call.id) (Same (During g s call.id))
      (hideBlank (call.moved s.plain) body) (hideBlank (call.moved s.plain) body)
      (hideBlank (call.moved s.wrapped) body) :=
  .ite (fun _ => .showModes hspots _) fun _ => .pure ()

theorem mirror_renderPass (hp : MirrorTasks p p' q) (hspots : g.spots = s :: rest)
    (body : List Char) (isFirst : Bool) :
    Mirror (Twin g) (During g s call.id) (Same (During g s call.id))
      (renderPass p (call.moved s.plain) body isFirst)
      (renderPass p' (call.moved s.plain) body isFirst)
      (renderPass q (call.moved s.wrapped) body isFirst) :=
  hp.renderTarget_seq hspots call _ (.sharedDuring shared_takeBreak (.refl g) call.id)

theorem mirror_tooManyPasses (hspots : g.spots = s :: rest) :
    Mirror (σ := σ) (Twin g) (During g s call.id) (Same (Twin g))
      (tooManyPasses >>= fun text => (call.moved s.plain).error text)
      (tooManyPasses >>= fun text => (call.moved s.plain).error text)
      (tooManyPasses >>= fun text => (call.moved s.wrapped).error text) :=
  .seq (.sharedDuring shared_tooManyPasses (.refl g) call.id) fun text => .error hspots text

theorem mirror_loopSteps (hp : MirrorTasks p p' q) (hspots : g.spots = s :: rest)
    (body : List Char) (condition post : Option String) (remaining : Nat) (isFirst : Bool) :
    Mirror (Twin g) (During g s call.id) (Same (Twin g))
      (loopSteps p (call.moved s.plain) body condition post remaining isFirst)
      (loopSteps p' (call.moved s.plain) body condition post remaining isFirst)
      (loopSteps q (call.moved s.wrapped) body condition post remaining isFirst) := by
  induction remaining generalizing isFirst with
  | zero =>
      unfold loopSteps
      refine .seq (.sharedDuring (shared_conditionHolds condition) (.refl g) call.id) fun holds => ?_
      cases holds with
      | error e => exact .error hspots _
      | ok holds =>
          cases holds with
          | false => exact .leave (.pure ())
          | true => exact mirror_tooManyPasses hspots
  | succ remaining ih =>
      unfold loopSteps
      refine .seq (.sharedDuring (shared_conditionHolds condition) (.refl g) call.id) fun holds => ?_
      cases holds with
      | error e => exact .error hspots _
      | ok holds =>
          cases holds with
          | false => exact .leave (.pure ())
          | true =>
              refine .seq (mirror_renderPass hp hspots body isFirst) fun isLeft => ?_
              refine .ite (fun _ => .leave (.pure ())) fun _ => ?_
              refine .seq (.sharedDuring (shared_evaluatePart post) (.refl g) call.id) fun fault? => ?_
              cases fault? with
              | some e => exact .error hspots _
              | none => exact ih false

theorem mirror_loopRange (hp : MirrorTasks p p' q) (hspots : g.spots = s :: rest)
    (body : List Char) (key value : Option String) (remaining : Nat) (isFirst : Bool)
    (entries : RangeEntries) :
    Mirror (Twin g) (During g s call.id) (Same (Twin g))
      (loopRange p (call.moved s.plain) body key value remaining isFirst entries)
      (loopRange p' (call.moved s.plain) body key value remaining isFirst entries)
      (loopRange q (call.moved s.wrapped) body key value remaining isFirst entries) := by
  induction remaining generalizing isFirst entries with
  | zero =>
      unfold loopRange
      cases entries.next? with
      | none => exact .leave (.pure ())
      | some entry => exact mirror_tooManyPasses hspots
  | succ remaining ih =>
      unfold loopRange
      cases entries.next? with
      | none => exact .leave (.pure ())
      | some entry =>
          refine .seq (.sharedDuring (shared_setVariable _ key) (.refl g) call.id) fun _ => ?_
          refine .seq (.sharedDuring (shared_setVariable _ value) (.refl g) call.id) fun _ => ?_
          refine .seq (mirror_renderPass hp hspots body isFirst) fun isLeft => ?_
          exact .ite (fun _ => .leave (.pure ())) fun _ => ih false entry.2

theorem mirror_runForm (hp : MirrorTasks p p' q) (hspots : g.spots = s :: rest)
    (body : List Char) (form : LoopForm) :
    Mirror (Twin g) (During g s call.id) (Same (Twin g)) (runForm p (call.moved s.plain) body form)
      (runForm p' (call.moved s.plain) body form) (runForm q (call.moved s.wrapped) body form) := by
  cases form with
  | malformed message => exact .error hspots message
  | steps init condition post =>
      refine .seq (mirror_hideBlank hspots body) fun _ => ?_
      refine .seq (.sharedDuring (shared_evaluatePart init) (.refl g) call.id) fun fault? => ?_
      cases fault? with
      | some e => exact .error hspots _
      | none =>
          refine .get (fun _ _ h => h.dressed) (fun _ _ => rfl) fun e => ?_
          exact mirror_loopSteps hp hspots body condition post _ true
  | range key value collection =>
      refine .seq (.sharedDuring (.evaluating _) (.refl g) call.id) fun result => ?_
      cases result with
      | error e => exact .error hspots _
      | ok collection =>
          dsimp only
          cases rangeEntries collection with
          | error message => exact .error hspots message
          | ok entries =>
              refine .seq (mirror_hideBlank hspots body) fun _ => ?_
              refine .get (fun _ _ h => h.dressed) (fun _ _ => rfl) fun e => ?_
              exact mirror_loopRange hp hspots body key value _ true entries

theorem mirror_runLoop (hp : MirrorTasks p p' q) (hspots : g.spots = s :: rest) :
    Mirror (Twin g) (During g s call.id) (Same (Twin g)) (runLoop p (call.moved s.plain))
      (runLoop p' (call.moved s.plain)) (runLoop q (call.moved s.wrapped)) := by
  refine .seq (.sharedDuring ?_ (.refl g) call.id) fun _ =>
    .andFinally (mirror_runForm hp hspots _ _) (fun _ _ => rfl) fun _ => ⟨rfl, rfl⟩
  exact .modify (fun _ _ => rfl) fun _ => ⟨rfl, rfl⟩

theorem mirror_runLoopControl (hspots : g.spots = s :: rest) {outer outer' : List (MacroCall Empty)}
    (hidents : outer'.map MacroCall.ident = outer.map MacroCall.ident) :
    Mirror (σ := σ) (Twin g) (During g s call.id) (Same (Twin g))
      (runLoopControl ⟨call.moved s.plain, outer⟩) (runLoopControl ⟨call.moved s.plain, outer⟩)
      (runLoopControl ⟨call.moved s.wrapped, outer'⟩) := by
  have hany : outer'.any (fun call => call.name == "for") =
      outer.any fun call => call.name == "for" := by
    have hnames := congrArg (List.any · fun ident => ident.2 == "for") hidents
    simpa [List.any_map, Function.comp_def, MacroCall.ident] using hnames
  unfold runLoopControl
  dsimp only
  rw [hany]
  refine .ite (fun _ => ?_) fun _ => .error hspots _
  refine .seq (.sharedDuring ?_ (.refl g) call.id) fun _ => .leave (.showModes hspots _)
  exact .modify (fun _ _ => rfl) fun _ => ⟨rfl, rfl⟩

theorem mirror_runStop (hspots : g.spots = s :: rest) :
    Mirror (σ := σ) (Twin g) (During g s call.id) (Same (Twin g)) (runStop (call.moved s.plain))
      (runStop (call.moved s.plain)) (runStop (call.moved s.wrapped)) := by
  refine .get (fun _ _ h => h.dressed) (fun _ _ => rfl) fun e => ?_
  cases e.repeatTimer with
  | none => exact .error hspots _
  | some id =>
      refine .seq (.sharedDuring (.changeClock _) (.refl g) call.id) fun _ => ?_
      refine .seq (.sharedDuring (shared_forgetAmongRepeats id) (.refl g) call.id) fun _ => ?_
      refine .seq (.sharedDuring ?_ (.refl g) call.id) fun _ => .leave (.showModes hspots _)
      exact .modify (fun _ _ => rfl) fun _ => ⟨rfl, rfl⟩

/-! ### Links -/

theorem mirror_showImage {element : ElementId} {o w out : OutputId} (first : Value) :
    Mirror E (Twin (g.filling element o w out)) (Same (Twin (g.filling element o w out)))
      (showImage element first) (showImage element first) (showImage element first) := by
  have hspot : (g.filling element o w out).spots = ⟨o, w, []⟩ :: g.spots := rfl
  refine (Mirror.appendElement hspot (fun e d h => ?_) "img").bind fun image image' e d h => ?_
  · exact h.content_eq List.mem_cons_self List.mem_cons_self
  · obtain ⟨rfl, h⟩ := h
    have h := h.of_le (Progress.le_free _ _)
    cases textMember? first "source" with
    | none => exact Mirror.decorate (.addClass _ _) e d h
    | some source => exact Mirror.seq (.decorate (.setAttr _ _ _)) (fun _ => .decorate (.addClass _ _)) e d h

theorem mirror_fillLink (hp : MirrorTasks p p' q) {element : ElementId} {o w out : OutputId}
    (hle : g₀.Le (g.filling element o w out)) (first : Value) :
    Mirror (Twin g₀) (Twin (g.filling element o w out)) (Same (Twin (g.filling element o w out)))
      (fillLink p (call.moved s.plain) element first) (fillLink p' (call.moved s.plain) element first)
      (fillLink q (call.moved s.wrapped) element first) := by
  have hspot : (g.filling element o w out).spots = ⟨o, w, []⟩ :: g.spots := rfl
  refine (Mirror.content List.mem_cons_self List.mem_cons_self).bind fun content content' => ?_
  intro e d h
  obtain ⟨⟨rfl, rfl⟩, h⟩ := h
  refine Mirror.ite (fun _ => ?_) (fun _ => .ite (fun _ => ?_) fun _ => ?_) e d h
  · exact .seq (mirror_showImage first) fun _ => .pure _
  · refine .seq (.pushText hspot _) fun _ => .ite (fun _ => ?_) fun _ => .pure _
    refine .seq (.decorate ?_) fun _ => .pure _
    exact .comp (.addClass _ _) (.setAttr _ _ _)
  · exact .seq (hp.render_le hle hspot _) fun _ => .pure _

theorem mirror_labelLink (element : ElementId) (passage : Option String) :
    Mirror E (During g s call.id) (Same (During g s call.id))
      (labelLink element passage) (labelLink element passage) (labelLink element passage) := by
  cases passage with
  | none => exact .during fun _ => .decorate (.unless (.addClass _ _) _ _)
  | some title =>
      refine .get (fun _ _ h => h.dressed) (fun _ _ => rfl) fun e => ?_
      refine .during fun _ => .decorate ?_
      exact .comp (.setAttr _ _ _) (.addClass _ _)

theorem mirror_makeClickable (hle : g₀.Le g) (context context' : Context Empty)
    (element : ElementId) (contents : String) (passage : Option String) :
    Mirror (σ := σ) (Twin g₀) (During g s call.id) (Same (During g s call.id))
      (makeClickable context element contents passage)
      (makeClickable context element contents passage)
      (makeClickable context' element contents passage) := by
  refine .seq (.during fun _ => .make context context' none _ _) fun handler => ?_
  refine .sharedDuring ?_ hle call.id
  exact .modify (fun _ _ => rfl) fun _ => ⟨rfl, rfl⟩

theorem mirror_runLink (hp : MirrorTasks p p' q) (hspots : g.spots = s :: rest)
    (outer outer' : List (MacroCall Empty)) :
    Mirror (Twin g) (During g s call.id) (Same (Twin g)) (runLink p ⟨call.moved s.plain, outer⟩)
      (runLink p' ⟨call.moved s.plain, outer⟩) (runLink q ⟨call.moved s.wrapped, outer'⟩) := by
  unfold runLink
  simp only [MacroCall.moved_args, MacroCall.moved_name, MacroCall.moved_contents]
  cases call.args.values with
  | nil => exact .error hspots _
  | cons first others =>
      intro e d h
      obtain ⟨view?, h⟩ := h
      have hle := g.le_within s call.id view?
      have hs : s ∈ (g.within s call.id view?).spots := hle.spots.subset (by simp [hspots])
      refine MirrorAt.bind (Mirror.newElement hs _ e d h) fun _ element e d h => ?_
      obtain ⟨rfl, o, w, h⟩ := h
      have hfill := hle.trans ((g.within s call.id view?).le_filling element o w s.plain)
      refine MirrorAt.bind (mirror_fillLink hp hfill first e d h) fun _ passage e d h => ?_
      obtain ⟨rfl, h⟩ := h
      -- the element is filled, and is put where the call writes by then
      have hheld : During (g.holding element s.plain) s call.id e d :=
        ⟨view?, h.of_le ((g.within s call.id view?).holding_le_filling element o w s.plain)⟩
      have hhold := g.le_holding element s.plain
      have hspot : (g.holding element s.plain).spots = s :: rest := hspots
      refine Mirror.seq (mirror_labelLink element passage) (fun _ => ?_) e d hheld
      refine .seq (.during fun _ => .decorate (.addClass _ _)) fun _ => ?_
      refine .seq (mirror_makeClickable hhold _ _ element _ passage) fun _ => ?_
      refine (Mirror.target hspot).bind fun a b e d h => ?_
      obtain ⟨rfl, view, rfl, h⟩ := h
      have hview : (g.within s call.id (some view)).spots =
        ⟨s.plain, view.2, s.wrapped :: s.up⟩ :: g.spots := rfl
      exact (Mirror.leave_le ((g.le_within _ _ _).trans (Progress.le_free _ _))
        (.append hview)) e d h

/-! ### Intervals and chains -/

theorem mirror_runRepeat (hspots : g.spots = s :: rest) (outer outer' : List (MacroCall Empty)) :
    Mirror (σ := σ) (Twin g) (During g s call.id) (Same (Twin g))
      (runRepeat ⟨call.moved s.plain, outer⟩) (runRepeat ⟨call.moved s.plain, outer⟩)
      (runRepeat ⟨call.moved s.wrapped, outer'⟩) := by
  unfold runRepeat
  simp only [MacroCall.moved_args, MacroCall.moved_name, MacroCall.moved_contents]
  cases call.args.text? 0 with
  | none => exact .error hspots _
  | some time =>
      refine .get (fun _ _ h => h.dressed) (fun _ _ => rfl) fun e => ?_
      cases delayOf time e.config.domDelayMs with
      | error e => exact .error hspots _
      | ok delay =>
          refine .seq (.showModes hspots _) fun _ => .appendTarget hspots "span" fun wrapper => ?_
          refine .seq (.during fun _ => .decorate (.addClass _ _)) fun _ => ?_
          refine .seq (.during fun _ => .make _ _ none _ none) fun handler => ?_
          exact .leave (.sharedDuring (shared_startInterval handler delay) (.refl g) call.id)

theorem mirror_makeChain (context context' : Context Empty) (body : Callback Empty)
    (items : List TimedItem) :
    Mirror (σ := σ) (Twin g) (During g s call.id) (Same (During g s call.id))
      (makeChain context body items) (makeChain context body items)
      (makeChain context' body items) := by
  refine .seq (.during fun _ => .make context context' none _ none) fun handler => ?_
  refine .sharedDuring (.bind .moment fun moment => .get (fun e => ?_) fun _ _ => rfl) (.refl g) call.id
  refine .bind ?_ fun _ => .pure _
  exact .modify (fun _ _ => rfl) fun _ => ⟨rfl, rfl⟩

theorem mirror_runTimed (hspots : g.spots = s :: rest) (outer outer' : List (MacroCall Empty)) :
    Mirror (σ := σ) (Twin g) (During g s call.id) (Same (Twin g))
      (runTimed ⟨call.moved s.plain, outer⟩) (runTimed ⟨call.moved s.plain, outer⟩)
      (runTimed ⟨call.moved s.wrapped, outer'⟩) := by
  have hitems (out : OutputId) (floor : Nat) :
      timedItems (call.moved out) floor = timedItems call floor := rfl
  unfold runTimed
  simp only [MacroCall.moved_args, MacroCall.moved_name, hitems]
  refine .get (fun _ _ h => h.dressed) (fun _ _ => rfl) fun e => ?_
  cases timedItems call e.config.domDelayMs with
  | error message => exact .error hspots _
  | ok items =>
      refine .seq (.showModes hspots _) fun _ => .appendTarget hspots "span" fun wrapper => ?_
      refine .seq (.during fun _ => .decorate (.addClass _ _)) fun _ => ?_
      refine .seq (mirror_makeChain _ _ _ _) fun chain => ?_
      exact .leave (.sharedDuring (shared_startChain chain _) (.refl g) call.id)

end Builtin

end StoryEngine
