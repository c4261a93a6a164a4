import StoryEngine.Proofs.Builtin.Aside
import StoryEngine.Proofs.Engine.Border
/-!
# StoryEngine.Proofs.Builtin.Border

What contexts and built-in macros do beyond a border. A call that was made beyond it and stands
there has its output and its debug views there, so whatever its macro displays is displayed there
too. What a macro asks for is asked for beyond the border as well (`Border.Bounds`).
-/

namespace StoryEngine

variable {σ α : Type} {b : Border} {e e₀ : Engine Empty σ}

/-! ### Contexts -/

/-- The call was made beyond the border, and stands there. -/
structure MacroCall.StandsBeyond (b : Border) (call : MacroCall Empty) : Prop where
  id : b.calls ≤ call.id
  output : b.extent.outputs ≤ call.output.index

namespace MacroCall

variable {call : MacroCall Empty}

theorem beyond_state (hcall : call.StandsBeyond b) :
    BeyondTo b (fun s => ∀ view, s.view = some view → b.extent.views ≤ view.index)
      (call.state : Run Empty σ CallState) := by
  refine .get fun e he => .pure ?_
  cases hs : e.calls[call.id]? with
  | none => exact fun view hview => by cases hview
  | some s => exact he.views call.id s hcall.id hs

theorem beyond_modifyState {change : CallState → CallState}
    (h : ∀ s, (∀ view, s.view = some view → b.extent.views ≤ view.index) →
      ∀ view, (change s).view = some view → b.extent.views ≤ view.index) :
    Beyond b (call.modifyState change : Run Empty σ Unit) :=
  .modify fun _ he => .modifyCall he call.id h

theorem beyond_createView (hcall : call.StandsBeyond b) (name title : Option String) :
    BeyondTo b (fun view => b.extent.views ≤ view.index)
      (call.createView name title : Run Empty σ ViewId) := by
  refine .bind (.withTree fun t ht => ⟨.appendView ht.extent hcall.output _ _ _, ht.extent.views⟩)
    fun view hview => .bindUnless (.changeTree fun t _ => .setModes hview _) ?_
  refine .seq (beyond_modifyState fun s _ other hother => ?_) fun _ => .pure hview
  cases hother
  exact hview

theorem beyond_view? (hcall : call.StandsBeyond b) :
    BeyondTo b (fun view => ∀ id, view = some id → b.extent.views ≤ id.index)
      (call.view? : Run Empty σ (Option ViewId)) := by
  refine .bind (beyond_state hcall) fun s hs => ?_
  split
  · exact .pure fun id hid => by cases hid
  · split
    · rename_i view hview
      refine .pure fun id hid => ?_
      cases hid
      exact hs view hview
    · refine .bind (beyond_createView hcall none none) fun view hview => .pure fun id hid => ?_
      cases hid
      exact hview

theorem beyond_target (hcall : call.StandsBeyond b) :
    BeyondTo b (fun out => b.extent.outputs ≤ out.index)
      (call.target : Run Empty σ OutputId) := by
  refine .bind (beyond_view? hcall) fun view hview => ?_
  split
  · exact .fromTree fun t ht => ht.le_inside (hview _ rfl)
  · exact .pure hcall.output

theorem beyond_showModes (hcall : call.StandsBeyond b) (modes : List String) :
    Beyond b (call.showModes modes : Run Empty σ Unit) := by
  refine .bind (beyond_view? hcall) fun view hview => ?_
  split
  · exact .changeTree fun t _ => .setModes (hview _ rfl) _
  · exact .pure trivial

theorem beyond_error (hcall : call.StandsBeyond b) (message : String) :
    Beyond b (call.error message : Run Empty σ Unit) :=
  .changeTree fun _ _ => .appendError hcall.output _ _

theorem beyond_shadows (hcall : call.StandsBeyond b) :
    Beyond b (call.shadows : Run Empty σ (List String)) :=
  .seq (beyond_state hcall).forget fun _ => .pure trivial

theorem beyond_addShadows (names : List String) :
    Beyond b (call.addShadows names : Run Empty σ Unit) := by
  induction names with
  | nil => exact .pure trivial
  | cons name rest ih =>
      unfold addShadows
      split
      · exact .seq (beyond_modifyState fun s hs => hs) fun _ => ih
      · exact .fail _

end MacroCall

theorem beyond_snapshot (names : List String) :
    Beyond b (snapshot names : Run Empty σ Overlay) :=
  .get fun _ _ => .pure trivial

/-! ### Brackets -/

theorem beyond_inContext (context : Context Empty) {x : Run Empty σ Unit} (hx : Beyond b x) :
    Beyond b (inContext context x) :=
  .get fun _ _ => .seq (.still fun _ => ⟨rfl, rfl⟩) fun _ => hx.andThen fun _ => ⟨rfl, rfl⟩

theorem beyond_underOverlay (overlay : Overlay) {x : Run Empty σ Unit} (hx : Beyond b x) :
    Beyond b (underOverlay overlay x) :=
  .get fun _ _ => .seq (.still fun _ => ⟨rfl, rfl⟩) fun _ => hx.andThen fun _ => ⟨rfl, rfl⟩

theorem beyond_deeper {tooDeep x : Run Empty σ Unit} (hdeep : Beyond b tooDeep) (hx : Beyond b x) :
    Beyond b (deeper tooDeep x) := by
  intro e he
  unfold BeyondFrom
  rw [deeper_apply]
  split
  · rename_i h
    have hdown : b.Leads e (e.descend h) := .still he (.of_eq rfl) rfl
    have hinner : Beyond b (Run.andFinally x Engine.ascend) := hx.andThen fun _ => ⟨rfl, rfl⟩
    exact hinner.after hdown
  · exact hdeep e he

/-! ### Opening a call -/

theorem Context.beyond_make (data : ContextData Empty) {out : OutputId}
    (hdata : data.output = some out) (hout : b.extent.outputs ≤ out.index) :
    BeyondTo b (fun context => context.call.StandsBeyond b)
      (Context.make data : Run Empty σ (Context Empty)) := by
  unfold Context.make
  split
  · exact .fail _
  · split
    · exact .fail _
    · split
      · exact .fail _
      · rename_i output houtput
        obtain rfl : out = output := Option.some.inj (hdata.symm.trans houtput)
        refine .get fun e he => .bind (.modify fun e he => .pushCall he _) fun _ _ => .pure ?_
        exact ⟨he.calls_le, hout⟩

theorem beyond_callArguments (definition : Definition (Handler Empty)) (raw : String) :
    Beyond b (callArguments definition raw :
      Run Empty σ (Except ArgumentError ArgumentList)) := by
  unfold callArguments
  split
  · exact .pure trivial
  · exact .reading (reassigns_readArguments raw)

theorem beyond_payloadClauses (definition : Definition (Handler Empty)) (clauses : List Clause) :
    Beyond b (payloadClauses definition clauses :
      Run Empty σ (Except ArgumentError (List PayloadClause))) := by
  induction clauses with
  | nil => exact .pure trivial
  | cons clause rest ih =>
      refine .seq (beyond_callArguments definition clause.args) fun args => ?_
      split
      · exact .pure trivial
      · refine .seq ih fun clauses => ?_
        split
        · exact .pure trivial
        · exact .pure trivial

theorem beyond_showError {out : OutputId} (hout : b.extent.outputs ≤ out.index)
    (message source : String) : Beyond b (showError out message source : Run Empty σ Unit) :=
  .changeTree fun _ _ => .appendError hout _ _

theorem beyond_openCall {out : OutputId} (hout : b.extent.outputs ≤ out.index)
    (entry : MacroEntry (Handler Empty)) (tag : Tag) (clauses : List Clause) (source : String) :
    BeyondTo b (fun made => ∀ context, made = some context → context.call.StandsBeyond b)
      (openCall out entry tag clauses source : Run Empty σ (Option (Context Empty))) := by
  have hnone {message : String} : BeyondTo b
      (fun made : Option (Context Empty) =>
        ∀ context, made = some context → context.call.StandsBeyond b)
      (showError out message source >>= fun _ => pure none : Run Empty σ (Option (Context Empty))) :=
    .bind (beyond_showError hout _ _) fun _ _ => .pure fun context hcontext => by cases hcontext
  refine .bind (beyond_callArguments _ _) fun args _ => ?_
  split
  · exact hnone
  · refine .bind (beyond_payloadClauses _ _) fun payload _ => ?_
    split
    · exact hnone
    · refine .get fun e _ => .bind (Context.beyond_make _ rfl hout).attempt fun made hmade => ?_
      split
      · exact hnone
      · refine .pure fun context hcontext => ?_
        cases hcontext
        exact hmade _ rfl

/-! ### Tasks that are asked for -/

/-- What is asked for stays beyond the border if it returns. -/
structure Border.Bounds (b : Border) (p : Perform Empty σ) : Prop where
  render {out : OutputId} (source : String) :
    b.extent.outputs ≤ out.index → Beyond b (p (.render out source))
  startTyping : b.starts = true → Beyond b (p .startTyping)
  trigger {event : Event} (detail : String) : b.starts = true →
    (event = .keydown → b.typings = 0) → Beyond b (p (.trigger event detail))
  invoke {e₀ e : Engine Empty σ} {id : HandlerId} (arg : HandlerArg) : b.Leads e₀ e →
    e.Holds id (ShadowHandler.Beyond b) → BeyondFrom b e₀ (fun _ => True) (p (.invoke id arg)) e

namespace Builtin

variable {call : MacroCall Empty} {context : Context Empty} {p : Perform Empty σ}

/-! ### Variables -/

theorem beyond_withExpression (hcall : call.StandsBeyond b) {goOn : Value → Run Empty σ Unit}
    (h : ∀ value, Beyond b (goOn value)) : Beyond b (withExpression call goOn) := by
  unfold withExpression
  dsimp only
  split
  · exact call.beyond_error hcall _
  · refine .seq (.evaluating (reassigns_evaluate _)) fun result => ?_
    split
    · exact call.beyond_error hcall _
    · exact h _

theorem beyond_runPrint (hp : b.Bounds p) (hcall : call.StandsBeyond b) :
    Beyond b (runPrint p call) := by
  refine beyond_withExpression hcall fun value => ?_
  split
  · exact .pure trivial
  · refine .bind (call.beyond_target hcall) fun out hout => ?_
    split
    · exact .changeTree fun _ _ => .pushText hout _
    · exact hp.render _ hout

theorem beyond_runSet (hcall : call.StandsBeyond b) : Beyond b (runSet call : Run Empty σ Unit) :=
  beyond_withExpression hcall fun _ => call.beyond_showModes hcall _

theorem beyond_unsetAll (names : List String) :
    Beyond b (unsetAll names : Run Empty σ Unit) := by
  induction names with
  | nil => exact .pure trivial
  | cons name rest ih =>
      refine .seq (.changingState fun s t h => ?_) fun _ => ih
      cases hu : s.unset name with
      | error e => rw [hu] at h; cases h
      | ok result =>
          rw [hu] at h
          cases h
          exact State.reassigned_of_unset hu

theorem beyond_runUnset (hcall : call.StandsBeyond b) :
    Beyond b (runUnset call : Run Empty σ Unit) := by
  unfold runUnset
  dsimp only
  split
  · exact call.beyond_error hcall _
  · exact .seq (beyond_unsetAll _) fun _ => call.beyond_showModes hcall _

theorem beyond_runCapture (hp : b.Bounds p) (hcall : call.StandsBeyond b) :
    Beyond b (runCapture p call) := by
  unfold runCapture
  dsimp only
  split
  · exact call.beyond_error hcall _
  · refine .seq (call.beyond_addShadows _) fun _ => .seq (call.beyond_shadows hcall) fun names => ?_
    refine .seq (beyond_snapshot names) fun overlay => beyond_underOverlay overlay ?_
    exact .bind (call.beyond_target hcall) fun out hout => hp.render _ hout

/-! ### Choices -/

theorem beyond_clauseView (hcall : call.StandsBeyond b) (name title : String)
    (modes : List (String × Bool)) :
    Beyond b (clauseView call name title modes : Run Empty σ Unit) :=
  .bind (call.beyond_createView hcall _ _) fun _ hview => .changeTree fun _ _ => .setModes hview _

theorem beyond_skippedViews (hcall : call.StandsBeyond b) (clauses : List PayloadClause) :
    Beyond b (skippedViews call clauses : Run Empty σ Unit) := by
  induction clauses with
  | nil => exact .pure trivial
  | cons clause rest ih => exact .seq (beyond_clauseView hcall _ _ _) fun _ => ih

theorem beyond_closingViews (hcall : call.StandsBeyond b) (isDebug found : Bool)
    (after : List PayloadClause) :
    Beyond b (closingViews call isDebug found after : Run Empty σ Unit) := by
  unfold closingViews
  split
  · exact .seq (beyond_skippedViews hcall after) fun _ => beyond_clauseView hcall _ _ _
  · exact .pure trivial

theorem beyond_clauseHolds (clause : PayloadClause) :
    Beyond b (clauseHolds clause : Run Empty σ (Except ExprError Bool)) := by
  unfold clauseHolds
  split
  · exact .pure trivial
  · exact .evaluating (reassigns_evaluateCondition _)

theorem beyond_chooseFrom (hp : b.Bounds p) (hcall : call.StandsBeyond b) (isDebug : Bool)
    (index : Nat) (clauses : List PayloadClause) : Beyond b (chooseFrom p call isDebug index clauses) := by
  induction clauses generalizing index with
  | nil => exact beyond_closingViews hcall _ _ _
  | cons clause rest ih =>
      unfold chooseFrom
      refine .bindWhen (beyond_clauseView hcall _ _ _) ?_
      refine .seq (beyond_clauseHolds clause) fun outcome => ?_
      split
      · exact call.beyond_error hcall _
      · refine .bind (call.beyond_target hcall) fun out hout => ?_
        exact .seq (hp.render _ hout) fun _ => beyond_closingViews hcall _ _ _
      · exact .seq (call.beyond_showModes hcall _) fun _ => ih _

theorem beyond_runChoose (hp : b.Bounds p) (hcall : call.StandsBeyond b) :
    Beyond b (runChoose p call) := by
  refine .get fun e _ => ?_
  dsimp only
  split
  · exact call.beyond_error hcall _
  · exact beyond_chooseFrom hp hcall _ _ _

/-! ### Loops -/

theorem beyond_takeBreak : Beyond b (takeBreak : Run Empty σ Bool) :=
  fun _ he => .ofOk rfl (.still he (.of_eq rfl) rfl) trivial

theorem beyond_hideBlank (hcall : call.StandsBeyond b) (body : List Char) :
    Beyond b (hideBlank call body : Run Empty σ Unit) := by
  unfold hideBlank
  split
  · exact call.beyond_showModes hcall _
  · exact .pure trivial

theorem beyond_conditionHolds (condition : Option String) :
    Beyond b (conditionHolds condition : Run Empty σ (Except ExprError Bool)) := by
  unfold conditionHolds
  split
  · exact .pure trivial
  · exact .evaluating (reassigns_evaluateCondition _)

theorem beyond_evaluatePart (part : Option String) :
    Beyond b (evaluatePart part : Run Empty σ (Option ExprError)) := by
  cases part with
  | none => exact .pure trivial
  | some expression =>
      refine .seq (.evaluating (reassigns_evaluate expression)) fun result => ?_
      split
      · exact .pure trivial
      · exact .pure trivial

theorem beyond_setVariable (value : Value) (name : Option String) :
    Beyond b (setVariable value name : Run Empty σ Unit) := by
  cases name with
  | none => exact .pure trivial
  | some name => exact .changingState fun _ _ => State.reassigned_of_set

theorem beyond_renderPass (hp : b.Bounds p) (hcall : call.StandsBeyond b) (body : List Char)
    (isFirst : Bool) : Beyond b (renderPass p call body isFirst) :=
  .bind (call.beyond_target hcall) fun _ hout => .seq (hp.render _ hout) fun _ => beyond_takeBreak

theorem beyond_tooManyPasses (hcall : call.StandsBeyond b) :
    Beyond b (do call.error (← tooManyPasses) : Run Empty σ Unit) :=
  .seq (.get fun _ _ => .pure trivial) fun _ => call.beyond_error hcall _

theorem beyond_loopSteps (hp : b.Bounds p) (hcall : call.StandsBeyond b) (body : List Char)
    (condition post : Option String) (remaining : Nat) (isFirst : Bool) :
    Beyond b (loopSteps p call body condition post remaining isFirst) := by
  induction remaining generalizing isFirst with
  | zero =>
      unfold loopSteps
      refine .seq (beyond_conditionHolds condition) fun outcome => ?_
      split
      · exact call.beyond_error hcall _
      · exact .pure trivial
      · exact beyond_tooManyPasses hcall
  | succ remaining ih =>
      unfold loopSteps
      refine .seq (beyond_conditionHolds condition) fun outcome => ?_
      split
      · exact call.beyond_error hcall _
      · exact .pure trivial
      · refine .seq (beyond_renderPass hp hcall body isFirst) fun isLeft => ?_
        split
        · exact .pure trivial
        · refine .seq (beyond_evaluatePart post) fun outcome => ?_
          split
          · exact call.beyond_error hcall _
          · exact ih false

theorem beyond_loopRange (hp : b.Bounds p) (hcall : call.StandsBeyond b) (body : List Char)
    (key value : Option String) (remaining : Nat) (isFirst : Bool) (entries : RangeEntries) :
    Beyond b (loopRange p call body key value remaining isFirst entries) := by
  induction remaining generalizing isFirst entries with
  | zero =>
      unfold loopRange
      split
      · exact .pure trivial
      · exact beyond_tooManyPasses hcall
  | succ remaining ih =>
      unfold loopRange
      split
      · exact .pure trivial
      · refine .seq (beyond_setVariable _ _) fun _ => .seq (beyond_setVariable _ _) fun _ => ?_
        refine .seq (beyond_renderPass hp hcall body isFirst) fun isLeft => ?_
        split
        · exact .pure trivial
        · exact ih false _

theorem beyond_runForm (hp : b.Bounds p) (hcall : call.StandsBeyond b) (body : List Char)
    (form : LoopForm) : Beyond b (runForm p call body form) := by
  cases form with
  | malformed message => exact call.beyond_error hcall _
  | steps init condition post =>
      refine .seq (beyond_hideBlank hcall body) fun _ => ?_
      refine .seq (beyond_evaluatePart init) fun result => ?_
      split
      · exact call.beyond_error hcall _
      · exact .get fun _ _ => beyond_loopSteps hp hcall _ _ _ _ _
  | range key value collection =>
      refine .seq (.evaluating (reassigns_evaluate collection)) fun result => ?_
      split
      · exact call.beyond_error hcall _
      · split
        · exact call.beyond_error hcall _
        · refine .seq (beyond_hideBlank hcall body) fun _ => .get fun _ _ => ?_
          exact beyond_loopRange hp hcall _ _ _ _ _ _

theorem beyond_runLoop (hp : b.Bounds p) (hcall : call.StandsBeyond b) : Beyond b (runLoop p call) :=
  .seq (.still fun _ => ⟨rfl, rfl⟩) fun _ =>
    (beyond_runForm hp hcall _ _).andThen fun _ => ⟨rfl, rfl⟩

theorem beyond_runLoopControl (hcall : context.call.StandsBeyond b) :
    Beyond b (runLoopControl context : Run Empty σ Unit) := by
  unfold runLoopControl
  dsimp only
  split
  · exact .seq (.still fun _ => ⟨rfl, rfl⟩) fun _ => context.call.beyond_showModes hcall _
  · exact context.call.beyond_error hcall _

/-! ### Links -/

theorem beyond_showImage {element : ElementId} (hid : b.extent.elements ≤ element.index)
    (first : Value) : Beyond b (showImage element first : Run Empty σ Unit) := by
  refine .bind (.withTree (P := fun image => b.extent.elements ≤ image.index) fun t ht =>
    ⟨.appendElement ht.extent (ht.le_content hid) "img", ht.extent.elements⟩) fun image himage => ?_
  dsimp only
  split
  · refine .seq (.changeTree fun _ _ => .setAttr himage _ _) fun _ => ?_
    exact .changeTree fun _ _ => .addClass hid _
  · exact .changeTree fun _ _ => .addClass hid _

/-- When the element is filled, it is told where it leads. -/
theorem fillLink_target {element : ElementId} {first : Value} {rest : List Value}
    {e' : Engine Empty σ} {passage : Option String} (hvalues : call.args.values = first :: rest)
    (h : fillLink p call element first e = (.ok passage, e')) : passage = call.linkTarget? := by
  rw [MacroCall.linkTarget?, hvalues]
  dsimp only
  obtain ⟨content, e₁, -, h⟩ := Run.bind_eq_ok h
  split at h
  · rename_i himage
    obtain ⟨_, e₂, -, h⟩ := Run.bind_eq_ok h
    cases h
    exact (if_pos himage).symm
  · rename_i himage
    rw [if_neg himage]
    split at h
    · rename_i hlink
      rw [if_pos hlink]
      obtain ⟨_, e₂, -, h⟩ := Run.bind_eq_ok h
      split at h
      · rename_i hexternal
        obtain ⟨_, e₃, -, h⟩ := Run.bind_eq_ok h
        cases h
        exact (if_pos hexternal).symm
      · rename_i hexternal
        cases h
        exact (if_neg hexternal).symm
    · rename_i hlink
      obtain ⟨_, e₂, -, h⟩ := Run.bind_eq_ok h
      cases h
      exact (if_neg hlink).symm

theorem beyond_fillLink (hp : b.Bounds p) {element : ElementId}
    (hid : b.extent.elements ≤ element.index) (first : Value) :
    Beyond b (fillLink p call element first) := by
  refine .bind (.fromTree (P := fun content => b.extent.outputs ≤ content.index) fun t ht =>
    ht.le_content hid) fun content hcontent => ?_
  split
  · exact .seq (beyond_showImage hid first) fun _ => .pure trivial
  · split
    · refine .seq (.changeTree fun _ _ => .pushText hcontent _) fun _ => ?_
      split
      · refine .seq (.changeTree fun _ _ => ?_) fun _ => .pure trivial
        exact (Tree.ChangesBeyond.addClass hid _).trans (.setAttr hid _ _)
      · exact .pure trivial
    · exact .seq (hp.render _ hcontent) fun _ => .pure trivial

theorem beyond_labelLink {element : ElementId} (hid : b.extent.elements ≤ element.index)
    (passage : Option String) : Beyond b (labelLink element passage : Run Empty σ Unit) := by
  unfold labelLink
  split
  · refine .get fun _ _ => .changeTree fun _ _ => ?_
    exact (Tree.ChangesBeyond.setAttr hid _ _).trans (.addClass hid _)
  · refine .changeTree fun t _ => ?_
    split
    · exact .refl _ t
    · exact .addClass hid _

theorem makeClickable_apply (context : Context Empty) (element : ElementId) (contents : String)
    (passage : Option String) (e : Engine Empty σ) :
    ∃ store, makeClickable context element contents passage e =
      (.ok (), { e with
        handlers := e.handlers.push ⟨context, store, none,
          if contents.isEmpty then none else some (.payload contents), passage.map .goTo⟩
        clickables := e.clickables ++ [⟨element, ⟨e.handlers.size⟩, passage.isSome⟩] }) := by
  obtain ⟨store, hmake⟩ := ShadowHandler.make_apply context none
    (if contents.isEmpty then none else some (.payload contents)) (passage.map .goTo) e
  refine ⟨store, ?_⟩
  rw [makeClickable, Run.bind_of_ok hmake]
  rfl

/-- The element that is made can only be clicked as itself: it is newer than all that can be clicked
already, and what is rendered in it makes newer ones. -/
theorem beyond_runLink (hp : b.Bounds p) (hcall : context.call.StandsBeyond b) :
    Beyond b (runLink p context) := by
  unfold runLink
  dsimp only
  split
  · exact context.call.beyond_error hcall _
  · rename_i first rest hvalues
    intro e he
    generalize htag : (if (context.call.name == "button") = true then "button" else "a") = tag
    have hid : b.extent.elements ≤ e.tree.elements.size := he.tree.extent.elements
    have h₁ : b.Leads e { e with tree := (e.tree.newElement tag).2 } :=
      .display_tree he (.newElement he.tree.extent tag)
    have hnext : e.tree.elements.size < (e.tree.newElement tag).2.elements.size := by
      simp [Tree.newElement, Tree.newOutput]
    refine .next (a := ⟨e.tree.elements.size⟩) rfl ?_
    refine .follow h₁ (beyond_fillLink hp hid first _ h₁.admits) fun passage e₂ hfill h₂ _ => ?_
    have hpassage := fillLink_target hvalues hfill
    refine .bind (h₁.trans h₂) (beyond_labelLink hid passage _ h₂.admits) fun _ e₃ h₃ _ => ?_
    refine .bind ((h₁.trans h₂).trans h₃) (BeyondTo.changeTree (fun _ _ => .addClass hid _) _
      h₃.admits) fun _ e₄ h₄ _ => ?_
    have hsince := (h₂.trans h₃).trans h₄
    obtain ⟨store, hmake⟩ := makeClickable_apply context ⟨e.tree.elements.size⟩
      (trimText context.call.contents) passage e₄
    have hpushed : b.Leads e { e₄ with handlers := e₄.handlers.push ⟨context, store, none,
        if (trimText context.call.contents).isEmpty then none
        else some (.payload (trimText context.call.contents)), passage.map .goTo⟩ } :=
      (h₁.trans hsince).trans (.still h₄.admits (.of_push rfl) rfl)
    have hclick := hpushed.clickable
      (k := ⟨⟨e.tree.elements.size⟩, ⟨e₄.handlers.size⟩, passage.isSome⟩)
      (Nat.le_refl _) (Nat.lt_of_lt_of_le hnext hsince.tree.extent.elements) (fun other hother => ?_)
      ⟨_, Array.getElem?_push_size, rfl, rfl, by rw [hpassage], by rw [hpassage]⟩
    · refine .next hmake (.bind hclick (context.call.beyond_target hcall _ hclick.admits)
        fun out e₆ h₆ hout => ?_)
      have hthere : e.tree.elements.size < e₆.tree.elements.size :=
        Nat.lt_of_lt_of_le hnext (Nat.le_trans hsince.tree.extent.elements h₆.tree.extent.elements)
      exact .ofOk rfl ((hclick.trans h₆).trans (.display_tree h₆.admits (.append hout hthere))) trivial
    · obtain ⟨added, hadded, hnew⟩ := hsince.clickables
      change other ∈ e₄.clickables at hother
      rw [hadded] at hother
      intro hsame
      rcases List.mem_append.mp hother with hold | hmem
      · have hlt := he.made other hold
        rw [hsame] at hlt
        exact Nat.lt_irrefl _ hlt
      · have hle := Nat.le_trans hnext (hnew other hmem)
        rw [hsame] at hle
        exact Nat.not_succ_le_self _ hle

theorem beyond_runPayload (hp : b.Bounds p) (contents : String) :
    Beyond b (runPayload p contents) := by
  refine .bind (.withTree (P := fun scratch => b.extent.outputs ≤ scratch.index) fun t ht =>
    ⟨.newOutput _ t, ht.extent.outputs⟩) fun scratch hscratch => ?_
  refine .seq (hp.render contents hscratch) fun _ => ?_
  refine .seq (.fromTree fun _ _ => trivial) fun errors => ?_
  split
  · exact .pure trivial
  · exact .fail _

/-! ### Intervals and chains -/

/-- Work that goes on with a new handler. -/
theorem beyond_making {β : Type} {Q : β → Prop} {start callback done : Option (Callback Empty)}
    {f : HandlerId → Run Empty σ β} {R : ShadowHandler Empty → Prop}
    (hR : ∀ store, R ⟨context, store, start, callback, done⟩)
    (hf : ∀ id e, b.Admits e → e.Holds id R → BeyondFrom b e Q (f id) e) :
    BeyondTo b Q (ShadowHandler.make context start callback done >>= f) := by
  intro e he
  obtain ⟨store, hmake⟩ := ShadowHandler.make_apply context start callback done e
  have hmade : b.Leads e { e with
      handlers := e.handlers.push ⟨context, store, start, callback, done⟩ } :=
    .still he (.of_push rfl) rfl
  refine .next hmake fun hr => ?_
  have hrest := hf ⟨e.handlers.size⟩ _ hmade.admits ⟨_, Array.getElem?_push_size, hR store⟩ hr
  exact ⟨hmade.trans hrest.1, hrest.2⟩

theorem beyond_appendTransition {out : OutputId} (hout : b.extent.outputs ≤ out.index)
    (classes newClass : String) :
    BeyondTo b (fun element => b.extent.elements ≤ element.index)
      (appendTransition out classes newClass : Run Empty σ ElementId) := by
  refine .bind (.withTree (P := fun element => b.extent.elements ≤ element.index) fun t ht =>
    ⟨.appendElement ht.extent hout _, ht.extent.elements⟩) fun element hid => ?_
  refine .seq (.changeTree fun _ _ => .addClass hid _) fun _ => ?_
  exact .get fun e _ => .seq (.setTimeout _ fun _ _ h => by cases h) fun _ => .pure hid

/-- An interval is set with a handler that takes the player nowhere. -/
theorem beyond_startInterval {handler : HandlerId} (delay : Nat) (he : b.Admits e)
    (h : e.Holds handler (ShadowHandler.Beyond {})) :
    BeyondFrom b e (fun _ => True) (startInterval handler delay) e := by
  have hset : b.Leads e { e with
      clock := (e.clock.setInterval delay (.repeatTick handler e.moment)).2 } :=
    .timer he _ _ _ fun _ _ haction => by cases haction; exact h
  refine .next rfl (.next rfl (.next rfl ?_))
  have hlast : Beyond b (do
      modify fun e' : Engine Empty σ => { e' with
        repeatTimers := e'.repeatTimers ++
          [(e.clock.setInterval delay (.repeatTick handler e.moment)).1] }
      if e.repeatTimers.isEmpty then
        Run.listen ⟨.passageInit, none, true, .clearRepeats⟩ : Run Empty σ Unit) := by
    refine .seq (.still fun _ => ⟨rfl, rfl⟩) fun _ => ?_
    split
    · exact .listen rfl
    · exact .pure trivial
  exact hlast.after hset

theorem beyond_runRepeat (hcall : context.call.StandsBeyond b) :
    Beyond b (runRepeat context : Run Empty σ Unit) := by
  unfold runRepeat
  dsimp only
  split
  · exact context.call.beyond_error hcall _
  · refine .get fun e _ => ?_
    split
    · exact context.call.beyond_error hcall _
    · refine .seq (context.call.beyond_showModes hcall _) fun _ => ?_
      refine .bind (context.call.beyond_target hcall) fun out hout => ?_
      refine .bind (.withTree (P := fun wrapper => b.extent.elements ≤ wrapper.index) fun t ht =>
        ⟨.appendElement ht.extent hout _, ht.extent.elements⟩) fun wrapper hid => ?_
      refine .seq (.changeTree fun _ _ => .addClass hid _) fun _ => ?_
      refine beyond_making (fun store => ⟨rfl, fun c hc => ?_, rfl⟩) fun handler e he hholds =>
        beyond_startInterval _ he hholds
      cases hc
      exact Nat.zero_le _

/-- What was rendered apart is put behind what a wrapper holds, in a new element if there is a
transition. -/
theorem beyond_appendFragment {target fragment : OutputId} (htarget : b.extent.outputs ≤ target.index)
    (hfragment : b.extent.outputs ≤ fragment.index) (isTransition : Bool) (classes newClass : String) :
    Beyond b (if isTransition then do
        let insert ← appendTransition target classes newClass
        Run.changeTree fun t => t.appendAll (t.content insert) fragment
      else Run.changeTree fun t => t.appendAll target fragment : Run Empty σ Unit) := by
  split
  · refine .bind (beyond_appendTransition htarget _ _) fun insert hid => .changeTree fun t ht => ?_
    exact .appendAll (ht.le_content hid) hfragment ht
  · exact .changeTree fun t ht => .appendAll htarget hfragment ht

theorem beyond_runRepeatBody (hp : b.Bounds p) {wrapper : ElementId}
    (hid : b.extent.elements ≤ wrapper.index) (contents : String) (isTransition : Bool) :
    Beyond b (runRepeatBody p wrapper contents isTransition) := by
  refine .bind (.withTree (P := fun fragment => b.extent.outputs ≤ fragment.index) fun t ht =>
    ⟨.newOutput _ t, ht.extent.outputs⟩) fun fragment hfragment => ?_
  refine .seq (hp.render contents hfragment) fun _ => ?_
  refine .bind (.fromTree (P := fun content => b.extent.outputs ≤ content.index) fun t ht =>
    ht.le_content hid) fun content hcontent => ?_
  exact beyond_appendFragment hcontent hfragment _ _ _

theorem beyond_forgetRepeat (id : TimerId) : Beyond b (forgetRepeat id : Run Empty σ Unit) :=
  .still fun _ => ⟨rfl, rfl⟩

theorem beyond_clearRepeats : Beyond b (clearRepeats : Run Empty σ Unit) :=
  .modify fun e he => (Border.Leads.lasts he (.clearTimers e.clock e.repeatTimers)).trans
    (.still (Border.Leads.lasts he (.clearTimers e.clock e.repeatTimers)).admits (.of_eq rfl) rfl)

theorem beyond_forgetAmongRepeats (id : TimerId) :
    Beyond b (forgetAmongRepeats id : Run Empty σ Unit) := by
  refine .get fun e _ => ?_
  split
  · exact beyond_forgetRepeat id
  · exact .still fun _ => ⟨rfl, rfl⟩
  · exact .pure trivial

theorem beyond_runStop (hcall : call.StandsBeyond b) : Beyond b (runStop call : Run Empty σ Unit) := by
  refine .get fun e _ => ?_
  split
  · exact call.beyond_error hcall _
  · refine .seq (.changeClock (.clearTimer · _)) fun _ => ?_
    refine .seq (beyond_forgetAmongRepeats _) fun _ => ?_
    exact .seq (.still fun _ => ⟨rfl, rfl⟩) fun _ => call.beyond_showModes hcall _

theorem beyond_scheduleChain (chain delay : Nat) :
    Beyond b (scheduleChain chain delay : Run Empty σ Unit) :=
  .seq (.setTimeout _ fun _ _ h => by cases h) fun _ => .still fun _ => ⟨rfl, rfl⟩

theorem beyond_startChain (chain delay : Nat) :
    Beyond b (startChain chain delay : Run Empty σ Unit) := by
  refine .seq (beyond_scheduleChain chain delay) fun _ => .get fun e _ => ?_
  split
  · exact .listen rfl
  · exact .pure trivial

theorem beyond_makeChain (context : Context Empty) (wrapper : ElementId) (transition : Bool)
    (items : List TimedItem) :
    Beyond b (makeChain context (.timedBody wrapper transition) items : Run Empty σ Nat) := by
  refine beyond_making (R := ShadowHandler.Beyond {}) (fun store => ⟨rfl, fun c hc => ?_, rfl⟩)
    fun handler e he hholds => ?_
  · cases hc
    exact Nat.zero_le _
  · refine .next rfl (.next rfl (.next rfl (.ofOk rfl (.chains he fun k hk => ?_) trivial)))
    rcases Array.mem_push.mp hk with hold | rfl
    · exact .inl ⟨k, hold, rfl⟩
    · exact .inr hholds

theorem beyond_runTimed (hcall : context.call.StandsBeyond b) :
    Beyond b (runTimed context : Run Empty σ Unit) := by
  refine .get fun e _ => ?_
  split
  · exact context.call.beyond_error hcall _
  · refine .seq (context.call.beyond_showModes hcall _) fun _ => ?_
    refine .bind (context.call.beyond_target hcall) fun out hout => ?_
    refine .bind (.withTree (P := fun wrapper => b.extent.elements ≤ wrapper.index) fun t ht =>
      ⟨.appendElement ht.extent hout _, ht.extent.elements⟩) fun wrapper hid => ?_
    refine .seq (.changeTree fun _ _ => .addClass hid _) fun _ => ?_
    exact .seq (beyond_makeChain context wrapper _ _) fun _ => beyond_startChain _ _

theorem beyond_itemTarget {wrapper : ElementId} (hid : b.extent.elements ≤ wrapper.index)
    (item : TimedItem) :
    BeyondTo b (fun out => b.extent.outputs ≤ out.index)
      (itemTarget wrapper item : Run Empty σ OutputId) := by
  refine .bind (.fromTree (P := fun content => b.extent.outputs ≤ content.index) fun t ht =>
    ht.le_content hid) fun content hcontent => .get fun e _ => ?_
  split
  · refine .bind (.withTree (P := fun view => b.extent.views ≤ view.index) fun t ht =>
      ⟨.appendView ht.extent hcontent _ _ _, ht.extent.views⟩) fun view hview => ?_
    exact .fromTree fun t ht => ht.le_inside hview
  · exact .pure hcontent

theorem beyond_runTimedBody (hp : b.Bounds p) {wrapper : ElementId}
    (hid : b.extent.elements ≤ wrapper.index) (isTransition : Bool) (item : TimedItem) :
    Beyond b (runTimedBody p wrapper isTransition item) := by
  refine .bind (.withTree (P := fun fragment => b.extent.outputs ≤ fragment.index) fun t ht =>
    ⟨.newOutput _ t, ht.extent.outputs⟩) fun fragment hfragment => ?_
  refine .seq (hp.render _ hfragment) fun _ => ?_
  refine .bind (beyond_itemTarget hid item) fun target htarget => ?_
  exact beyond_appendFragment htarget hfragment _ _ _

theorem beyond_clearTimed : Beyond b (clearTimed : Run Empty σ Unit) :=
  .modify fun e he => (Border.Leads.lasts he (.clearTimers e.clock e.timedTimers)).trans
    (.still (Border.Leads.lasts he (.clearTimers e.clock e.timedTimers)).admits (.of_eq rfl) rfl)

/-! ### Typing -/

theorem beyond_dropTyping : Beyond b (dropTyping : Run Empty σ Unit) :=
  .unlisten _ _

/-- A first text can only be put into a queue that is empty, and then texts may be started. -/
theorem beyond_openQueue :
    BeyondTo b (fun isFirst => isFirst = true → b.starts = true) (openQueue : Run Empty σ Bool) := by
  refine .get fun e he => ?_
  have hstarts (hnone : e.texts = []) : b.starts = true := by
    cases hb : b.starts with
    | true => rfl
    | false => exact absurd hnone (he.waiting hb)
  split
  · rename_i queue hqueue
    refine .pure fun hfirst => hstarts ?_
    rw [Engine.texts, hqueue]
    exact List.isEmpty_iff.mp hfirst
  · rename_i hqueue
    refine .seq beyond_dropTyping fun _ => .seq (.listen rfl) fun _ => ?_
    refine .seq (.modify fun e₁ he₁ => .enqueue he₁ ⟨[], (List.append_nil _).symm,
      fun _ job hjob => by cases hjob⟩) fun _ => ?_
    exact .pure fun _ => hstarts (by rw [Engine.texts, hqueue]; rfl)

theorem beyond_enqueue {body : Nat → Callback Empty}
    (hbody : ∀ id, b.starts = true → (body id).Beyond b) :
    Beyond b (enqueue context body : Run Empty σ Unit) := by
  refine .get fun e _ => .seq (.still fun _ => ⟨rfl, rfl⟩) fun _ => ?_
  refine beyond_making (R := fun h => b.starts = true → h.Beyond b)
    (fun store hstarts => ⟨rfl, fun c hc => ?_, rfl⟩) fun handler e₁ he₁ hholds => ?_
  · cases hc
    exact hbody _ hstarts
  · refine .ofOk rfl (.enqueue he₁ ⟨[⟨e.nextTypeId, handler⟩], rfl, fun hstarts job hjob => ?_⟩)
      trivial
    obtain rfl := List.mem_singleton.mp hjob
    obtain ⟨h, hh, hbeyond⟩ := hholds
    exact ⟨h, hh, hbeyond hstarts⟩

theorem beyond_joinQueue {body : Nat → Callback Empty}
    (hbody : ∀ id, b.starts = true → (body id).Beyond b) :
    BeyondTo b (fun isNext => isNext = true → b.starts = true)
      (joinQueue context body : Run Empty σ Bool) := by
  refine .bind beyond_openQueue fun isFirst hfirst => .seq (beyond_enqueue hbody) fun _ => ?_
  split
  · exact .pure fun h => by cases h
  · rename_i hnot
    refine .get fun e _ => ?_
    split
    · exact .seq (.listen rfl) fun _ => .pure fun h => by cases h
    · exact .pure fun _ => hfirst (by simpa using hnot)

theorem beyond_queueText (hp : b.Bounds p) (hcall : context.call.StandsBeyond b) (speed : Nat)
    (options : TypeOptions) : Beyond b (queueText p context speed options) := by
  refine .seq (context.call.beyond_showModes hcall _) fun _ => ?_
  refine .bind (context.call.beyond_target hcall) fun parent hparent => ?_
  refine .bind (.withTree (P := fun target => b.extent.elements ≤ target.index) fun t ht =>
    ⟨.appendElement ht.extent hparent _, ht.extent.elements⟩) fun target htarget => ?_
  refine .seq (.changeTree fun _ _ => .addClass htarget _) fun _ => ?_
  refine .bind (beyond_joinQueue fun _ hstarts => ⟨hstarts, hparent⟩) fun isNext hnext => ?_
  split
  · rename_i hisNext
    exact hp.startTyping (hnext hisNext)
  · exact .pure trivial

theorem beyond_runType (hp : b.Bounds p) (hcall : context.call.StandsBeyond b) :
    Beyond b (runType p context) := by
  unfold runType
  dsimp only
  split
  · exact context.call.beyond_error hcall _
  · split
    · exact .fail _
    · split
      · exact context.call.beyond_error hcall _
      · split
        · exact context.call.beyond_error hcall _
        · refine .get fun e _ => ?_
          split
          · exact context.call.beyond_error hcall _
          · exact .fail _
          · split
            · exact .pure trivial
            · exact beyond_queueText hp hcall _ _

theorem beyond_modifyTyping (typing : Nat) {change : Typing → Typing}
    (h : ∀ t, t.typer.StandsBeyond b → (change t).typer.StandsBeyond b) :
    Beyond b (modifyTyping typing change : Run Empty σ Unit) :=
  .modify fun _ he => .modifyTyping he typing h

/-- Typing goes on where it was. -/
theorem beyond_withTyper {α : Type} (typing : Nat) {t : Typing} (ht : t.typer.StandsBeyond b)
    {change : Typer → Tree → α × Typer × Tree}
    (h : ∀ tree : Tree, tree.Settled b.extent → tree.ChangesBeyond b.extent (change t.typer tree).2.2)
    (hsame : ∀ tree, t.typer.Continues (change t.typer tree).2.1) :
    Beyond b (withTyper typing t change : Run Empty σ α) := by
  refine .bind (.withTree (P := fun made => t.typer.Continues made.2) fun tree htree =>
    ⟨h tree htree, hsame tree⟩) fun made hmade => ?_
  refine .seq (beyond_modifyTyping typing fun _ _ => ?_) fun _ => .pure trivial
  exact ⟨hmade.wrapper ▸ ht.wrapper, hmade.full ▸ ht.full⟩

theorem beyond_typeNext (typing : Nat) {t : Typing} (ht : t.typer.StandsBeyond b) :
    Beyond b (withTyper typing t Typer.typeNext : Run Empty σ Bool) :=
  beyond_withTyper typing ht (fun _ htree => .typeNext htree ht.wrapper ht.full)
    (Typer.continues_typeNext _)

theorem beyond_stopTyping (hp : b.Bounds p) (hstarts : b.starts = true) (typing : Nat) {t : Typing}
    (ht : t.typer.StandsBeyond b) : Beyond b (stopTyping p typing t) := by
  unfold stopTyping
  split
  · exact .pure trivial
  · refine .seq (beyond_modifyTyping typing fun _ h => h) fun _ => ?_
    refine .seq (.modify fun e he => .dequeue he hstarts ?_) fun _ => ?_
    · cases hqueue : e.typeQueue with
      | none => exact List.nil_subset _
      | some queue =>
          rw [Engine.texts, hqueue]
          exact (textsAfter_suffix _ _).subset
    · refine .seq (hp.trigger "" hstarts fun h => by cases h) fun _ => .changeTree fun tree _ => ?_
      have hdone := (Tree.ChangesBeyond.removeClass (t := tree) ht.wrapper t.cursorClass).trans
        (.addClass ht.wrapper t.doneClass)
      split
      · exact hdone.trans (.addClass ht.wrapper _)
      · exact hdone

theorem beyond_beginTyping (hp : b.Bounds p) (hstarts : b.starts = true) {typing : Nat}
    (htyping : b.typings ≤ typing) : Beyond b (beginTyping p typing) := by
  refine .get fun e he => ?_
  split
  · exact .pure trivial
  · refine .seq (.isStale _) fun isStale => ?_
    split
    · exact beyond_modifyTyping typing fun _ h => h
    · refine .seq (hp.trigger "" hstarts fun h => by cases h) fun _ => .get fun e₁ he₁ => ?_
      split
      · exact .pure trivial
      · rename_i t ht
        have hthere := he₁.typings typing t htyping ht
        refine .seq (beyond_typeNext typing hthere) fun isTyped => ?_
        split
        · exact .seq (.setInterval _ fun _ _ h => by cases h) fun _ => .pure trivial
        · exact beyond_stopTyping hp hstarts typing hthere

theorem beyond_typeLetter (hp : b.Bounds p) (hstarts : b.starts = true) {typing : Nat}
    (htyping : b.typings ≤ typing) (id : TimerId) : Beyond b (typeLetter p typing id) := by
  refine .get fun e he => ?_
  split
  · exact .pure trivial
  · rename_i t ht
    have hthere := he.typings typing t htyping ht
    split
    · exact .changeClock (.clearTimer · _)
    · refine .seq (.isStale _) fun isStale => ?_
      split
      · exact .seq (beyond_modifyTyping typing fun _ h => h) fun _ => .changeClock (.clearTimer · _)
      · refine .seq (beyond_typeNext typing hthere) fun isTyped => ?_
        split
        · exact .pure trivial
        · exact .seq (.changeClock (.clearTimer · _)) fun _ =>
            beyond_stopTyping hp hstarts typing hthere

theorem beyond_skipTyping {typing : Nat} (htyping : b.typings ≤ typing) (key : String) :
    Beyond b (skipTyping typing key : Run Empty σ Unit) := by
  refine .get fun e he => ?_
  split
  · exact .pure trivial
  · rename_i t ht
    have hthere := he.typings typing t htyping ht
    split
    · exact .seq (.unlisten _ _) fun _ => beyond_withTyper typing hthere
        (fun _ htree => .finish htree hthere.wrapper hthere.full) (Typer.continues_finish _)
    · exact .pure trivial

theorem beyond_nextTyping (hp : b.Bounds p) (hstarts : b.starts = true) :
    Beyond b (nextTyping p) := by
  refine .get fun e _ => ?_
  split
  · exact .pure trivial
  · exact hp.trigger "" hstarts fun h => by cases h
  · exact hp.startTyping hstarts

theorem beyond_dequeue (hstarts : b.starts = true) : Beyond b (dequeue : Run Empty σ Bool) := by
  refine .seq (.modify fun e he => .dequeue he hstarts ?_) fun _ => .get fun _ _ => .pure trivial
  cases hqueue : e.typeQueue with
  | none => exact List.nil_subset _
  | some queue =>
      rw [Engine.texts, hqueue]
      exact (List.tail_sublist _).subset

theorem beyond_listenToTyping (typing : Nat) : Beyond b (listenToTyping typing : Run Empty σ Unit) :=
  .seq (.unlisten _ _) fun _ => .seq (.listen rfl) fun _ => .listen rfl

theorem beyond_makeTyping (call : TypeCall) {wrapper : ElementId}
    (hid : b.extent.elements ≤ wrapper.index) (moment : Moment) :
    BeyondTo b (fun typing => b.typings ≤ typing)
      (makeTyping call wrapper moment : Run Empty σ Nat) := by
  refine .bindWhen (.changeTree fun _ _ => .addClass hid _) ?_
  refine .bind (.withTree (P := Typer.StandsBeyond b) fun t ht =>
    ⟨.ofElement ht hid, ⟨hid, ht.extent.outputs⟩⟩) fun typer htyper => ?_
  refine .get fun e he => .seq (.modify fun _ he₁ => .pushTyping he₁ htyper) fun _ => ?_
  exact .seq (beyond_listenToTyping _) fun _ => .pure he.typings_le

theorem beyond_typeOut (hp : b.Bounds p) (hstarts : b.starts = true) (call : TypeCall)
    {wrapper : ElementId} (hid : b.extent.elements ≤ wrapper.index) (moment : Moment) (atOnce : Bool) :
    Beyond b (if atOnce then do
        if ← dequeue then p .startTyping
      else do
        let typing ← makeTyping call wrapper moment
        if 0 < call.options.start then
          let _ ← Run.withClock fun c => c.setTimeout call.options.start (.beginTyping typing)
        else beginTyping p typing) := by
  split
  · refine .seq (beyond_dequeue hstarts) fun hasMore => ?_
    split
    · exact hp.startTyping hstarts
    · exact .pure trivial
  · refine .bind (beyond_makeTyping call hid moment) fun typing htyping => ?_
    split
    · exact .seq (.setTimeout _ fun _ _ h => by cases h) fun _ => .pure trivial
    · exact beyond_beginTyping hp hstarts htyping

theorem beyond_fillWrapper (hp : b.Bounds p) (call : TypeCall) {wrapper : ElementId}
    (hid : b.extent.elements ≤ wrapper.index) :
    BeyondTo b (fun made => made = wrapper) (do
      Run.changeTree fun t =>
        let t := t.addClass wrapper call.className
        let t :=
          match call.options.elementId with
          | some id => t.setAttr wrapper "id" id
          | none => t
        match call.options.classes with
        | some classes => t.addClass wrapper classes
        | none => t
      p (.render (← Run.fromTree fun t => t.content wrapper) call.contents)
      return wrapper : Run Empty σ ElementId) := by
  refine .seq (.changeTree fun t _ => ?_) fun _ => ?_
  · dsimp only
    cases call.options.elementId with
    | none =>
        cases call.options.classes with
        | none => exact .addClass hid _
        | some classes => exact (Tree.ChangesBeyond.addClass hid _).trans (.addClass hid _)
    | some id =>
        have hset := (Tree.ChangesBeyond.addClass (t := t) hid call.className).trans
          (.setAttr hid "id" id)
        cases call.options.classes with
        | none => exact hset
        | some classes => exact hset.trans (.addClass hid _)
  · refine .bind (.fromTree (P := fun content => b.extent.outputs ≤ content.index) fun t ht =>
      ht.le_content hid) fun content hcontent => ?_
    exact .seq (hp.render _ hcontent) fun _ => .pure rfl

/-- The wrapper is there when it takes the place that was kept for it. -/
theorem beyond_runTypeBody (hp : b.Bounds p) (hstarts : b.starts = true) {call : TypeCall}
    (hparent : b.extent.outputs ≤ call.parent.index) : Beyond b (runTypeBody p call) := by
  intro e he
  have hid : b.extent.elements ≤ e.tree.elements.size := he.tree.extent.elements
  have h₁ : b.Leads e { e with tree := (e.tree.newElement call.options.tag).2 } :=
    .display_tree he (.newElement he.tree.extent _)
  have hnext : e.tree.elements.size < (e.tree.newElement call.options.tag).2.elements.size := by
    simp [Tree.newElement, Tree.newOutput]
  rw [runTypeBody, wrapText, bind_assoc]
  refine .next (a := ⟨e.tree.elements.size⟩) rfl ?_
  refine .bind h₁ (beyond_fillWrapper hp call hid _ h₁.admits) fun wrapper e₂ h₂ hwrapper => ?_
  subst hwrapper
  refine .bind (h₁.trans h₂) (BeyondTo.moment _ h₂.admits) fun moment e₃ h₃ _ => ?_
  have hshown : Beyond b (isShownAtOnce call ⟨e.tree.elements.size⟩ : Run Empty σ Bool) :=
    .get fun _ _ => .pure trivial
  refine .bind ((h₁.trans h₂).trans h₃) (hshown _ h₃.admits) fun atOnce e₄ h₄ _ => ?_
  have hsince := (h₂.trans h₃).trans h₄
  have hplace : b.Leads e₄ { e₄ with
      tree := (e₄.tree.replaceElement call.parent call.target (.element ⟨e.tree.elements.size⟩)).2 } :=
    .display_tree h₄.admits (.replaceElement hparent _
      (Nat.lt_of_lt_of_le hnext hsince.tree.extent.elements))
  refine .next rfl ?_
  exact (beyond_typeOut hp hstarts call hid moment atOnce).after ((h₁.trans hsince).trans hplace)

end Builtin

end StoryEngine
