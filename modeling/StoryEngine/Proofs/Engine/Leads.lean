import StoryEngine.Proofs.Builtin.Leads
import StoryEngine.Proofs.Engine.Leaving
import StoryEngine.Proofs.Engine.Timeless
/-!
# StoryEngine.Proofs.Engine.Leads

What is told of renders is what rendering comes to: with enough fuel each render leads where `Renders`
says, with the wish in the engine's field (`performs_renders`).
-/

namespace StoryEngine

variable {σ : Type} {R : Rendering σ} {e e' : Engine Empty σ}

/-- What returns with some fuel leads there. -/
theorem Timeless.leads {α : Type} {X : Perform Empty σ → Run Empty σ α} (hX : Timeless X) {n : Nat}
    {r : Except Halt α} (h : X (perform Host.idle n) e = (r, e')) (hr : Returned r) :
    Leads (fun n => X (perform Host.idle n)) e r e' := by
  refine ⟨n, fun m hm => ?_⟩
  have hreturned : Returned (X (perform Host.idle n) e).1 := by
    rw [h]
    exact hr
  exact (hX.agrees (perform_agrees Host.isTimeless_idle hm) hreturned).trans h

/-- A macro leads where it is told to. -/
theorem Executes.leads (hP : Performs (perform Host.idle) R) {b : Builtin}
    {context : Context Empty} {r : Except Halt Unit} {wish : Option LoopBreak}
    (h : Executes R b context e r wish e') (he : e.loopBreak = none) :
    e'.loopBreak = none ∧ Returned r ∧
      Leads (fun n => runBuiltin (perform Host.idle n) context b) e r
        { e' with loopBreak := wish } := by
  cases h with
  | control hloop hshow =>
      have hignores : (context.call.showModes ["hidden"] : Run Empty σ Unit).Ignores :=
        context.call.ignores_showModes ["hidden"]
      have he' := (hignores.keeps e).symm
      rw [hshow] at he'
      refine ⟨he'.symm.trans he, returned_ok (), .always fun n => ?_⟩
      let wish : LoopBreak := if context.call.name == "continue" then .«continue» else .«break»
      have hrun : runBuiltin (perform Host.idle n) context .loopControl e =
          context.call.showModes ["hidden"] { e with loopBreak := some wish } := by
        change Builtin.runLoopControl context e = _
        rw [Builtin.runLoopControl]
        exact congrFun (if_pos hloop) e
      have hwish := hignores e (some wish)
      rw [hshow] at hwish
      exact hrun.trans hwish
  | stray hloop =>
      refine ⟨he, returned_ok (), .always fun n => ?_⟩
      have hnone : { e.afterError context.call outsideLoop with loopBreak := none } =
          e.afterError context.call outsideLoop := Engine.stay_of_none he
      rw [hnone]
      change Builtin.runLoopControl context e = _
      rw [Builtin.runLoopControl]
      exact congrFun (if_neg (ne_true_of_eq_false hloop)) e
  | alone _ hmute hr => exact ⟨rfl, hr, .always fun n => hmute (perform Host.idle n)⟩
  | @inPlace _ _ out source close _ _ _ e₁ e₂ _ _ hopens he₁ hR hclose hr =>
      obtain ⟨he₂, hrender⟩ := hP he₁ hR
      have hkeeps := hopens.1.keeps e₂
      rw [hclose] at hkeeps
      have hwish : close { e₂ with loopBreak := wish } = (r, { e' with loopBreak := wish }) := by
        have hignores := hopens.1 e₂ wish
        rw [hclose] at hignores
        exact hignores
      have hrun := hrender.bind (F := fun _ _ => close) (.always fun _ => hwish)
      refine ⟨hkeeps.trans he₂, hr, hrun.congr fun n => ?_⟩
      exact hopens.2 (perform Host.idle n) fun _ _ => sure_perform_render _ _ _ _
  | loop hloops =>
      rw [← Engine.stay_of_none he] at hloops
      obtain ⟨he', hleads⟩ := Builtin.leads_runLoop hP hloops
      have hnone : { e' with loopBreak := none } = e' := Engine.stay_of_none he'
      rw [hnone]
      exact ⟨he', returned_ok (), hleads⟩
  | elsewhere _ hrun hr =>
      exact ⟨rfl, hr,
        ((Builtin.steady_runBuiltin context b).timeless Host.isTimeless_idle).leads hrun hr⟩

/-- Up to the call, a tag has nothing to do with whether a loop is being left. -/
theorem loopBreak_renderTag (out : OutputId) (tag : Tag) (rest : List Segment)
    (e : Engine Empty σ) :
    (renderTag (fun _ _ => pure ()) out tag rest e).2.loopBreak = e.loopBreak := by
  obtain ⟨skip, e₁, hmute | ⟨b, context, hcall⟩, he₁⟩ := renderTag_cases out tag rest e
  · rw [hmute]
    exact he₁
  · have hexecuted := @executeCall_of_returned σ (fun _ => pure ()) context e₁ _ _ rfl
      (returned_ok ())
    rw [hcall, Run.bind_of_ok hexecuted]
    exact he₁

theorem Leads.executeCall {F : Nat → Context Empty → Run Empty σ Unit} {context : Context Empty}
    {r : Except Halt Unit} (h : Leads (fun n => F n context) { e with current := some context } r e')
    (hr : Returned r) :
    Leads (fun n => StoryEngine.executeCall (F n) context) e (.ok ())
      (e'.leaveCall context e.current r) := by
  obtain ⟨N, h⟩ := h
  exact ⟨N, fun n hn => executeCall_of_returned (h n hn) hr⟩

/-- A tag leads where the macro it calls is told to. -/
theorem leads_of_call (hP : Performs (perform Host.idle) R) (he : e.loopBreak = none)
    {out : OutputId} {tag : Tag} {rest : List Segment} {skip : Nat} {b : Builtin}
    {context : Context Empty} {r : Except Halt Unit} {wish : Option LoopBreak}
    {e₁ e₂ : Engine Empty σ}
    (hcall : ∀ run, renderTag run out tag rest e =
      (executeCall (run (.builtin b)) context >>= fun _ => pure skip) e₁)
    (h : Executes R b context { e₁ with current := some context } r wish e₂) :
    e₂.loopBreak = none ∧
      Leads (fun n => renderTag (runHandler Host.idle (perform Host.idle n)) out tag rest) e
        (.ok skip) { e₂.leaveCall context e₁.current r with loopBreak := wish } := by
  have he₁ := loopBreak_renderTag out tag rest e
  have hexecuted := @executeCall_of_returned σ (fun _ => pure ()) context e₁ _ _ rfl
    (returned_ok ())
  rw [hcall, Run.bind_of_ok hexecuted] at he₁
  obtain ⟨he₂, hr, hrun⟩ := h.leads hP (he₁.trans he)
  have hexecuted := Leads.executeCall
    (F := fun n => runHandler Host.idle (perform Host.idle n) (.builtin b)) hrun hr
  have hleft : ({ e₂ with loopBreak := wish } : Engine Empty σ).leaveCall context e₁.current r =
      { e₂.leaveCall context e₁.current r with loopBreak := wish } := by
    rcases r with (_ | _) | _ <;> rfl
  rw [hleft] at hexecuted
  have hskip := hexecuted.bind (F := fun _ _ => pure skip) (.always fun _ => rfl)
  exact ⟨he₂, hskip.congr fun n => hcall _⟩

/-- Segments lead where they are told to. -/
theorem RendersAll.leads (hP : Performs (perform Host.idle) R) {out : OutputId} {skip : Nat}
    {segments : List Segment} {wish : Option LoopBreak}
    (h : RendersAll R out skip segments e wish e') (he : e.loopBreak = none) :
    e'.loopBreak = none ∧
      Leads (fun n => renderSegments (runHandler Host.idle (perform Host.idle n)) out skip segments)
        e (.ok ()) { e' with loopBreak := wish } := by
  induction h with
  | @nil skip e =>
      have hnone : { e with loopBreak := none } = e := Engine.stay_of_none he
      rw [hnone]
      exact ⟨he, .always fun _ => by rw [renderSegments]; rfl⟩
  | skip _ ih =>
      obtain ⟨he', hleads⟩ := ih he
      exact ⟨he', hleads.congr fun _ => by rw [renderSegments]⟩
  | @text s rest wish e e' _ ih =>
      obtain ⟨he', hleads⟩ := ih he
      have hstay : e.loopBreak.isSome = false := by rw [he]; rfl
      refine ⟨he', hleads.congr fun n => ?_⟩
      rw [renderSegments, Run.get_bind_apply, hstay]
      rfl
  | @mute tag rest skip wish e e₁ e' hmute _ ih =>
      have he₁ := loopBreak_renderTag out tag rest e
      rw [hmute] at he₁
      obtain ⟨he', hleads⟩ := ih (he₁.trans he)
      refine ⟨he', hleads.congr fun n => ?_⟩
      rw [renderSegments_tag he]
      exact Run.bind_of_ok (hmute _)
  | @call tag rest skip b context r wish e e₁ e₂ e' hcall hexecutes _ ih =>
      obtain ⟨he₂, htag⟩ := leads_of_call hP he hcall hexecutes
      have hnone : { e₂.leaveCall context e₁.current r with loopBreak := none } =
          e₂.leaveCall context e₁.current r :=
        Engine.stay_of_none ((e₂.loopBreak_leaveCall context e₁.current r).trans he₂)
      rw [hnone] at htag
      obtain ⟨he', hleads⟩ := ih ((e₂.loopBreak_leaveCall context e₁.current r).trans he₂)
      let F (n skip : Nat) : Run Empty σ Unit :=
        renderSegments (runHandler Host.idle (perform Host.idle n)) out skip rest
      refine ⟨he', (htag.bind (F := F) hleads).congr fun n => ?_⟩
      rw [renderSegments_tag he]
  | @left tag rest skip b context r wish e e₁ e₂ hcall hexecutes =>
      obtain ⟨he₂, htag⟩ := leads_of_call hP he hcall hexecutes
      refine ⟨(e₂.loopBreak_leaveCall context e₁.current r).trans he₂, ?_⟩
      let F (n skip : Nat) : Run Empty σ Unit :=
        renderSegments (runHandler Host.idle (perform Host.idle n)) out skip rest
      have hrest (n : Nat) := renderSegments_leaving (e := { e₂.leaveCall context e₁.current r with
        loopBreak := some wish }) (runHandler Host.idle (perform Host.idle n)) out skip rest rfl
      have hleft : { e₂ with loopBreak := some wish }.leaveCall context e₁.current r =
          { e₂.leaveCall context e₁.current r with loopBreak := some wish } := by
        rcases r with (_ | _) | _ <;> rfl
      refine (htag.bind (F := F) (.always hrest)).congr fun n => ?_
      rw [renderSegments_tag he]

/-- A render leads where it is told to. -/
theorem RendersWithin.leads {m : Nat} : Performs (σ := σ) (perform Host.idle) (RendersWithin m) := by
  induction m with
  | zero => exact fun _ h => h.elim
  | succ m ih =>
      intro out source e wish e' he h
      cases h with
      | tooDeep hdepth =>
          have hnone : Engine.stay { e with
              tree := e.tree.appendError out (tooDeepMessage e.config.maxRenderDepth) source } =
              { e with
                tree := e.tree.appendError out (tooDeepMessage e.config.maxRenderDepth) source } :=
            Engine.stay_of_none he
          refine ⟨he, 1, fun n hn => ?_⟩
          obtain ⟨n, rfl⟩ := Nat.exists_eq_add_of_le' hn
          dsimp only
          rw [perform_render, dif_neg hdepth]
          exact congrArg (Prod.mk _) hnone.symm
      | @within _ _ e' hdepth hall =>
          have hdescended : (e.descend hdepth).loopBreak = none := he
          obtain ⟨he', hleads⟩ := hall.leads ih hdescended
          obtain ⟨N, hfinally⟩ := hleads.andFinally (returned_ok ()) Engine.ascend
          refine ⟨he', N + 1, fun n hn => ?_⟩
          obtain ⟨n, rfl⟩ := Nat.exists_eq_add_of_le' (Nat.le_of_add_left_le hn)
          dsimp only
          rw [perform_render, dif_pos hdepth]
          exact hfinally n (Nat.le_of_succ_le_succ hn)

end StoryEngine
