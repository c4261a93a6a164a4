import StoryEngine.Proofs.Engine.TwinWork
/-!
# StoryEngine.Proofs.Engine.MirrorRender

Rendering source text in twins. Every tag opens a call in both engines, which stand at the same spot
and are nested alike (`Run.Mirror.openCall`). What the macros do is a parameter (`MirrorHandlers`).
-/

namespace StoryEngine

open Engine Run

variable {σ : Type} {g : Progress} {s : Spot} {rest : List Spot}
  {E : Engine Empty σ → Engine Empty σ → Prop} {r r' k : Handler Empty → Context Empty → Run Empty σ Unit}

/-! ### Opening a call -/

/-- Both engines have opened the same call at the spot, or none. -/
inductive OpenedAlike (g : Progress) (s : Spot) :
    Option (Context Empty) → Option (Context Empty) → Engine Empty σ → Engine Empty σ → Prop
  | none {e d : Engine Empty σ} (h : Twin g e d) : OpenedAlike g s none none e d
  | some {e d : Engine Empty σ} (call : MacroCall Empty) {outer outer' : List (MacroCall Empty)}
      (hidents : outer'.map MacroCall.ident = outer.map MacroCall.ident)
      (h : During g s call.id e d) :
      OpenedAlike g s (some ⟨call.moved s.plain, outer⟩) (some ⟨call.moved s.wrapped, outer'⟩) e d

theorem OpenedAlike.new {e d : Engine Empty σ} (h : Twin g e d) (s : Spot)
    (entry : MacroEntry (Handler Empty)) (name : String) (args : ArgumentList)
    (payload : List PayloadClause) (source : String) :
    OpenedAlike g s (Option.some (e.callContext s.plain entry name args payload source))
      (Option.some (d.callContext s.wrapped entry name args payload source)) e.addCall d.addCall := by
  have hcalls (current : Option (Context Empty)) :
      (current.map Context.calls).getD [] = callsOf current := by
    cases current <;> rfl
  have hidents : ((d.current.map Context.calls).getD []).map MacroCall.ident =
      ((e.current.map Context.calls).getD []).map MacroCall.ident := by
    rw [hcalls, hcalls]
    exact h.current_eq
  have hnew := OpenedAlike.some (s := s) (e.callContext s.plain entry name args payload source).call
    hidents ⟨Option.none, h.addCall⟩
  unfold Engine.callContext at hnew ⊢
  rw [h.calls_size]
  exact hnew

theorem Run.Mirror.openCall (hspots : g.spots = s :: rest) (entry : MacroEntry (Handler Empty))
    (tag : Tag) (clauses : List Clause) (source : String) :
    Mirror (σ := σ) (Twin g) (Twin g) (OpenedAlike g s)
      (StoryEngine.openCall s.plain entry tag clauses source)
      (StoryEngine.openCall s.plain entry tag clauses source)
      (StoryEngine.openCall s.wrapped entry tag clauses source) := by
  have hrefused (message : String) : Mirror (σ := σ) (Twin g) (Twin g) (OpenedAlike g s)
      (StoryEngine.showError s.plain message source >>= fun _ => Pure.pure none)
      (StoryEngine.showError s.plain message source >>= fun _ => Pure.pure none)
      (StoryEngine.showError s.wrapped message source >>= fun _ => Pure.pure none) :=
    .seq (.showError hspots _ _) fun _ _ _ h => .pure (.none h)
  refine .seq (.shared (shared_callArguments _ _) (.refl g)) fun args => ?_
  cases args with
  | error e => exact hrefused _
  | ok args =>
      refine .seq (.shared (shared_payloadClauses _ _) (.refl g)) fun payload => ?_
      cases payload with
      | error e => exact hrefused _
      | ok payload =>
          intro e d h
          refine .get ?_
          by_cases hname : tag.name.isEmpty = true
          · have hmake (e : Engine Empty σ) (out : OutputId) := Run.attempt_of_failure
              (Context.make_of_isEmpty entry hname args payload source e.current out e.config.debug e)
            exact .next (hmake e _) (hmake d _) (.refl _) (hrefused _ e d h)
          · have hmake (e : Engine Empty σ) (out : OutputId) := Run.attempt_of_ok
              (Context.make_apply entry (Bool.not_eq_true _ ▸ hname) args payload source e.current
                out e.config.debug e)
            exact .next (hmake e _) (hmake d _) (.refl _) (.pure (.new h s entry tag.name _ _ _))

namespace Run.Mirror

/-! ### Executing a call -/

/-- The call is current while its macro runs. -/
theorem inContext {context context' : Context Empty} {call : Nat}
    (hidents : context'.calls.map MacroCall.ident = context.calls.map MacroCall.ident)
    {x x' y : Run Empty σ Unit} (h : Mirror (Twin g) (During g s call) (Same (Twin g)) x x' y) :
    Mirror (Twin g) (During g s call) (Same (Twin g)) (StoryEngine.inContext context x)
      (StoryEngine.inContext context x') (StoryEngine.inContext context' y) := by
  intro e d hduring
  obtain ⟨view?, htwin⟩ := id hduring
  have hprevious := htwin.current_eq
  have hentered : Twin (g.within s call view?) { e with current := some context }
      { d with current := some context' } := htwin.withCurrent hidents
  refine .get (.next (x := modify _) (y := modify _) rfl rfl (.refl _) ?_)
  exact (h _ _ ⟨view?, hentered⟩).andFinally (fun _ => rfl) (fun _ _ hE => hE.withCurrent hprevious)
    fun _ _ _ _ hQ => ⟨hQ.1, hQ.2.withCurrent hprevious⟩

end Run.Mirror

/-- What macros' names stand for does the same in twins. -/
def MirrorHandlers (r r' k : Handler Empty → Context Empty → Run Empty σ Unit) : Prop :=
  ∀ {g : Progress} {s : Spot} {rest : List Spot} (handler : Handler Empty) (call : MacroCall Empty)
    (outer outer' : List (MacroCall Empty)), g.spots = s :: rest →
    outer'.map MacroCall.ident = outer.map MacroCall.ident →
    Mirror (Twin g) (During g s call.id) (Same (Twin g)) (r handler ⟨call.moved s.plain, outer⟩)
      (r' handler ⟨call.moved s.plain, outer⟩) (k handler ⟨call.moved s.wrapped, outer'⟩)

namespace MirrorHandlers

theorem callMacro (hr : MirrorHandlers r r' k) (hspots : g.spots = s :: rest)
    (entry : MacroEntry (Handler Empty)) (handler : Handler Empty) (tag : Tag)
    (clauses : List Clause) (source : String) :
    Mirror (Twin g) (Twin g) (Same (Twin g))
      (StoryEngine.callMacro r s.plain entry handler tag clauses source)
      (StoryEngine.callMacro r' s.plain entry handler tag clauses source)
      (StoryEngine.callMacro k s.wrapped entry handler tag clauses source) := by
  refine (Mirror.openCall hspots entry tag clauses source).bind fun a b e d h => ?_
  cases h with
  | none h => exact .pure ⟨rfl, h⟩
  | @some _ _ call outer outer' hidents h =>
      have hcalls : (Context.mk (call.moved s.wrapped) outer').calls.map MacroCall.ident =
          (Context.mk (call.moved s.plain) outer).calls.map MacroCall.ident :=
        congrArg (call.ident :: ·) hidents
      have hrun := Mirror.inContext hcalls (hr handler call outer outer' hspots hidents)
      refine (hrun e d h).attempt.bind fun a b e d hdone => ?_
      rcases hdone with ⟨_, _, rfl, rfl, -, h⟩ | ⟨failure, rfl, rfl, h⟩
      · exact .pure ⟨rfl, h⟩
      · exact Mirror.showError hspots _ _ e d h

theorem renderTag (hr : MirrorHandlers r r' k) (hspots : g.spots = s :: rest) (tag : Tag)
    (following : List Segment) :
    Mirror (Twin g) (Twin g) (Same (Twin g)) (StoryEngine.renderTag r s.plain tag following)
      (StoryEngine.renderTag r' s.plain tag following)
      (StoryEngine.renderTag k s.wrapped tag following) := by
  refine .get (fun _ _ h => h.dressed) (fun _ _ => rfl) fun e => ?_
  dsimp only
  cases e.registry.get? tag.name with
  | none => exact .seq (.showError hspots _ _) fun _ => .pure 0
  | some entry =>
      dsimp only
      cases entry.definition.handler with
      | none => exact .pure 0
      | some handler =>
          refine .ite (fun _ => ?_) fun _ => .seq (hr.callMacro hspots _ _ _ _ _) fun _ => .pure 0
          cases bodyFrom tag.name entry.definition.childTags 0 (.ofTag tag) 0 following with
          | error e => exact .seq (.showError hspots _ _) fun _ => .pure 0
          | ok body => exact .seq (hr.callMacro hspots _ _ _ _ _) fun _ => .pure body.next

theorem renderSegments (hr : MirrorHandlers r r' k) (hspots : g.spots = s :: rest) (skip : Nat)
    (segments : List Segment) :
    Mirror (Twin g) (Twin g) (Same (Twin g)) (StoryEngine.renderSegments r s.plain skip segments)
      (StoryEngine.renderSegments r' s.plain skip segments)
      (StoryEngine.renderSegments k s.wrapped skip segments) := by
  induction segments generalizing skip with
  | nil =>
      unfold StoryEngine.renderSegments
      exact .pure ()
  | cons segment following ih =>
      cases skip with
      | succ skip => exact ih skip
      | zero =>
          refine .get (fun _ _ h => h.dressed) (fun _ _ => rfl) fun e => ?_
          refine .ite (fun _ => .pure ()) fun _ => ?_
          cases segment with
          | text text => exact .seq (.pushText hspots text) fun _ => ih 0
          | tag tag => exact .seq (hr.renderTag hspots tag following) ih

end MirrorHandlers

/-! ### Renders inside one another -/

namespace Engine

variable {e d : Engine Empty σ}

theorem Twin.depth_eq (h : Twin g e d) :
    d.renderDepth = e.renderDepth ∧ d.config.maxRenderDepth = e.config.maxRenderDepth := by
  rw [h.dressed]
  exact ⟨rfl, rfl⟩

/-- Both engines go one render deeper. -/
theorem Twin.descend (h : Twin g e d) (hplain : e.renderDepth < e.config.maxRenderDepth)
    (hwrapped : d.renderDepth < d.config.maxRenderDepth) :
    Twin g (e.descend hplain) (d.descend hwrapped) := by
  have hdescend (d' : Engine Empty σ) (heq : d = d')
      (hlt : d'.renderDepth < d'.config.maxRenderDepth) : d.descend hwrapped = d'.descend hlt := by
    subst heq
    rfl
  refine h.same_queue rfl rfl rfl rfl rfl fun slots hpair => ?_
  exact { hpair with dressed := hdescend (e.dress d) hpair.dressed hplain }

theorem Twin.ascend (h : Twin g e d) : Twin g e.ascend d.ascend :=
  h.change (fun _ _ => rfl) fun _ => ⟨rfl, rfl⟩

end Engine

theorem Run.Mirror.deeper {tooDeep tooDeep' x x' y : Run Empty σ Unit}
    (hdeep : Mirror (Twin g) (Twin g) (Same (Twin g)) tooDeep tooDeep tooDeep')
    (h : Mirror (Twin g) (Twin g) (Same (Twin g)) x x' y) :
    Mirror (Twin g) (Twin g) (Same (Twin g)) (StoryEngine.deeper tooDeep x)
      (StoryEngine.deeper tooDeep x') (StoryEngine.deeper tooDeep' y) := by
  intro e d htwin
  obtain ⟨hdepth, hmax⟩ := htwin.depth_eq
  by_cases hplain : e.renderDepth < e.config.maxRenderDepth
  · have hwrapped : d.renderDepth < d.config.maxRenderDepth := by rwa [hdepth, hmax]
    have hinner : MirrorAt (Twin g) (Same (Twin g)) (Run.andFinally x ascend)
        (Run.andFinally x' ascend) (Run.andFinally y ascend) (e.descend hplain)
        (d.descend hwrapped) :=
      (h _ _ (htwin.descend hplain hwrapped)).andFinally (fun _ => rfl) (fun _ _ hE => hE.ascend)
        fun _ _ _ _ hQ => ⟨hQ.1, hQ.2.ascend⟩
    have happly (z : Run Empty σ Unit) := (deeper_apply tooDeep z e).trans (dif_pos hplain)
    have happly' := (deeper_apply tooDeep' y d).trans (dif_pos hwrapped)
    exact hinner.of_eq (happly x) (happly x') happly' rfl
  · have hwrapped : ¬ d.renderDepth < d.config.maxRenderDepth := by rwa [hdepth, hmax]
    exact (hdeep e d htwin).congr ((deeper_apply tooDeep x e).trans (dif_neg hplain))
      ((deeper_apply tooDeep x' e).trans (dif_neg hplain))
      ((deeper_apply tooDeep' y d).trans (dif_neg hwrapped))

theorem MirrorHandlers.render (hr : MirrorHandlers r r' k) (hspots : g.spots = s :: rest)
    (source : String) :
    Mirror (Twin g) (Twin g) (Same (Twin g)) (StoryEngine.render r s.plain source)
      (StoryEngine.render r' s.plain source) (StoryEngine.render k s.wrapped source) := by
  refine .deeper ?_ (hr.renderSegments hspots 0 _)
  exact .get (fun _ _ h => h.dressed) (fun _ _ => rfl) fun e => .showError hspots _ _

end StoryEngine
