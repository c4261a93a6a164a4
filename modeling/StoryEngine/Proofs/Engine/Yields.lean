import StoryEngine.Proofs.Engine.Call
import StoryEngine.Proofs.Engine.Settled
/-!
# StoryEngine.Proofs.Engine.Yields

What is known of a run if it returns (`Yields`). This says nothing about whether it does: a run of
which nothing at all can be true when it has returned does not return, and that is how such runs are
found out. The rules follow a computation from its beginning; a step that runs out of fuel yields
whatever one likes.
-/

namespace StoryEngine

variable {σ α β : Type}

/-- If the computation returns, it returns a result, and the property holds of it and the engine. -/
def Yields (x : Run Empty σ α) (e : Engine Empty σ) (Q : α → Engine Empty σ → Prop) : Prop :=
  ∀ r e', x e = (r, e') → Returned r → ∃ a, r = .ok a ∧ Q a e'

namespace Yields

variable {x : Run Empty σ α} {e e' : Engine Empty σ} {Q : α → Engine Empty σ → Prop}

theorem of_ok {a : α} (h : x e = (.ok a, e')) (hQ : Q a e') : Yields x e Q := by
  intro r e₁ h₁ _
  cases h.symm.trans h₁
  exact ⟨a, rfl, hQ⟩

theorem of_halt (h : x e = (.error .outOfFuel, e')) : Yields x e Q := by
  intro r e₁ h₁ hr
  cases h.symm.trans h₁
  exact (hr rfl).elim

theorem mono {P : α → Engine Empty σ → Prop} (hx : Yields x e P) (h : ∀ a e', P a e' → Q a e') :
    Yields x e Q := by
  intro r e' h₁ hr
  obtain ⟨a, ha, hP⟩ := hx r e' h₁ hr
  exact ⟨a, ha, h a e' hP⟩

theorem bind {f : α → Run Empty σ β} {R : β → Engine Empty σ → Prop} (hx : Yields x e Q)
    (hf : ∀ a e₁, Q a e₁ → Yields (f a) e₁ R) : Yields (x >>= f) e R := by
  intro r e' h hr
  rcases Run.bind_returned h hr with ⟨a, e₁, h₁, h₂⟩ | ⟨failure, h₁, -⟩
  · obtain ⟨b, hb, hQ⟩ := hx _ e₁ h₁ (returned_ok a)
    cases hb
    exact hf a e₁ hQ r e' h₂ hr
  · obtain ⟨b, hb, -⟩ := hx _ e' h₁ (returned_failure failure)
    cases hb

/-- Work that goes on after a computation with a known result. -/
theorem next {f : α → Run Empty σ β} {a : α} {R : β → Engine Empty σ → Prop}
    (h : x e = (.ok a, e')) (hf : Yields (f a) e' R) : Yields (x >>= f) e R := by
  intro r e₁ h₁ hr
  rw [Run.bind_of_ok h] at h₁
  exact hf r e₁ h₁ hr

theorem attempt (hx : Yields x e Q) :
    Yields (Run.attempt x) e fun r e' => ∃ a, r = .ok a ∧ Q a e' := by
  intro r e' h hr
  obtain ⟨r₁, h₁, hr₁⟩ := Run.attempt_returned h hr
  obtain ⟨a, rfl, hQ⟩ := hx r₁ e' h₁ hr₁
  cases h.symm.trans (Run.attempt_of_ok h₁)
  exact ⟨.ok a, rfl, a, rfl, hQ⟩

theorem andFinally {R : α → Engine Empty σ → Prop} {change : Engine Empty σ → Engine Empty σ}
    (hx : Yields x e Q) (h : ∀ a e', Q a e' → R a (change e')) :
    Yields (Run.andFinally x change) e R := by
  intro r e' h₁ hr
  obtain ⟨e₁, h₂, rfl⟩ := Run.andFinally_returned h₁ hr
  obtain ⟨a, rfl, hQ⟩ := hx r e₁ h₂ hr
  exact ⟨a, rfl, h a e₁ hQ⟩

theorem congr {y : Run Empty σ α} (hx : Yields x e' Q) (h : y e = x e') : Yields y e Q := by
  intro r e₁ h₁ hr
  exact hx r e₁ (h ▸ h₁) hr

end Yields

/-! ### Renders -/

/-- A render of source text that is made of one call. -/
theorem yields_render {n : Nat} {out : OutputId} {source : String} {e : Engine Empty σ}
    {Q : Engine Empty σ → Prop} (hdepth : e.renderDepth < e.config.maxRenderDepth)
    (hsegments : Yields (renderSegments (runHandler Host.idle (perform Host.idle n)) out 0
      (segmentsOf source)) (e.descend hdepth) fun _ e' => Q e'.ascend) :
    Yields (perform Host.idle (n + 1) (.render out source)) e fun _ => Q := by
  refine (hsegments.andFinally fun _ _ h => h).congr ?_
  rw [perform_render, dif_pos hdepth]

theorem renderSegments_skip (rh : Handler Empty → Context Empty → Run Empty σ Unit) (out : OutputId)
    (segments : List Segment) : renderSegments rh out segments.length segments = pure () := by
  induction segments with
  | nil => rfl
  | cons segment rest ih => exact ih

/-- A call that all segments belong to. -/
theorem yields_segments {rh : Handler Empty → Context Empty → Run Empty σ Unit} {out : OutputId}
    {tag : Tag} {following : List Segment} {e : Engine Empty σ} {Q : Engine Empty σ → Prop}
    (hwish : e.loopBreak = none)
    (h : Yields (renderTag rh out tag following) e fun skip e' => skip = following.length ∧ Q e') :
    Yields (renderSegments rh out 0 (.tag tag :: following)) e fun _ => Q := by
  refine Yields.congr (h.bind fun skip e' hskip => ?_) (renderSegments_tag hwish rh following)
  obtain ⟨rfl, hQ⟩ := hskip
  exact .of_ok (congrFun (renderSegments_skip rh out following) e') hQ

/-! ### Calls -/

section Calls

variable {rh : Handler Empty → Context Empty → Run Empty σ Unit} {out : OutputId}
  {entry : MacroEntry (Handler Empty)} {handler : Handler Empty} {tag : Tag}
  {e : Engine Empty σ} {Q : Engine Empty σ → Prop}

/-- A call of a macro without a body. -/
theorem yields_void (hentry : e.registry.get? tag.name = some entry)
    (hhandler : entry.definition.handler = some handler)
    (hcontainer : entry.definition.isContainer = false)
    (h : Yields (callMacro rh out entry handler tag [] tag.source) e fun _ => Q) :
    Yields (renderTag rh out tag []) e fun skip e' => skip = 0 ∧ Q e' := by
  exact Yields.congr (h.bind fun _ e' hQ => .of_ok rfl ⟨rfl, hQ⟩)
    (renderTag_callMacro hentry hhandler hcontainer rh [])

/-- A call of a macro with a body that all segments belong to. -/
theorem yields_container {following : List Segment} {body : Body}
    (hentry : e.registry.get? tag.name = some entry)
    (hhandler : entry.definition.handler = some handler)
    (hcontainer : entry.definition.isContainer = true)
    (hbody : bodyFrom tag.name entry.definition.childTags 0 (.ofTag tag) 0 following = .ok body)
    (hall : body.next = following.length)
    (h : Yields (callMacro rh out entry handler tag body.clauses
      (tag.source ++ String.join ((following.take body.next).map (·.source)))) e fun _ => Q) :
    Yields (renderTag rh out tag following) e fun skip e' => skip = following.length ∧ Q e' := by
  exact Yields.congr (h.bind fun _ e' hQ => .of_ok rfl ⟨hall, hQ⟩)
    (renderTag_container hentry hhandler hcontainer hbody rh)

/-- A call whose macro yields something. -/
theorem yields_callMacro {p : Perform Empty σ} {out : OutputId} {entry : MacroEntry (Handler Empty)}
    {b : Builtin} {tag : Tag} {clauses : List Clause} {source : String} {args : ArgumentList}
    {payload : List PayloadClause} {e : Engine Empty σ} {Q : Engine Empty σ → Prop}
    (hargs : callArguments entry.definition tag.args e = (.ok (.ok args), e))
    (hpayload : payloadClauses entry.definition clauses e = (.ok (.ok payload), e))
    (hname : tag.name.isEmpty = false)
    (hrun : ∀ context, context = e.callContext out entry tag.name args payload source →
      Yields (runBuiltin p context b) (e.enterCall context) fun _ e' =>
        Q { e' with current := e.current }) :
    Yields (callMacro (runHandler Host.idle p) out entry (.builtin b) tag clauses source) e
      fun _ => Q := by
  refine .next (openCall_apply hargs hpayload hname) ?_
  let context := e.callContext out entry tag.name args payload source
  have hcontext : Yields (inContext context (runHandler Host.idle p (.builtin b) context))
      e.addCall fun _ => Q :=
    ((hrun context rfl).andFinally fun _ _ h => h).congr rfl
  refine .bind hcontext.attempt fun r e' hr => ?_
  obtain ⟨a, rfl, hQ⟩ := hr
  exact .of_ok rfl hQ

end Calls

end StoryEngine
