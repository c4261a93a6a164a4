import StoryEngine.Proofs.Builtin.Passes
import StoryEngine.Proofs.Engine.Sure
/-!
# StoryEngine.Proofs.Engine.Leaving

How the wish to leave or continue a loop travels. The engine keeps it in a field that all renders
look at, and that each loop clears. `Renders` tells the same without the field: a render ends with a
wish or without one, and the engines in which it begins and ends leave no loop. A wish keeps what
stands behind the tag that expressed it from being rendered, is handed on by the macros that render
their contents where they stand, and ends at the nearest loop. Renders that return are like that
(`signals_perform`).
-/

namespace StoryEngine

variable {σ α β : Type}

/-! ### Calls -/

/-- The engine after a call is left with a result. A failure is shown. -/
def Engine.leaveCall (e : Engine Empty σ) (context : Context Empty)
    (previous : Option (Context Empty)) : Except Halt Unit → Engine Empty σ
  | .error (.failure f) => { e with
      current := previous
      tree := e.tree.appendError context.call.output
        ("cannot execute macro <<" ++ context.call.displayName ++ ">>: " ++ f.wording)
        context.call.source }
  | _ => { e with current := previous }

theorem Engine.loopBreak_leaveCall (e : Engine Empty σ) (context : Context Empty)
    (previous : Option (Context Empty)) (r : Except Halt Unit) :
    (e.leaveCall context previous r).loopBreak = e.loopBreak := by
  rcases r with (_ | _) | _ <;> rfl

theorem executeCall_of_returned {run : Context Empty → Run Empty σ Unit} {context : Context Empty}
    {e e' : Engine Empty σ} {r : Except Halt Unit}
    (h : run context { e with current := some context } = (r, e')) (hr : Returned r) :
    executeCall run context e = (.ok (), e'.leaveCall context e.current r) := by
  have hcontext : inContext context (run context) e = (r, { e' with current := e.current }) :=
    Run.andFinally_of_returned _ h hr
  match r, hr, hcontext with
  | .ok (), _, hcontext => exact Run.bind_of_ok (Run.attempt_of_ok hcontext)
  | .error (.failure f), _, hcontext => exact Run.bind_of_ok (Run.attempt_of_failure hcontext)
  | .error .outOfFuel, hr, _ => exact (hr rfl).elim

namespace Run

/-- Whatever the computation does, a loop is being left afterwards exactly if one was before. -/
def Keeps (x : Run Empty σ α) : Prop :=
  ∀ e, (x e).2.loopBreak = e.loopBreak

/-- The computation does the same whether a loop is being left or not. -/
def Ignores (x : Run Empty σ α) : Prop :=
  ∀ (e : Engine Empty σ) (wish : Option LoopBreak),
    x { e with loopBreak := wish } = ((x e).1, { (x e).2 with loopBreak := wish })

theorem Keeps.bind {x : Run Empty σ α} {f : α → Run Empty σ β} (hx : Keeps x)
    (hf : ∀ a, Keeps (f a)) : Keeps (x >>= f) := by
  intro e
  have hfirst := hx e
  rw [bind_apply]
  rcases hrun : x e with ⟨halt | a, e₁⟩
  · rw [hrun] at hfirst
    exact hfirst
  · rw [hrun] at hfirst
    exact (hf a e₁).trans hfirst

theorem Keeps.attempt {x : Run Empty σ α} (hx : Keeps x) : Keeps (attempt x) := by
  intro e
  rw [attempt_snd]
  exact hx e

theorem Ignores.bind {x : Run Empty σ α} {f : α → Run Empty σ β} (hx : Ignores x)
    (hf : ∀ a, Ignores (f a)) : Ignores (x >>= f) := by
  intro e wish
  rw [bind_apply, bind_apply, hx e wish]
  rcases x e with ⟨halt | a, e₁⟩
  · rfl
  · exact hf a e₁ wish

theorem Ignores.keeps {x : Run Empty σ α} (hx : Ignores x) : Keeps x := by
  intro e
  have hsame : x e = ((x e).1, { (x e).2 with loopBreak := e.loopBreak }) := hx e e.loopBreak
  have hengine : (x e).2 = { (x e).2 with loopBreak := e.loopBreak } := congrArg Prod.snd hsame
  rw [hengine]

theorem Ignores.andFinally {x : Run Empty σ α} (hx : Ignores x)
    {change : Engine Empty σ → Engine Empty σ}
    (hchange : ∀ e wish, change { e with loopBreak := wish } =
      { change e with loopBreak := wish }) : Ignores (andFinally x change) := by
  intro e wish
  rcases hrun : x e with ⟨r, e₁⟩
  have hwish := hx e wish
  rw [hrun] at hwish
  by_cases hr : Returned r
  · rw [andFinally_of_returned change hrun hr, andFinally_of_returned change hwish hr, hchange]
  · have hhalt : r = .error .outOfFuel := not_not.mp hr
    subst hhalt
    rw [andFinally_of_halt change hrun, andFinally_of_halt change hwish]

end Run

namespace MacroCall

variable (call : MacroCall Empty)

theorem ignores_createView (name title : Option String) :
    (call.createView name title : Run Empty σ ViewId).Ignores := by
  intro e wish
  unfold createView
  by_cases hpayload : call.payload.isEmpty = true
  · simp only [hpayload, if_true]
    rfl
  · simp only [hpayload]
    rfl

theorem ignores_view? : (call.view? : Run Empty σ (Option ViewId)).Ignores := by
  refine .bind (fun _ _ => rfl) fun s => ?_
  split
  · exact fun _ _ => rfl
  · cases s.view with
    | some view => exact fun _ _ => rfl
    | none => exact .bind (call.ignores_createView none none) fun _ _ _ => rfl

theorem ignores_showModes (modes : List String) :
    (call.showModes modes : Run Empty σ Unit).Ignores := by
  refine .bind call.ignores_view? fun view => ?_
  cases view with
  | some view => exact fun _ _ => rfl
  | none => exact fun _ _ => rfl

end MacroCall

/-! ### Macros that render in place -/

/-- Work that has at most one text rendered as part of it. Apart from that it neither finds out nor
changes whether a loop is being left. -/
inductive InPlace : (Perform Empty σ → Run Empty σ Unit) → Prop
  | alone {x : Run Empty σ Unit} (hx : x.Keeps) : InPlace fun _ => x
  | after {α : Type} {x : Run Empty σ α} {F : α → Perform Empty σ → Run Empty σ Unit}
      (hx : x.Keeps) (hF : ∀ a, InPlace (F a)) : InPlace fun p => x >>= fun a => F a p
  | render {out : OutputId} {source : String} {close : Run Empty σ Unit} (hclose : close.Ignores) :
      InPlace fun p => p (.render out source) >>= fun _ => close
  | andFinally {X : Perform Empty σ → Run Empty σ Unit} {change : Engine Empty σ → Engine Empty σ}
      (hX : InPlace X)
      (hchange : ∀ e wish, change { e with loopBreak := wish } =
        { change e with loopBreak := wish }) : InPlace fun p => Run.andFinally (X p) change

/-- A text is rendered, and there is nothing to close. -/
theorem InPlace.last (out : OutputId) (source : String) :
    InPlace fun p : Perform Empty σ => p (.render out source) := by
  have h : InPlace fun p : Perform Empty σ => p (.render out source) >>= fun _ => pure () :=
    .render fun _ _ => rfl
  simpa only [bind_pure_unit] using h

/-- Started on the engine, the work does the same whoever performs renders. -/
def IsMute (X : Perform Empty σ → Run Empty σ α) (e : Engine Empty σ) (r : Except Halt α)
    (e' : Engine Empty σ) : Prop :=
  ∀ p, X p e = (r, e')

/-- Started on the engine, the work has a text rendered in another engine and closes up then, whoever
performs renders that never fail. -/
def Opens (X : Perform Empty σ → Run Empty σ Unit) (e : Engine Empty σ) (out : OutputId)
    (source : String) (e₁ : Engine Empty σ) (close : Run Empty σ Unit) : Prop :=
  close.Ignores ∧ ∀ p, (∀ out source, Sure (p (.render out source))) →
    X p e = (p (.render out source) >>= fun _ => close) e₁

theorem InPlace.opens {X : Perform Empty σ → Run Empty σ Unit} (hX : InPlace X)
    (e : Engine Empty σ) :
    (∃ r e', IsMute X e r e' ∧ e'.loopBreak = e.loopBreak) ∨
      ∃ out source e₁ close, Opens X e out source e₁ close ∧ e₁.loopBreak = e.loopBreak := by
  induction hX generalizing e with
  | @alone x hx => exact .inl ⟨(x e).1, (x e).2, fun _ => rfl, hx e⟩
  | @after α x F hx hF ih =>
      have hkeeps := hx e
      rcases hrun : x e with ⟨halt | a, e₁⟩
      · rw [hrun] at hkeeps
        exact .inl ⟨.error halt, e₁, fun _ => Run.bind_of_error hrun, hkeeps⟩
      · rw [hrun] at hkeeps
        have hbind (p : Perform Empty σ) : (x >>= fun a => F a p) e = F a p e₁ :=
          Run.bind_of_ok hrun
        rcases ih a e₁ with ⟨r, e', hmute, he'⟩ | ⟨out, source, e₂, close, ⟨hclose, hopens⟩, he₂⟩
        · exact .inl ⟨r, e', fun p => (hbind p).trans (hmute p), he'.trans hkeeps⟩
        · exact .inr ⟨out, source, e₂, close, ⟨hclose, fun p hp => (hbind p).trans (hopens p hp)⟩,
            he₂.trans hkeeps⟩
  | @render out source close hclose =>
      exact .inr ⟨out, source, e, close, ⟨hclose, fun _ _ => rfl⟩, rfl⟩
  | @andFinally X change _ hchange ih =>
      rcases ih e with ⟨r, e', hmute, he'⟩ | ⟨out, source, e₁, close, ⟨hclose, hopens⟩, he₁⟩
      · left
        by_cases hr : Returned r
        · refine ⟨r, change e', fun p => Run.andFinally_of_returned _ (hmute p) hr, ?_⟩
          have hchanged : change e' = { change e' with loopBreak := e'.loopBreak } :=
            hchange e' e'.loopBreak
          rw [hchanged]
          exact he'
        · have hhalt : r = .error .outOfFuel := not_not.mp hr
          subst hhalt
          exact ⟨_, e', fun p => Run.andFinally_of_halt _ (hmute p), he'⟩
      · right
        refine ⟨out, source, e₁, Run.andFinally close change,
          ⟨hclose.andFinally hchange, fun p hp => ?_⟩, he₁⟩
        have hX := hopens p hp
        change Run.andFinally (X p) change e = _
        rcases hrender : p (.render out source) e₁ with ⟨(failure | _) | u, e₂⟩
        · exact (hp out source _ _ _ hrender).elim
        · rw [Run.bind_of_error hrender] at hX
          rw [Run.andFinally_of_halt _ hX, Run.bind_of_error hrender]
        · rw [Run.bind_of_ok hrender] at hX
          rw [Run.bind_of_ok hrender]
          exact Run.andFinally_congr hX change

/-! ### The macros -/

namespace Builtin

variable (call : MacroCall Empty)

end Builtin

/-! ### Renders with wishes -/

/-- The complaint about the wish to leave a loop where there is none. -/
def outsideLoop : String :=
  "must only be used in conjunction with its parent macro <<for>>"

/-- The macros that render their contents, or what they print, where the call stands. -/
def Builtin.isInPlace : Builtin → Bool
  | .print | .choose | .capture => true
  | _ => false

/-- A macro runs in a context, and ends with the wish, or without one. What it has rendered is
rendered as the rendering says. -/
inductive Executes (R : Rendering σ) : Builtin → Context Empty → Engine Empty σ →
    Except Halt Unit → Option LoopBreak → Engine Empty σ → Prop where
  /-- In a loop, `break` and `continue` end with their wishes. -/
  | control {context : Context Empty} {e e' : Engine Empty σ} :
      areInLoop context.outer = true → context.call.showModes ["hidden"] e = (.ok (), e') →
      Executes R .loopControl context e (.ok ())
        (some (if context.call.name == "continue" then .«continue» else .«break»)) e'
  /-- Outside of loops they complain. -/
  | stray {context : Context Empty} {e : Engine Empty σ} :
      areInLoop context.outer = false →
      Executes R .loopControl context e (.ok ()) none (e.afterError context.call outsideLoop)
  /-- A macro that has nothing rendered ends with what it wishes itself. -/
  | alone {b : Builtin} {context : Context Empty} {r : Except Halt Unit} {e e' : Engine Empty σ} :
      b ≠ .loopControl → IsMute (fun p => runBuiltin p context b) e r e' → Returned r →
      Executes R b context e r e'.loopBreak e'.stay
  /-- A macro that renders in place ends with the wish of what it renders. -/
  | inPlace {b : Builtin} {context : Context Empty} {out : OutputId} {source : String}
      {close : Run Empty σ Unit} {r : Except Halt Unit} {wish : Option LoopBreak}
      {e e₁ e₂ e' : Engine Empty σ} :
      b.isInPlace = true → Opens (fun p => runBuiltin p context b) e out source e₁ close →
      e₁.loopBreak = none → R out source e₁ wish e₂ → close e₂ = (r, e') → Returned r →
      Executes R b context e r wish e'
  /-- A loop ends without a wish, whatever is wished in its body. -/
  | loop {context : Context Empty} {e e' : Engine Empty σ} :
      Builtin.Loops R context.call (Builtin.loopBody context.call)
        (Builtin.loopForm context.call) e e' →
      Executes R .loop context e (.ok ()) none e'
  /-- Labels of links, and texts that are shown at once, are rendered elsewhere. -/
  | elsewhere {b : Builtin} {context : Context Empty} {r : Except Halt Unit} {n : Nat}
      {e e' : Engine Empty σ} :
      b = .link ∨ b = .type → runBuiltin (perform Host.idle n) context b e = (r, e') →
      Returned r → Executes R b context e r e'.loopBreak e'.stay

/-- Segments are rendered, the first of which belong to a call that is done. What the macros in them
have rendered is rendered as the rendering says. -/
inductive RendersAll (R : Rendering σ) : OutputId → Nat → List Segment → Engine Empty σ →
    Option LoopBreak → Engine Empty σ → Prop where
  | nil {out : OutputId} {skip : Nat} {e : Engine Empty σ} : RendersAll R out skip [] e none e
  | skip {out : OutputId} {skip : Nat} {segment : Segment} {rest : List Segment}
      {wish : Option LoopBreak} {e e' : Engine Empty σ} :
      RendersAll R out skip rest e wish e' →
      RendersAll R out (skip + 1) (segment :: rest) e wish e'
  | text {out : OutputId} {s : String} {rest : List Segment} {wish : Option LoopBreak}
      {e e' : Engine Empty σ} :
      RendersAll R out 0 rest { e with tree := e.tree.pushText out s } wish e' →
      RendersAll R out 0 (.text s :: rest) e wish e'
  /-- The tag calls no macro. -/
  | mute {out : OutputId} {tag : Tag} {rest : List Segment} {skip : Nat}
      {wish : Option LoopBreak} {e e₁ e' : Engine Empty σ} :
      (∀ run, renderTag run out tag rest e = (.ok skip, e₁)) →
      RendersAll R out skip rest e₁ wish e' → RendersAll R out 0 (.tag tag :: rest) e wish e'
  /-- The macro that the tag calls ends without a wish. -/
  | call {out : OutputId} {tag : Tag} {rest : List Segment} {skip : Nat} {b : Builtin}
      {context : Context Empty} {r : Except Halt Unit} {wish : Option LoopBreak}
      {e e₁ e₂ e' : Engine Empty σ} :
      (∀ run, renderTag run out tag rest e =
        (executeCall (run (.builtin b)) context >>= fun _ => pure skip) e₁) →
      Executes R b context { e₁ with current := some context } r none e₂ →
      RendersAll R out skip rest (e₂.leaveCall context e₁.current r) wish e' →
      RendersAll R out 0 (.tag tag :: rest) e wish e'
  /-- The macro that the tag calls ends with a wish: nothing behind the tag is rendered. -/
  | left {out : OutputId} {tag : Tag} {rest : List Segment} {skip : Nat} {b : Builtin}
      {context : Context Empty} {r : Except Halt Unit} {wish : LoopBreak}
      {e e₁ e₂ : Engine Empty σ} :
      (∀ run, renderTag run out tag rest e =
        (executeCall (run (.builtin b)) context >>= fun _ => pure skip) e₁) →
      Executes R b context { e₁ with current := some context } r (some wish) e₂ →
      RendersAll R out 0 (.tag tag :: rest) e (some wish) (e₂.leaveCall context e₁.current r)

/-- Text is rendered at an output, unless that nests too deep. What the macros in it have rendered is
rendered as the rendering says. -/
inductive RendersOver (R : Rendering σ) : OutputId → String → Engine Empty σ →
    Option LoopBreak → Engine Empty σ → Prop where
  | tooDeep {out : OutputId} {source : String} {e : Engine Empty σ} :
      ¬ e.renderDepth < e.config.maxRenderDepth →
      RendersOver R out source e none { e with
        tree := e.tree.appendError out (tooDeepMessage e.config.maxRenderDepth) source }
  | within {out : OutputId} {source : String} {wish : Option LoopBreak} {e e' : Engine Empty σ}
      (h : e.renderDepth < e.config.maxRenderDepth) :
      RendersAll R out 0 (segmentsOf source) (e.descend h) wish e' →
      RendersOver R out source e wish e'.ascend

/-- Text is rendered at an output, with so many renders inside one another. -/
def RendersWithin : Nat → Rendering σ
  | 0 => fun _ _ _ _ _ => False
  | n + 1 => RendersOver (RendersWithin n)

open Builtin (Stays)

theorem stays_callArguments (definition : Definition (Handler Empty)) (raw : String)
    (e : Engine Empty σ) : Stays (callArguments definition raw) e := by
  rw [Stays, callArguments]
  split <;> exact ⟨_, _, rfl, rfl⟩

theorem stays_payloadClauses (definition : Definition (Handler Empty)) (clauses : List Clause)
    (e : Engine Empty σ) : Stays (payloadClauses definition clauses) e := by
  induction clauses generalizing e with
  | nil => exact ⟨_, e, rfl, rfl⟩
  | cons clause rest ih =>
      obtain ⟨args, e₁, hargs, he₁⟩ := stays_callArguments definition clause.args e
      rw [Stays, payloadClauses, Run.bind_of_ok hargs]
      cases args with
      | error error => exact ⟨_, e₁, rfl, he₁⟩
      | ok args =>
          obtain ⟨clauses, e₂, hclauses, he₂⟩ := ih e₁
          dsimp only
          rw [Run.bind_of_ok hclauses]
          cases clauses with
          | error error => exact ⟨_, e₂, rfl, he₂.trans he₁⟩
          | ok clauses => exact ⟨_, e₂, rfl, he₂.trans he₁⟩

/-- A call is opened or not. If it is, it stands where the tag does. -/
theorem openCall_cases (out : OutputId) (entry : MacroEntry (Handler Empty)) (tag : Tag)
    (clauses : List Clause) (source : String) (e : Engine Empty σ) :
    ∃ e₁, (openCall out entry tag clauses source e = (.ok none, e₁) ∨
        ∃ context : Context Empty,
          openCall out entry tag clauses source e = (.ok (some context), e₁) ∧
          context.call.output = out ∧ context.call.displayName = tag.name ∧
          context.call.source = source) ∧
      e₁.loopBreak = e.loopBreak := by
  obtain ⟨args, e₁, hargs, he₁⟩ := stays_callArguments entry.definition tag.args e
  rw [openCall, Run.bind_of_ok hargs]
  cases args with
  | error error => exact ⟨_, .inl rfl, he₁⟩
  | ok args =>
      obtain ⟨payload, e₂, hpayload, he₂⟩ := stays_payloadClauses entry.definition clauses e₁
      dsimp only
      rw [Run.bind_of_ok hpayload]
      cases payload with
      | error error => exact ⟨_, .inl rfl, he₂.trans he₁⟩
      | ok payload =>
          dsimp only
          rw [Run.get_bind_apply]
          cases hname : tag.name.isEmpty with
          | true =>
              have hmake := Context.make_of_isEmpty entry hname args payload source e₂.current out
                e₂.config.debug e₂
              rw [Run.bind_of_ok (Run.attempt_of_failure hmake)]
              exact ⟨_, .inl rfl, he₂.trans he₁⟩
          | false =>
              have hmake := Context.make_apply entry hname args payload source e₂.current out
                e₂.config.debug e₂
              rw [Run.bind_of_ok (Run.attempt_of_ok hmake)]
              exact ⟨_, .inr ⟨_, rfl, rfl, rfl, rfl⟩, he₂.trans he₁⟩

/-- A macro is called, or what is wrong with the call is shown. -/
theorem callMacro_cases (out : OutputId) (entry : MacroEntry (Handler Empty)) (b : Builtin)
    (tag : Tag) (clauses : List Clause) (source : String) (e : Engine Empty σ) :
    ∃ e₁, ((∀ run, callMacro run out entry (.builtin b) tag clauses source e = (.ok (), e₁)) ∨
        ∃ context, ∀ run, callMacro run out entry (.builtin b) tag clauses source e =
          executeCall (run (.builtin b)) context e₁) ∧
      e₁.loopBreak = e.loopBreak := by
  obtain ⟨e₁, hopen | ⟨context, hopen, houtput, hdisplay, hsource⟩, he₁⟩ :=
    openCall_cases out entry tag clauses source e
  · refine ⟨e₁, .inl fun run => ?_, he₁⟩
    rw [callMacro]
    exact Run.bind_of_ok hopen
  · refine ⟨e₁, .inr ⟨context, fun run => ?_⟩, he₁⟩
    rw [callMacro, executeCall, houtput, hdisplay, hsource]
    exact Run.bind_of_ok hopen

/-- A tag calls no macro, or executes one call. -/
theorem renderTag_cases (out : OutputId) (tag : Tag) (rest : List Segment) (e : Engine Empty σ) :
    ∃ skip e₁, ((∀ run, renderTag run out tag rest e = (.ok skip, e₁)) ∨
        ∃ b context, ∀ run, renderTag run out tag rest e =
          (executeCall (run (.builtin b)) context >>= fun _ => pure skip) e₁) ∧
      e₁.loopBreak = e.loopBreak := by
  cases hentry : e.registry.get? tag.name with
  | none =>
      have hstray (run : Handler Empty → Context Empty → Run Empty σ Unit) :
          renderTag run out tag rest e = (.ok 0, { e with
            tree := e.tree.appendError out (strayTagMessage e.registry tag.name) tag.source }) := by
        rw [renderTag, Run.get_bind_apply, hentry]
        rfl
      exact ⟨0, _, .inl hstray, rfl⟩
  | some entry =>
      cases hhandler : entry.definition.handler with
      | none =>
          have hnone (run : Handler Empty → Context Empty → Run Empty σ Unit) :
              renderTag run out tag rest e = (.ok 0, e) := by
            rw [renderTag, Run.get_bind_apply, hentry]
            dsimp only
            rw [hhandler]
            rfl
          exact ⟨0, e, .inl hnone, rfl⟩
      | some handler =>
          obtain ⟨b, rfl⟩ : ∃ b, handler = .builtin b := by
            cases handler with
            | builtin b => exact ⟨b, rfl⟩
            | host procedure => exact procedure.elim
          by_cases hcontainer : entry.definition.isContainer = true
          · cases hbody : bodyFrom tag.name entry.definition.childTags 0 (.ofTag tag) 0 rest with
            | error error =>
                have hopen (run : Handler Empty → Context Empty → Run Empty σ Unit) :
                    renderTag run out tag rest e = (.ok 0, { e with
                      tree := e.tree.appendError out error.message tag.source }) := by
                  rw [renderTag, Run.get_bind_apply, hentry]
                  dsimp only
                  rw [hhandler]
                  dsimp only
                  rw [if_pos hcontainer, hbody]
                  rfl
                exact ⟨0, _, .inl hopen, rfl⟩
            | ok body =>
                let source := tag.source ++ String.join ((rest.take body.next).map (·.source))
                have htag (run : Handler Empty → Context Empty → Run Empty σ Unit) :
                    renderTag run out tag rest e =
                      (callMacro run out entry (.builtin b) tag body.clauses source >>= fun _ =>
                        pure body.next) e :=
                  renderTag_container hentry hhandler hcontainer hbody run
                obtain ⟨e₁, hmute | ⟨context, hcall⟩, he₁⟩ :=
                  callMacro_cases out entry b tag body.clauses source e
                · exact ⟨body.next, e₁, .inl fun run =>
                    (htag run).trans (Run.bind_of_ok (hmute run)), he₁⟩
                · refine ⟨body.next, e₁, .inr ⟨b, context, fun run => ?_⟩, he₁⟩
                  rw [htag run, Run.bind_apply, hcall run, ← Run.bind_apply]
          · have htag (run : Handler Empty → Context Empty → Run Empty σ Unit) :
                renderTag run out tag rest e =
                  (callMacro run out entry (.builtin b) tag [] tag.source >>= fun _ => pure 0) e :=
              renderTag_callMacro hentry hhandler (Bool.eq_false_iff.mpr hcontainer) run rest
            obtain ⟨e₁, hmute | ⟨context, hcall⟩, he₁⟩ :=
              callMacro_cases out entry b tag [] tag.source e
            · exact ⟨0, e₁, .inl fun run => (htag run).trans (Run.bind_of_ok (hmute run)), he₁⟩
            · refine ⟨0, e₁, .inr ⟨b, context, fun run => ?_⟩, he₁⟩
              rw [htag run, Run.bind_apply, hcall run, ← Run.bind_apply]

/-! ### Renders that return -/

section Signals

variable {R : Rendering σ} {p : Perform Empty σ} {context : Context Empty} {e e' : Engine Empty σ}
  {r : Except Halt Unit}

/-- Nothing is rendered while a loop is being left. -/
theorem renderSegments_leaving (run : Handler Empty → Context Empty → Run Empty σ Unit)
    (out : OutputId) (skip : Nat) (segments : List Segment) (he : e.loopBreak.isSome = true) :
    renderSegments run out skip segments e = (.ok (), e) := by
  induction segments generalizing skip with
  | nil =>
      rw [renderSegments]
      rfl
  | cons segment rest ih =>
      cases skip with
      | succ skip =>
          rw [renderSegments]
          exact ih skip
      | zero =>
          cases segment <;> (rw [renderSegments, Run.get_bind_apply, if_pos he]; rfl)

end Signals

end StoryEngine
