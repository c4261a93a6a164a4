import StoryEngine.Proofs.Builtin.Aside
import StoryEngine.Proofs.Engine.Made
/-!
# StoryEngine.Proofs.Engine.Asks

What work asks for, as far as it matters for texts that are typed. `Asks scope X` says that work `X`
is made up of work that has nothing to do with texts, of renders, and of texts that join the queue;
work of any scope may also do something else to texts, and ask for other tasks.

All of it is blind to what the host has noted down, so the record of a run is no more than that: the
run is the same without it (`recorded_mirrors`, in `StoryEngine.Proofs.Engine.AsksTasks`).
-/

namespace StoryEngine

variable {σ α β : Type}

/-- What work asks for, depending on who performs tasks. -/
inductive Asks : Scope → {α : Type} → (Perform Empty σ → Run Empty σ α) → Prop
  | aside {scope : Scope} {α : Type} {x : Run Empty σ α} (hx : IsAside x) : Asks scope fun _ => x
  /-- Something else is done to texts. -/
  | blind {α : Type} {x : Run Empty σ α} (hx : Blind x) : Asks .any fun _ => x
  | bind {scope : Scope} {α β : Type} {X : Perform Empty σ → Run Empty σ α}
      {F : α → Perform Empty σ → Run Empty σ β} (hX : Asks scope X) (hF : ∀ a, Asks scope (F a)) :
      Asks scope fun p => X p >>= fun a => F a p
  /-- Work that depends on the engine, but not on the state of the host. -/
  | get {scope : Scope} {α : Type} {F : Engine Empty σ → Perform Empty σ → Run Empty σ α}
      (hF : ∀ e, Asks scope (F e)) (hhost : ∀ e host, F (e.withHost host) = F e) :
      Asks scope fun p => MonadState.get >>= fun e => F e p
  | attempt {scope : Scope} {α : Type} {X : Perform Empty σ → Run Empty σ α} (hX : Asks scope X) :
      Asks scope fun p => Run.attempt (X p)
  | closing {scope : Scope} {α : Type} {X : Perform Empty σ → Run Empty σ α} (hX : Asks scope X)
      {change : Engine Empty σ → Engine Empty σ} (haside : ∀ e : Engine Empty σ, e.Aside (change e))
      (hhost : ∀ e host, change (e.withHost host) = (change e).withHost host) :
      Asks scope fun p => Run.andFinally (X p) change
  | render {scope : Scope} (out : OutputId) (source : String) :
      Asks scope fun p => p (.render out source)
  /-- A text joins the queue, and is started if its turn has come. -/
  | text {scope : Scope} (context : Context Empty) {body : Nat → TypeCall}
      (hbody : ∀ id, (body id).id = id) :
      Asks scope fun p => do
        if ← Builtin.joinQueue context fun id => .typeBody (body id) then p .startTyping
  | task (t : Task) : Asks .any fun p => p t

namespace Asks

variable {scope : Scope}

theorem pure (a : α) : Asks scope fun _ => (Pure.pure a : Run Empty σ α) :=
  .aside (.pure a)

/-- Work that goes on after work that has nothing to do with texts. -/
theorem next {x : Run Empty σ α} {F : α → Perform Empty σ → Run Empty σ β} (hx : IsAside x)
    (hF : ∀ a, Asks scope (F a)) : Asks scope fun p => x >>= fun a => F a p :=
  .bind (.aside hx) hF

theorem ite {c : Prop} [Decidable c] {X Y : Perform Empty σ → Run Empty σ α}
    (hX : c → Asks scope X) (hY : ¬ c → Asks scope Y) :
    Asks scope fun p => if c then X p else Y p := by
  by_cases h : c
  · simp only [h, if_true]
    exact hX h
  · simp only [h, if_false]
    exact hY h

/-- Work that is done on a condition only, before other work. -/
theorem nextWhen {c : Prop} [Decidable c] {x : Run Empty σ Unit}
    {F : Unit → Perform Empty σ → Run Empty σ α} (hx : IsAside x) (hF : Asks scope (F ())) :
    Asks scope fun p => if c then x >>= fun u => F u p else F () p :=
  .ite (fun _ => .next hx fun _ => hF) fun _ => hF

/-- A change of the engine that has nothing to do with texts. -/
theorem modify {f : Engine Empty σ → Engine Empty σ} (h : ∀ e : Engine Empty σ, e.Aside (f e))
    (hhost : ∀ e host, f (e.withHost host) = (f e).withHost host) :
    Asks scope fun _ => (modify f : Run Empty σ Unit) :=
  .aside (.modify h hhost)

end Asks

/-! ### Brackets -/

theorem asks_inContext (context : Context Empty) {scope : Scope}
    {X : Perform Empty σ → Run Empty σ Unit} (hX : Asks scope X) :
    Asks scope fun p => inContext context (X p) := by
  refine .get (fun e => ?_) fun _ _ => rfl
  refine .bind (.modify (fun _ => .of_eq rfl rfl) fun _ _ => rfl) fun _ => ?_
  exact .closing hX (fun _ => .of_eq rfl rfl) fun _ _ => rfl

theorem asks_underOverlay (overlay : Overlay) {scope : Scope}
    {X : Perform Empty σ → Run Empty σ Unit} (hX : Asks scope X) :
    Asks scope fun p => underOverlay overlay (X p) := by
  refine .get (fun e => ?_) fun _ _ => rfl
  refine .bind (.modify (fun _ => .of_eq rfl rfl) fun _ _ => rfl) fun _ => ?_
  exact .closing hX (fun _ => .of_eq rfl rfl) fun _ _ => rfl

theorem Builtin.asks_asLoop {scope : Scope} {X : Perform Empty σ → Run Empty σ Unit}
    (hX : Asks scope X) : Asks scope fun p => asLoop (X p) := by
  refine .bind (.modify (fun _ => .of_eq rfl rfl) fun _ _ => rfl) fun _ => ?_
  exact .closing hX (fun _ => .of_eq rfl rfl) fun _ _ => rfl

theorem Builtin.asks_asTick (id : TimerId) {scope : Scope}
    {X : Perform Empty σ → Run Empty σ Unit} (hX : Asks scope X) :
    Asks scope fun p => asTick id (X p) := by
  refine .get (fun e => ?_) fun _ _ => rfl
  refine .bind (.modify (fun _ => .of_eq rfl rfl) fun _ _ => rfl) fun _ => ?_
  exact .closing hX (fun _ => .of_eq rfl rfl) fun _ _ => rfl

/-- The engine within one more render, if the settings allow for that. -/
def Engine.deepen (e : Engine Empty σ) : Engine Empty σ :=
  if h : e.renderDepth < e.config.maxRenderDepth then e.descend h else e

theorem deeper_eq (tooDeep x : Run Empty σ Unit) : deeper tooDeep x = (do
    let e ← get
    if e.renderDepth < e.config.maxRenderDepth then
      modify Engine.deepen
      Run.andFinally x Engine.ascend
    else tooDeep) := by
  funext e
  rw [deeper_apply, Run.get_bind_apply]
  split
  · rename_i h
    show _ = Run.andFinally x Engine.ascend e.deepen
    rw [Engine.deepen, dif_pos h]
  · rfl

theorem Engine.aside_deepen (e : Engine Empty σ) : e.Aside e.deepen := by
  unfold Engine.deepen
  split
  · exact .of_eq rfl rfl
  · exact .refl e

theorem Engine.deepen_withHost (e : Engine Empty σ) (host : σ) :
    (e.withHost host).deepen = e.deepen.withHost host := by
  by_cases h : e.renderDepth < e.config.maxRenderDepth
  · rw [Engine.deepen, Engine.deepen, dif_pos h]
    exact dif_pos h
  · rw [Engine.deepen, Engine.deepen, dif_neg h]
    exact dif_neg h

theorem asks_deeper {scope : Scope} {tooDeep : Run Empty σ Unit}
    {X : Perform Empty σ → Run Empty σ Unit} (hdeep : IsAside tooDeep) (hX : Asks scope X) :
    Asks scope fun p => deeper tooDeep (X p) := by
  simp only [deeper_eq]
  refine .get (fun e => .ite (fun _ => ?_) fun _ => .aside hdeep) fun _ _ => rfl
  refine .bind (.modify Engine.aside_deepen Engine.deepen_withHost) fun _ => ?_
  exact .closing hX (fun _ => .of_eq rfl rfl) fun _ _ => rfl

/-! ### The record does not matter -/

/-- The second performer does what the first one does, but for the state of the host. -/
def PerformsMirrored (p p' : Perform Empty σ) : Prop :=
  ∀ t, Mirrors (p t) (p' t)

theorem Builtin.blind_dropTyping : Blind (dropTyping : Run Empty σ Unit) :=
  .modify fun _ _ => rfl

theorem Builtin.blind_openQueue : Blind (openQueue : Run Empty σ Bool) := by
  refine .get (fun e => ?_) fun _ _ => rfl
  split
  · exact .pure _
  · refine .bind blind_dropTyping fun _ => .bind (.modify fun _ _ => rfl) fun _ => ?_
    exact .bind (.modify fun _ _ => rfl) fun _ => .pure _

theorem Builtin.blind_enqueue (context : Context Empty) (body : Nat → Callback Empty) :
    Blind (enqueue context body : Run Empty σ Unit) := by
  refine .get (fun e => .bind (.modify fun _ _ => rfl) fun _ => ?_) fun _ _ => rfl
  exact .bind (ShadowHandler.blind_make context _ _ _) fun _ => .modify fun _ _ => rfl

theorem Builtin.blind_joinQueue (context : Context Empty) (body : Nat → Callback Empty) :
    Blind (joinQueue context body : Run Empty σ Bool) := by
  refine .bind blind_openQueue fun isFirst => .bind (blind_enqueue context body) fun _ => ?_
  split
  · exact .pure _
  · refine .get (fun e => ?_) fun _ _ => rfl
    split
    · exact .bind (.modify fun _ _ => rfl) fun _ => .pure _
    · exact .pure _

/-- Work does the same whoever performs its tasks, but for the state of the host. -/
theorem Asks.mirrors {scope : Scope} {X : Perform Empty σ → Run Empty σ α}
    {p p' : Perform Empty σ} (hp : PerformsMirrored p p') (hX : Asks scope X) :
    Mirrors (X p) (X p') := by
  induction hX with
  | aside hx => exact hx.blind
  | blind hx => exact hx
  | bind _ _ ihX ihF => exact .bind ihX ihF
  | get _ hhost ihF => exact .get ihF fun e host => congrFun (hhost e host) p'
  | attempt _ ihX => exact .attempt ihX
  | closing _ _ hhost ihX => exact .andFinally ihX hhost
  | render out source => exact hp _
  | text context _ =>
      refine .bind (Builtin.blind_joinQueue context _) fun isNext => ?_
      cases isNext with
      | true => exact hp _
      | false => exact .pure ()
  | task t => exact hp t

end StoryEngine
