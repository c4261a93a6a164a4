import StoryEngine.Play
import StoryEngine.Proofs.Builtin.MirrorTyping
import StoryEngine.Proofs.Engine.MirrorRender
/-!
# StoryEngine.Proofs.Play.Debug

Debug views are there for authors only. Whatever source text is rendered in a new engine, whatever
the variables hold, a reader and the story find the same with debug views and without
(`render_debug_unseen`), unless a conditional complains about an assignment, which it does with debug
views only.

Twins do tasks alike, however deep these nest (`mirrorTasks`). The induction is on the fuel: a task
is done by the macros, listeners and handlers of before, which have the parts of it done with less.
Beside the two engines there is the plain one once more, in which clauses of conditionals are looked
at as closely as with debug views (`closely`). Two new engines are twins (`Engine.twin_fresh`).
-/

namespace StoryEngine

open Engine Run

variable {σ : Type} {g : Progress} {p p' q : Perform Empty σ} {e d : Engine Empty σ}

/-! ### Looking closely -/

/-- Run what a macro's name stands for, and look at clauses as closely as with debug views. -/
def runClosely (perform : Perform Empty σ) (handler : Handler Empty) (context : Context Empty) :
    Run Empty σ Unit :=
  match handler with
  | .builtin .choose => Builtin.chooseWith perform context.call true false
  | handler => runHandler Host.idle perform handler context

/-- Do a task, and look at clauses as closely as with debug views. -/
def closely : Nat → Perform Empty σ
  | 0 => fun _ => throw .outOfFuel
  | fuel + 1 => fun task =>
    match task with
    | .render out source => render (runClosely (closely fuel)) out source
    | task => performTask Host.idle (closely fuel) fuel task

theorem mirror_runHandler (hp : MirrorTasks p p' q) :
    MirrorHandlers (runHandler Host.idle p) (runClosely p') (runHandler Host.idle q) := by
  intro g s rest handler call outer outer' hspots hidents
  cases handler with
  | host procedure => exact procedure.elim
  | builtin b =>
      cases b <;> dsimp only [runHandler, runClosely, runBuiltin]
      case print => exact Builtin.mirror_runPrint hp hspots
      case set => exact Builtin.mirror_runSet hspots
      case unset => exact Builtin.mirror_runUnset hspots
      case choose => exact Builtin.mirror_runChoose hp hspots
      case loop => exact Builtin.mirror_runLoop hp hspots
      case loopControl => exact Builtin.mirror_runLoopControl hspots hidents
      case capture => exact Builtin.mirror_runCapture hp hspots
      case link => exact Builtin.mirror_runLink hp hspots outer outer'
      case «repeat» => exact Builtin.mirror_runRepeat hspots outer outer'
      case stop => exact Builtin.mirror_runStop hspots
      case timed => exact Builtin.mirror_runTimed hspots outer outer'
      case type => exact Builtin.mirror_runType hp hspots hidents

/-! ### The handler of a text -/

/-- Both engines enter a handler that remembers the same values, in contexts that are alike. -/
theorem Engine.Twin.enterShadow (h : Twin g e d) {handler handler' : ShadowHandler Empty}
    (hidents : handler'.context.calls.map MacroCall.ident =
      handler.context.calls.map MacroCall.ident)
    (hstore : handler'.store = handler.store) :
    Twin g (e.enterShadow handler) (d.enterShadow handler') := by
  have hpushed : Twin g { e with state := e.state.push handler.store }
      { d with state := d.state.push handler.store } :=
    h.change (f := fun e => { e with state := e.state.push handler.store }) (fun _ _ => rfl)
      fun _ => ⟨rfl, rfl⟩
  unfold Engine.enterShadow
  rw [hstore]
  exact hpushed.withCurrent hidents

theorem mirror_invoke (hp : MirrorTasks p p' q) (hqueued : g.queued = []) {job : TypeJob}
    (h : TwinCalm g e d) (hjob : e.texts.head? = some job) :
    MirrorAt (Twin g) (Same (Twin g))
      (invokeHandler (runCallback Host.idle p) job.handler .nothing)
      (invokeHandler (runCallback Host.idle p') job.handler .nothing)
      (invokeHandler (runCallback Host.idle q) job.handler .nothing) e d := by
  obtain ⟨slot, hwaits, hturn⟩ := h.waiting hjob
  obtain ⟨context, context', store, text, hplain, hwrapped, hidents, hid, hparent, htarget⟩ := hwaits
  have hentered : Twin (g.turn job slot)
      (e.enterShadow { context := context, store := store, callback := some (.typeBody text) })
      (d.enterShadow { context := context', store := store
                       callback := some (.typeBody { text with parent := slot.wrapped }) }) :=
    hturn.twin.enterShadow hidents rfl
  have hdepth : d.state.overlays.length = e.state.overlays.length := by
    rw [h.twin.state_eq]
  -- what a handler's callback leaves in the values it remembers is kept in both engines
  let leave (current : Option (Context Empty)) (e' : Engine Empty σ) :=
    e'.leaveShadow job.handler e.state.overlays.length current
  have hbody : MirrorAt (Twin g) (Same (Twin g))
      (Run.andFinally (Builtin.runTypeBody p text) (leave e.current))
      (Run.andFinally (Builtin.runTypeBody p' text) (leave e.current))
      (Run.andFinally (Builtin.runTypeBody q { text with parent := slot.wrapped })
        (leave d.current)) _ _ :=
    (Builtin.mirror_runTypeBody hp hqueued hid hparent htarget _ _ hentered).andFinally
      (fun d' => congrArg (·.1.1) (d'.leaveShadow_dated job.handler _ d.current).2.2)
      (fun _ _ hE => hE.leaveShadow _ _ h.twin.current_eq)
      fun _ _ _ _ hQ => ⟨hQ.1, hQ.2.leaveShadow _ _ h.twin.current_eq⟩
  have hinvoke (p : Perform Empty σ) := invokeHandler_callback (runCallback Host.idle p) hplain rfl
    rfl rfl .nothing
  have hinvoke' := invokeHandler_callback (runCallback Host.idle q) hwrapped rfl rfl rfl .nothing
  rw [hdepth] at hinvoke'
  exact hbody.of_eq (hinvoke p) (hinvoke p') hinvoke' rfl

/-! ### Events -/

theorem trigger_apply (p : Perform Empty σ) (event : Event) (detail : String) (e : Engine Empty σ) :
    trigger Host.idle p event detail e =
      callListeners Host.idle p detail (Listener.take e.listeners event).1
        { e with listeners := (Listener.take e.listeners event).2 } := rfl

/-- The listener that waits for the end of a text is called, and waits no more. -/
theorem Engine.TwinEnding.take (h : TwinEnding g e d) (hqueued : g.queued = []) :
    (Listener.take e.listeners .typingStop).1 = [.nextTyping] ∧
      TwinCalm g { e with listeners := (Listener.take e.listeners .typingStop).2 }
        { d with listeners := (Listener.take e.listeners .typingStop).2 } := by
  obtain ⟨slots, hpair, hwaits, hstop⟩ := h
  refine ⟨congrArg (List.map Listener.action) hstop, slots, ?_, hwaits, ?_, ?_⟩
  · exact hpair.retype hpair.typings hpair.typeQueue_eq rfl fun l hl =>
      hpair.fits l (List.mem_filter.mp hl).1
  · refine Listener.of_take_self _ _ ?_
    rw [hstop]
    exact fun l hl => List.mem_singleton.mp hl ▸ rfl
  · rw [hqueued]
    exact List.nil_prefix

theorem mirror_reporting {P : Engine Empty σ → Engine Empty σ → Prop} {x x' y : Run Empty σ Unit}
    (h : Mirror (Twin g) P (Same (Twin g)) x x' y) :
    Mirror (Twin g) P (Same (Twin g)) (Run.reporting x) (Run.reporting x') (Run.reporting y) := by
  intro e d hP
  refine (h e d hP).attempt.bind fun a b e d hdone => ?_
  rcases hdone with ⟨_, _, rfl, rfl, -, h⟩ | ⟨failure, rfl, rfl, h⟩
  · exact .pure ⟨rfl, h⟩
  · refine Mirror.shared ?_ (.refl g) e d h
    exact .modify (fun _ _ => rfl) fun _ => ⟨rfl, rfl⟩

theorem mirror_trigger_stop (hp : MirrorTasks p p' q) (hqueued : g.queued = []) :
    Mirror (Twin g) (TwinEnding g) (Same (Twin g)) (trigger Host.idle p .typingStop "")
      (trigger Host.idle p' .typingStop "") (trigger Host.idle q .typingStop "") := by
  intro e d h
  obtain ⟨htake, hcalm⟩ := h.take hqueued
  have hlisteners : d.listeners = e.listeners := by
    obtain ⟨slots, hpair, -⟩ := h
    exact hpair.listeners_eq
  have hcalled := Mirror.seq (mirror_reporting (Builtin.mirror_nextTyping hp hqueued))
    (fun _ => .pure ()) _ _ hcalm
  have happly (p : Perform Empty σ) (e' : Engine Empty σ) (heq : e'.listeners = e.listeners) :
      trigger Host.idle p .typingStop "" e' =
        callListeners Host.idle p "" [.nextTyping]
          { e' with listeners := (Listener.take e.listeners .typingStop).2 } := by
    rw [trigger_apply, heq, htake]
  exact hcalled.of_eq (happly p e rfl) (happly p' e rfl) (happly q d hlisteners) rfl

/-- Nothing happens at an event that nothing listens to. -/
theorem trigger_of_fits (p : Perform Empty σ) {event : Event}
    (hevent : event = .typingStart ∨ event = .typingComplete)
    (hfits : ∀ l ∈ e.listeners, l.Fits) (detail : String) :
    trigger Host.idle p event detail e = (.ok (), e) := by
  rw [trigger_apply, Listener.take_of_fits hfits hevent]
  rfl

/-! ### All tasks -/

theorem MirrorTasks.halt : MirrorTasks (σ := σ) (fun _ => throw .outOfFuel)
    (fun _ => throw .outOfFuel) fun _ => throw .outOfFuel where
  render _ _ _ _ _ := ⟨.halt _ _, .inl rfl, .refl _⟩
  start _ _ _ _ := ⟨.halt _ _, .inl rfl, .refl _⟩
  invoke _ _ _ _ _ := ⟨.halt _ _, .inl rfl, .refl _⟩
  stop _ _ _ _ := ⟨.halt _ _, .inl rfl, .refl _⟩
  unheard _ _ _ _ _ _ := ⟨.halt _ _, .inl rfl, .refl _⟩

/-- Twins do tasks alike. -/
theorem mirrorTasks (n : Nat) :
    MirrorTasks (perform Host.idle n : Perform Empty σ) (closely n) (perform Host.idle n) := by
  induction n with
  | zero => exact .halt
  | succ n ih =>
      exact {
        render := fun source hspots => MirrorHandlers.render (mirror_runHandler ih) hspots source
        start := fun hqueued => Builtin.mirror_startFirst ih hqueued
        invoke := fun job hqueued e d h => mirror_invoke ih hqueued h.1 h.2
        stop := fun hqueued => mirror_trigger_stop ih hqueued
        unheard := fun event e d hevent hfits hfits' => by
          have happly (p : Perform Empty σ) := trigger_of_fits p hevent hfits ""
          have happly' := trigger_of_fits (perform Host.idle n) hevent hfits' ""
          refine MirrorAt.congr (.pure ⟨rfl, rfl⟩) (happly _) (happly _) happly' }

/-! ### New engines -/

/-- A new engine with the built-in macros, passages and variables. There are outputs beside the one
where passages are displayed. -/
def Engine.fresh (config : Config) (passages : Entries String) (state : State) (outputs : Nat)
    (host : σ) : Engine Empty σ :=
  { Engine.ofConfig config host with
    passages := passages
    state := state
    tree := { outputs := Array.replicate (outputs + 1) [] } }

/-- What can be told of an engine from outside, and of what an output shows, but for debug views. -/
structure Engine.SameFor (out : OutputId) (e d : Engine Empty σ) : Prop where
  text : d.tree.text out = e.tree.text out
  errors : d.tree.errors out = e.tree.errors out
  found : ∀ name,
    (d.tree.findByClass out name).map (fun id => d.tree.text (d.tree.content id)) =
      (e.tree.findByClass out name).map fun id => e.tree.text (e.tree.content id)
  state : d.state = e.state
  clock : d.clock = e.clock
  listeners : ∀ event, Listener.count d.listeners event = Listener.count e.listeners event

/-- The two engines have done nothing yet. -/
theorem Engine.twin_fresh (config : Config) (passages : Entries String) (state : State)
    {outputs : Nat} (host : σ) {out : OutputId} (hout : out.index ≤ outputs) :
    Twin { spots := [⟨out, out, []⟩] }
      (fresh { config with debug := false } passages state outputs host)
      (fresh { config with debug := true } passages state outputs host) := by
  have hnodes (o : OutputId) :
      Tree.nodes { outputs := Array.replicate (outputs + 1) [] } o = [] := by
    unfold Tree.nodes
    rw [Array.getElem?_replicate]
    split <;> rfl
  refine ⟨[], ?_, .inl ⟨.nil, rfl, List.nil_prefix⟩⟩
  exact {
    dressed := rfl
    plain := rfl
    wrapped := rfl
    fits := nofun
    current := rfl
    shadows := rfl
    noViews := fun c hc => (Array.not_mem_empty c hc).elim
    views := nofun
    apart := .nil
    contents := nofun
    handlers := rfl
    typings := rfl
    scene := .blank rfl hnodes (Nat.lt_of_le_of_lt hout (by simp)) }

/-- Twins cannot be told apart where both write. -/
theorem Engine.Twin.sameFor (h : Twin g e d) {out : OutputId} (hspot : ⟨out, out, []⟩ ∈ g.spots) :
    e.SameFor out d := by
  obtain ⟨slots, hpair, -⟩ := h
  have hspot : ⟨out, out, []⟩ ∈ (g.scene slots).spots := hspot
  have hscene := hpair.scene
  refine ⟨?_, ?_, fun name => ?_, ?_, ?_, fun event => ?_⟩
  · exact hscene.spot_congr Tree.text (fun _ _ h ho => h.text_eq ho) hspot
  · exact hscene.spot_congr Tree.errors (fun _ _ h ho => h.errors_eq ho) hspot
  · have hids : d.tree.findByClass out name = e.tree.findByClass out name :=
      hscene.spot_congr (fun t o => t.findByClass o name)
        (fun _ _ h ho => h.findByClass_eq ho name) hspot
    rw [hids]
    exact List.map_congr_left fun id _ => hscene.text_content id
  · rw [hpair.dressed]
    rfl
  · rw [hpair.dressed]
    rfl
  · rw [hpair.listeners_eq]

/-- Source text is rendered in two new engines, of which only the second one shows debug views. If no
complaint about an assignment is displayed there, both renders come to their ends or run out of fuel
alike, and if they come to their ends then the text, the errors, the texts of the elements of every
class, the variables, the timers and the numbers of listeners are the same. -/
theorem render_debug_unseen (config : Config) (passages : Entries String) (state : State)
    {outputs : Nat} (host : σ) {out : OutputId} (hout : out.index ≤ outputs) (source : String) (n : Nat) :
    let plain := perform Host.idle n (.render out source)
      (fresh { config with debug := false } passages state outputs host)
    let debugged := perform Host.idle n (.render out source)
      (fresh { config with debug := true } passages state outputs host)
    ¬ debugged.2.tree.HasAssignment →
      debugged.1 = plain.1 ∧ (Returned plain.1 → plain.2.SameFor out debugged.2) := by
  intro plain debugged hnone
  obtain ⟨hmeet, hsame, -⟩ := (mirrorTasks n).render source rfl _ _
    (twin_fresh config passages state host hout)
  rw [← hsame.resolve_right hnone] at hmeet
  change Meet _ _ plain debugged at hmeet
  generalize plain = r, debugged = s at hmeet
  cases hmeet with
  | ok h => exact ⟨congrArg Except.ok h.1, fun _ => h.2.sameFor List.mem_cons_self⟩
  | fail failure h => exact ⟨rfl, fun _ => h.sameFor List.mem_cons_self⟩
  | halt => exact ⟨rfl, fun hreturned => (hreturned rfl).elim⟩

/-- What is said of the assignment is seen with debug views only. -/
example :
    let shown (isDebug : Bool) := (perform Host.idle 4 (.render ⟨0⟩ "<<if $x = 'a'>>b<</if>>")
      (fresh { ({} : Config) with debug := isDebug } [] {} 0 ())).2.tree.text ⟨0⟩
    shown false = "b" ∧ shown true ≠ "b" := by
  decide +kernel

/-- All complaints are shorter than one about an assignment. -/
def Tree.complainsBriefly (t : Tree) : Bool :=
  t.outputs.all fun nodes => nodes.all fun node =>
    match node with
    | .error view => view.message.length < 41
    | _ => true

theorem Tree.not_hasAssignment {t : Tree} (h : t.complainsBriefly = true) : ¬ t.HasAssignment := by
  rintro ⟨out, view, hmem, name, text, hmessage⟩
  have hlong : 41 ≤ view.message.length := by
    rw [hmessage]
    simp only [String.length_append]
    have hstart : ("<<" : String).length = 2 := rfl
    have hbetween : (">>: " : String).length = 4 := rfl
    have hwording : ("assignment operator found within <<" : String).length = 35 := rfl
    omega
  have hnodes : t.nodes out ∈ t.outputs := by
    unfold Tree.nodes at hmem ⊢
    cases hout : t.outputs[out.index]? with
    | none =>
        rw [hout] at hmem
        cases hmem
    | some nodes => exact Array.mem_of_getElem? hout
  have hshort := List.all_eq_true.mp (Array.all_eq_true_iff_forall_mem.mp h _ hnodes) _ hmem
  exact Nat.not_lt_of_le hlong (of_decide_eq_true hshort)

/-- Debug views around a conditional's clauses and the link in one of them, and an error behind. -/
theorem render_debug_unseen_nested :
    let source := "<<if true>>b<<link 'go'>>c<</link>><<elseif false>>e<</if>><<print>>"
    let plain := perform Host.idle 4 (.render ⟨0⟩ source)
      (fresh { ({} : Config) with debug := false } [] {} 0 ())
    let debugged := perform Host.idle 4 (.render ⟨0⟩ source)
      (fresh { ({} : Config) with debug := true } [] {} 0 ())
    (OutputId.mk 0).index ≤ 0 ∧ ¬ debugged.2.tree.HasAssignment ∧ debugged.2.tree.views.size = 4 ∧
      debugged.1 = plain.1 ∧ Returned plain.1 ∧ plain.2.SameFor ⟨0⟩ debugged.2 := by
  intro source plain debugged
  obtain ⟨hbrief, hviews, hreturned⟩ : debugged.2.tree.complainsBriefly = true ∧
      debugged.2.tree.views.size = 4 ∧ Returned plain.1 := by
    decide +kernel
  have hnone := Tree.not_hasAssignment hbrief
  obtain ⟨hsame, hreader⟩ := render_debug_unseen {} [] {} () (Nat.le_refl 0) source 4 hnone
  exact ⟨Nat.le_refl 0, hnone, hviews, hsame, hreturned, hreader hreturned⟩

end StoryEngine
