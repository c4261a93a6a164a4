import Mathlib.Data.Finset.Lattice.Fold
import StoryEngine.Proofs.Engine.Settled
namespace StoryEngine

variable {σ α β : Type} {place : Place} {limit depth : Nat}

/-- Since then, one more text has left the queue than has come to it. -/
def Engine.Fewer (e e' : Engine Empty σ) : Prop :=
  e'.texts.length + 1 + e.nextTypeId ≤ e.texts.length + e'.nextTypeId

theorem Engine.Fewer.paced {e e₁ e' : Engine Empty σ} (h : e.Fewer e₁) (h₁ : e₁.Paced place e') :
    e.Fewer e' := by
  have hpace := h₁.pace
  unfold Engine.Fewer at h ⊢
  omega

/-! ### Listeners -/

theorem Settles.reporting {X : Nat → Run Empty σ Unit} {e : Engine Empty σ}
    (hX : Settles limit X e) : Settles limit (fun n => Run.reporting (X n)) e := by
  refine hX.attempt.bind fun {n outcome e₁} _ => ?_
  cases outcome with
  | ok u => exact .const rfl (returned_ok ()) (Nat.le_refl _)
  | error f => exact .const rfl (returned_ok ()) (Nat.le_refl _)

section Listeners

/- What is known of an engine and stays true whatever is done. -/
variable (Known : Engine Empty σ → Prop)
  (hpaced : ∀ {e e'}, Known e → Carried.Leads Engine.Paced place e e' → Known e')
  (hstands : ∀ {e}, Known e → e.StandsIn place)
include hpaced hstands

theorem settles_callListeners (detail : String) (actions : List (ListenerAction Empty))
    (hactions : ∀ a ∈ actions, ∀ e, Known e →
      Settles limit (fun n => runListener Host.idle (perform Host.idle n) detail a) e)
    {e : Engine Empty σ} (he : Known e) :
    Settles limit (fun n => callListeners Host.idle (perform Host.idle n) detail actions) e := by
  induction actions generalizing e with
  | nil => exact .const rfl (returned_ok ()) (Nat.le_refl _)
  | cons a rest ih =>
      refine (hactions a List.mem_cons_self e he).reporting.bind fun {n u e₁} h₁ => ?_
      have hmade : Made .any place fun p : Perform Empty σ =>
          Run.reporting (runListener Host.idle p detail a) :=
        made_reporting (made_runListener detail a)
      have hfirst := Engine.Paced.carried.made (Engine.Paced.carried.performs n) hmade
        (hstands he) h₁ (returned_ok u)
      exact ih (fun b hb => hactions b (List.mem_cons_of_mem _ hb)) (hpaced he hfirst)

theorem settles_trigger (event : Event) (detail : String) {e : Engine Empty σ} (he : Known e)
    (hactions : ∀ a ∈ (Listener.take e.listeners event).1, ∀ e', Known e' →
      Settles limit (fun n => runListener Host.idle (perform Host.idle n) detail a) e') :
    Settles limit (fun n => perform Host.idle n (.trigger event detail)) e := by
  refine .shift ?_ (Nat.le_refl _)
  have htake : Change place e { e with listeners := (Listener.take e.listeners event).2 } :=
    .unlisten fun l => !(l.event = event && l.once)
  have htaken : Known { e with listeners := (Listener.take e.listeners event).2 } :=
    hpaced he ⟨htake.standsIn (hstands he), .ofChange htake⟩
  exact (settles_callListeners Known hpaced hstands detail _ hactions htaken).congr (fun _ => rfl) (Nat.le_refl _)

end Listeners

/-- What listeners to an event do is right for the event. -/
theorem Engine.Sound.event_of_mem_take {e : Engine Empty σ} (he : e.Sound) {event : Event}
    {a : ListenerAction Empty} (ha : a ∈ (Listener.take e.listeners event).1) :
    a.event = event := by
  obtain ⟨l, hl, rfl⟩ := List.mem_map.mp ha
  obtain ⟨hmem, hevent⟩ := List.mem_filter.mp hl
  rw [decide_eq_true_eq] at hevent
  exact (he.listeners l hmem).symm.trans hevent

/-- Nobody listens to an event that no listener is right for. -/
theorem trigger_silent {p : Perform Empty σ} {e : Engine Empty σ} (he : e.Sound) {event : Event} (detail : String)
    (hsilent : ∀ a : ListenerAction Empty, a.event ≠ event) :
    trigger Host.idle p event detail e =
      (.ok (), { e with listeners := (Listener.take e.listeners event).2 }) := by
  have hnone : (Listener.take e.listeners event).1 = [] := by
    rw [List.eq_nil_iff_forall_not_mem]
    exact fun a ha => hsilent a (he.event_of_mem_take ha)
  rw [trigger, Run.get_bind_apply, hnone]
  rfl


theorem settles_silent {e : Engine Empty σ} (he : e.Ready place depth) {event : Event}
    (detail : String) (hsilent : ∀ a : ListenerAction Empty, a.event ≠ event) :
    Settles limit (fun n => perform Host.idle n (.trigger event detail)) e := by
  refine settles_trigger (Engine.Ready place depth) (fun h hpaced => h.paced hpaced)
    (fun h => h.standsIn) _ _ he ?_
  exact fun a ha => (hsilent a (he.sound.event_of_mem_take ha)).elim

theorem not_typingStart (a : ListenerAction Empty) : a.event ≠ .typingStart := by
  cases a with
  | host procedure => exact procedure.elim
  | _ => exact nofun

theorem not_typingComplete (a : ListenerAction Empty) : a.event ≠ .typingComplete := by
  cases a with
  | host procedure => exact procedure.elim
  | _ => exact nofun

/-! ### Typing -/

/-- The start of the queue settles on every ready engine in which fewer texts wait. -/
def StartsFewer (limit depth : Nat) (e₀ : Engine Empty σ) : Prop :=
  ∀ (place : Place) (e : Engine Empty σ), e.Ready place depth → e₀.Fewer e →
    Settles limit (fun n => perform Host.idle n .startTyping) e

theorem settles_nextTyping {e₀ e : Engine Empty σ} (hnext : StartsFewer limit depth e₀)
    (he : e.Ready place depth) (hfewer : e₀.Fewer e) :
    Settles limit (fun n => Builtin.nextTyping (perform Host.idle n)) e := by
  rcases hq : e.typeQueue with _ | _ | ⟨job, rest⟩
  · refine (Settles.pure ()).congr (fun n => ?_) (Nat.le_refl e.nextTypeId)
    rw [Builtin.nextTyping, Run.get_bind_apply, hq]
  · refine (settles_silent he "" not_typingComplete).congr (fun n => ?_) (Nat.le_refl e.nextTypeId)
    rw [Builtin.nextTyping, Run.get_bind_apply, hq]
  · refine (hnext place e he hfewer).congr (fun n => ?_) (Nat.le_refl e.nextTypeId)
    rw [Builtin.nextTyping, Run.get_bind_apply, hq]

theorem settles_typingStop {e₀ e : Engine Empty σ} (hnext : StartsFewer limit depth e₀)
    (he : e.Ready place depth) (hfewer : e₀.Fewer e) :
    Settles limit (fun n => perform Host.idle n (.trigger .typingStop "")) e := by
  refine settles_trigger (fun e => e.Ready place depth ∧ e₀.Fewer e)
    (fun h hpaced => ⟨h.1.paced hpaced, h.2.paced hpaced.2⟩) (fun h => h.1.standsIn) _ _
    ⟨he, hfewer⟩ ?_
  intro a ha e' he'
  have hevent := he.sound.event_of_mem_take ha
  cases a with
  | nextTyping => exact settles_nextTyping hnext he'.1 he'.2
  | host procedure => exact procedure.elim
  | _ => cases hevent

theorem settles_stopTyping {e₀ e : Engine Empty σ} {typing : Nat} {t : Typing} {job : TypeJob}
    {rest : List TypeJob} (hnext : StartsFewer limit depth e₀) (he : e.Ready place depth)
    (htexts : e.texts = job :: rest) (hid : t.id = job.id)
    (hpace : e.texts.length + e₀.nextTypeId ≤ e₀.texts.length + e.nextTypeId) :
    Settles limit (fun n => Builtin.stopTyping (perform Host.idle n) typing t) e := by
  by_cases hstopped : t.isStopped = true
  · simp only [Builtin.stopTyping, if_pos hstopped]
    exact .pure ()
  · let marked : Engine Empty σ :=
      { e with typings := e.typings.modify typing fun t => { t with isStopped := true } }
    let left : Engine Empty σ :=
      { marked with typeQueue := e.typeQueue.map (Builtin.textsAfter t.id) }
    have hmarked : Change place e marked := .retype typing _ fun _ _ => rfl
    have hleft : Move marked left :=
      .dequeue (Builtin.getD_map_suffix (Builtin.textsAfter_suffix t.id) marked)
    have hrest : left.texts = rest := by
      change (e.typeQueue.map (Builtin.textsAfter t.id)).getD [] = rest
      rw [typeQueue_of_texts htexts, hid]
      change (if job.id = job.id then rest else job :: rest) = rest
      rw [if_pos rfl]
    have hfewer : e₀.Fewer left := by
      rw [htexts, List.length_cons] at hpace
      unfold Engine.Fewer
      rw [hrest]
      exact hpace
    have hready := (he.changed (.single hmarked)).moved hleft
    simp only [Builtin.stopTyping, if_neg hstopped]
    refine .next marked rfl (Nat.le_refl _) (.next left rfl (Nat.le_refl _) ?_)
    exact (settles_typingStop hnext hready hfewer).bind fun _ => .const rfl (returned_ok ()) (Nat.le_refl _)


theorem settles_beginTyping {e₀ e : Engine Empty σ} {typing : Nat} {t : Typing} {job : TypeJob}
    {rest : List TypeJob} (hnext : StartsFewer limit depth e₀) (he : e.Ready place depth)
    (htexts : e.texts = job :: rest) (htyping : e.typings[typing]? = some t) (hid : t.id = job.id)
    (hpace : e.texts.length + e₀.nextTypeId ≤ e₀.texts.length + e.nextTypeId) :
    Settles limit (fun n => Builtin.beginTyping (perform Host.idle n) typing) e := by
  simp only [Builtin.beginTyping]
  refine .next e rfl (Nat.le_refl _) ?_
  simp only [htyping]
  refine .next (x := Run.isStale t.moment) e rfl (Nat.le_refl _) ?_
  split
  · exact .quickTo (Builtin.quick_modifyTyping typing fun _ => rfl) he.standsIn
  · refine (settles_silent he "" not_typingStart).bind fun {n u e₁} h₁ => ?_
    have hsilent : e₁ = { e with listeners := (Listener.take e.listeners .typingStart).2 } := by
      cases n with
      | zero => cases h₁
      | succ n =>
          have htrigger : trigger Host.idle (perform Host.idle n) .typingStart "" e = (.ok u, e₁) := h₁
          rw [trigger_silent he.sound "" not_typingStart] at htrigger
          cases htrigger
          rfl
    subst hsilent
    have htake : Change place e
        { e with listeners := (Listener.take e.listeners .typingStart).2 } :=
      .unlisten fun l => !(l.event = .typingStart && l.once)
    have hready := he.changed (.single htake)
    refine .next (x := get) _ rfl (Nat.le_refl _) ?_
    simp only [htyping]
    obtain ⟨typed, tree, typings, htyped, hchanges, -⟩ :=
      Builtin.typeNext_apply hready.standsIn htyping
    refine .next _ htyped (Nat.le_refl _) ?_
    split
    · exact .const rfl (returned_ok ()) (Nat.le_refl _)
    · exact settles_stopTyping hnext (hready.changed hchanges) htexts hid hpace


/-- A text is rendered into a new element of its own. -/
theorem wrapText_apply {e : Engine Empty σ} (he : e.StandsIn place) (call : TypeCall) :
    ∃ out tree, Change place e { e with tree := tree } ∧
      Engine.StandsIn { e with tree := tree } (place.knowing ⟨e.tree.elements.size⟩) ∧
      ∀ p : Perform Empty σ, Builtin.wrapText p call e =
        (p (.render out call.contents) >>= fun _ => pure ⟨e.tree.elements.size⟩)
          { e with tree := tree } := by
  let made : Engine Empty σ := { e with tree := (e.tree.newElement call.options.tag).2 }
  let wrapper : ElementId := ⟨e.tree.elements.size⟩
  have hmade : Change place e made := .display _ (.newElement e.tree call.options.tag)
  have hdressed (place : Place) : Change place made
      { made with tree := Builtin.dressWrapper call wrapper made.tree } :=
    .display _ (Builtin.grows_dressWrapper call wrapper made.tree)
  refine ⟨_, _, .display _ (.trans (.newElement e.tree call.options.tag) ?_),
    (hdressed _).standsIn (he.newElement call.options.tag), fun _ => rfl⟩
  exact Builtin.grows_dressWrapper call wrapper made.tree

theorem settles_wrapText {e : Engine Empty σ}
    (hrender : ∀ out source, TaskSettles σ limit depth (.render out source))
    (he : e.Ready place depth) (call : TypeCall) :
    Settles limit (fun n => Builtin.wrapText (perform Host.idle n) call) e := by
  obtain ⟨out, tree, hchange, -, hwrap⟩ := wrapText_apply he.standsIn call
  have hrendered := hrender out call.contents place _ (he.changed (.single hchange))
  exact (hrendered.bind fun _ => .pure _).congr (fun n => hwrap (perform Host.idle n))
    (Nat.le_refl _)

/-- The element around a text is recent and there when the text has been rendered. -/
theorem ready_of_wrapText {e e₁ : Engine Empty σ} {n : Nat} {call : TypeCall} {wrapper : ElementId}
    (he : e.Ready place depth)
    (h : Builtin.wrapText (perform Host.idle n) call e = (.ok wrapper, e₁)) :
    e₁.Ready (place.knowing wrapper) depth ∧ place.mark.extent.elements ≤ wrapper.index := by
  obtain ⟨out, tree, -, hstands, hwrap⟩ := wrapText_apply he.standsIn call
  rw [hwrap] at h
  rcases Run.bind_returned h (returned_ok wrapper) with ⟨u, e₂, h₂, h₃⟩ | ⟨failure, -, hnever⟩
  · cases h₃
    have hready : Engine.Ready (place.knowing ⟨e.tree.elements.size⟩) depth
        { e with tree := tree } := ⟨hstands, he.sound.congr rfl, he.depth⟩
    have hrendered := (Engine.Paced.carried.performs n).free hstands h₂ (returned_ok u) trivial
    exact ⟨hready.paced hrendered, he.standsIn.parted.tree.extent.elements⟩
  · cases hnever

theorem dequeue_apply {e : Engine Empty σ} {job : TypeJob} {rest : List TypeJob}
    (h : e.typeQueue = some (job :: rest)) :
    Builtin.dequeue e = (.ok !rest.isEmpty, { e with typeQueue := some rest }) := by
  have htail : e.typeQueue.map List.tail = some rest := by
    rw [h]
    rfl
  have hdequeue : Builtin.dequeue e =
      (.ok ((e.typeQueue.map List.tail).any fun queue => !queue.isEmpty),
        { e with typeQueue := e.typeQueue.map List.tail }) := rfl
  rw [hdequeue, htail]
  rfl

/-- The text whose turn has come leaves the queue before others get their turn. -/
theorem settles_shownAtOnce {e₀ e : Engine Empty σ} {job : TypeJob} {rest : List TypeJob}
    (hnext : StartsFewer limit depth e₀) (he : e.Ready place depth) (htexts : e.texts = job :: rest)
    (hpace : e.texts.length + e₀.nextTypeId ≤ e₀.texts.length + e.nextTypeId) :
    Settles limit (fun n => do if ← Builtin.dequeue then perform Host.idle n .startTyping) e := by
  let left : Engine Empty σ := { e with typeQueue := some rest }
  have hleft : Move e left := by
    refine .dequeue ?_
    rw [htexts]
    exact List.suffix_cons job rest
  have hfewer : e₀.Fewer left := by
    rw [htexts, List.length_cons] at hpace
    exact hpace
  refine .next left (dequeue_apply (typeQueue_of_texts htexts)) (Nat.le_refl _) ?_
  split
  · exact hnext place left (he.moved hleft) hfewer
  · exact .pure ()

theorem settles_runTypeBody {e₀ e : Engine Empty σ} {call : TypeCall} {job : TypeJob}
    {rest : List TypeJob} (hrender : ∀ out source, TaskSettles σ limit depth (.render out source))
    (hnext : StartsFewer limit depth e₀) (he : e.Ready place depth)
    (htexts : e.texts = job :: rest) (hid : call.id = job.id)
    (hpace : e.texts.length + e₀.nextTypeId ≤ e₀.texts.length + e.nextTypeId) :
    Settles limit (fun n => Builtin.runTypeBody (perform Host.idle n) call) e := by
  have hpaced := @Engine.Paced.carried σ
  simp only [Builtin.runTypeBody]
  refine (settles_wrapText hrender he call).bind fun {n wrapper e₁} h₁ => ?_
  obtain ⟨hready₁, hsince⟩ := ready_of_wrapText he h₁
  have hmade : Made .rendering place fun p : Perform Empty σ => Builtin.wrapText p call :=
    Builtin.made_wrapText call
  have hwrapped := hpaced.made (hpaced.performs n) hmade he.standsIn h₁ (returned_ok wrapper)
  have hqueues := hmade.queues (performsQueueing n) rfl he.standsIn h₁ (returned_ok wrapper)
  -- the text is still the first of the queue when it has been rendered
  obtain ⟨new, hnew⟩ := hqueues (by rw [htexts]; exact List.cons_ne_nil job rest)
  rw [htexts] at hnew
  have htexts₁ : e₁.texts = job :: (rest ++ new) := hnew.symm
  have hpace₁ : e₁.texts.length + e₀.nextTypeId ≤ e₀.texts.length + e₁.nextTypeId := by
    have := hwrapped.2.pace
    omega
  refine .next (x := Run.moment) e₁ rfl (Nat.le_refl _) ?_
  refine .next (x := Builtin.isShownAtOnce call wrapper) e₁ rfl (Nat.le_refl _) ?_
  let placed : Engine Empty σ := { e₁ with tree :=
    (e₁.tree.replaceElement call.parent call.target (.element wrapper)).2 }
  have hplace : Change (place.knowing wrapper) e₁ placed :=
    .display _ (.replaceElement _ _ hsince)
  have hready : placed.Ready (place.knowing wrapper) depth := hready₁.changed (.single hplace)
  refine .next placed (Run.withTree_apply _ e₁) (Nat.le_refl _) ?_
  split
  · exact settles_shownAtOnce hnext hready htexts₁ hpace₁
  · obtain ⟨t, e₂, h₂, hchanges, htyping, ht, htexts₂, hcount⟩ :=
      Builtin.makeTyping_apply hready.standsIn call hsince (place.lt_elements_knowing wrapper)
    refine .next e₂ h₂ (Nat.le_of_eq hcount.symm) ?_
    split
    · exact .const rfl (returned_ok ()) (Nat.le_refl _)
    · refine settles_beginTyping hnext (hready.changed hchanges) (htexts₂.trans htexts₁) htyping
        (ht.trans hid) ?_
      rw [htexts₂, hcount]
      exact hpace₁


/-! ### The start of the queue -/

/-- What the start of the queue does: the callback of the first text's handler runs. -/
theorem startTyping_apply {e : Engine Empty σ} {job : TypeJob} {rest : List TypeJob}
    {h : ShadowHandler Empty} {call : TypeCall} (htexts : e.texts = job :: rest)
    (hh : e.handlers[job.handler.index]? = some h) (hstart : h.start = none)
    (hcallback : h.callback = some (.typeBody call)) (hdone : h.done = none) (n : Nat) :
    perform Host.idle (n + 2) .startTyping e =
      Run.andFinally (Builtin.runTypeBody (perform Host.idle n) call)
        (fun e' => e'.leaveShadow job.handler e.state.overlays.length e.current)
        (e.enterShadow h) := by
  have hfirst : Builtin.firstText e = (.ok (some job.handler), e) := by
    rw [Builtin.firstText_apply, htexts]
    rfl
  change Builtin.startFirst (perform Host.idle (n + 1)) e = _
  rw [Builtin.startFirst, Run.bind_of_ok hfirst]
  exact invokeHandler_callback _ hh hstart hcallback hdone .nothing

/-- Nothing is started if no text waits. -/
theorem settles_startTyping_nil {e : Engine Empty σ} (htexts : e.texts = []) :
    Settles limit (fun n => perform Host.idle n .startTyping) e := by
  have hfirst : Builtin.firstText e = (.ok none, e) := by
    rw [Builtin.firstText_apply, htexts]
    rfl
  refine .shift ((Settles.pure ()).congr (fun n => ?_) (Nat.le_refl e.nextTypeId)) (Nat.le_refl _)
  change Builtin.startFirst (perform Host.idle n) e = _
  rw [Builtin.startFirst, Run.bind_of_ok hfirst]

/-- The start of the queue settles if renders do. -/
theorem settles_startTyping
    (hrender : ∀ out source, TaskSettles σ limit depth (.render out source)) :
    TaskSettles σ limit depth .startTyping := by
  -- the texts that wait, and those that may still come before there are too many
  suffices h : ∀ (bound : Nat) (place : Place) (e : Engine Empty σ), e.Ready place depth →
      e.texts.length + (limit + 1 - e.nextTypeId) ≤ bound →
      Settles limit (fun n => perform Host.idle n .startTyping) e by
    exact fun place e he => h _ place e he (Nat.le_refl _)
  intro bound
  induction bound with
  | zero =>
      intro place e he hbound
      exact settles_startTyping_nil (List.eq_nil_of_length_eq_zero (by omega))
  | succ bound ih =>
      intro place e he hbound
      have hnext : StartsFewer limit depth e := by
        intro place' e' he' hfewer
        by_cases hlimit : limit < e'.nextTypeId
        · exact .overflow hlimit fun n => (performsCounting n).counts _ he'.standsIn
        · refine ih place' e' he' ?_
          unfold Engine.Fewer at hfewer
          omega
      rcases htexts : e.texts with _ | ⟨job, rest⟩
      · exact settles_startTyping_nil htexts
      · obtain ⟨h, hh, hkind⟩ := he.sound.texts job (by rw [htexts]; exact List.mem_cons_self)
        obtain ⟨call, hid, hcallback⟩ := hkind.callback
        have hinner : (e.enterShadow h).Ready (place.within h.context) depth :=
          ⟨he.standsIn.enterShadow h, he.sound.congr rfl, he.depth⟩
        have hbody := settles_runTypeBody hrender hnext hinner htexts hid (Nat.le_refl _)
        have hcounts (n : Nat) : CountsUp (perform Host.idle n .startTyping) e :=
          (performsCounting n).counts _ he.standsIn
        refine .shift (.shift ?_ (hcounts 1)) (hcounts 0)
        have hclosed := hbody.andFinally
          (fun e' => e'.leaveShadow job.handler e.state.overlays.length e.current) fun e' => by
            obtain ⟨state, handlers, hleave⟩ :=
              e'.leaveShadow_eq_with job.handler e.state.overlays.length e.current
            rw [hleave]
        exact hclosed.congr (startTyping_apply htexts hh hkind.start hcallback hkind.done)
          (Nat.le_refl _)

/-! ### All renders -/

/-- Renders and the start of the queue settle, however many renders are under way. -/
theorem settles_both (limit depth : Nat) :
    (∀ out source, TaskSettles σ limit depth (.render out source)) ∧
      TaskSettles σ limit depth .startTyping := by
  induction depth with
  | zero =>
      exact ⟨settles_tooDeep, settles_startTyping settles_tooDeep⟩
  | succ depth ih =>
      have hrender := settles_render ih.1 ih.2
      exact ⟨hrender, settles_startTyping hrender⟩


/-! ### Going to a passage -/

/-- What happens when a passage is left concerns timers and listeners. -/
theorem settles_passageInit {e : Engine Empty σ} (he : e.Ready place depth) (title : String) :
    Settles limit (fun n => perform Host.idle n (.trigger .passageInit title)) e := by
  refine settles_trigger (Engine.Ready place depth) (fun h hpaced => h.paced hpaced)
    (fun h => h.standsIn) _ _ he ?_
  intro a ha e' he'
  have hevent := he.sound.event_of_mem_take ha
  cases a with
  | clearRepeats => exact .quickTo Builtin.quick_clearRepeats he'.standsIn
  | clearTimed => exact .quickTo Builtin.quick_clearTimed he'.standsIn
  | dropTyping => exact .quickTo Builtin.quick_dropTyping he'.standsIn
  | host procedure => exact procedure.elim
  | _ => cases hevent

/-- When a passage has been rendered the queue starts. -/
theorem settles_passageEnd {e : Engine Empty σ} (he : e.Ready place depth) (title : String) :
    Settles limit (fun n => perform Host.idle n (.trigger .passageEnd title)) e := by
  refine settles_trigger (Engine.Ready place depth) (fun h hpaced => h.paced hpaced)
    (fun h => h.standsIn) _ _ he ?_
  intro a ha e' he'
  have hevent := he.sound.event_of_mem_take ha
  cases a with
  | startTyping => exact (settles_both limit depth).2 place e' he'
  | host procedure => exact procedure.elim
  | _ => cases hevent

theorem settles_showPassage {e : Engine Empty σ} (he : e.Ready place depth) (source : String) :
    Settles limit (fun n => showPassage (perform Host.idle n) source) e := by
  have hinner : e.beginShow.Ready place depth :=
    ⟨he.standsIn.beginShow, he.sound.congr rfl, he.depth⟩
  have hrender := (settles_both limit depth).1 e.display source place e.beginShow hinner
  have hshown : Settles limit (fun n => perform Host.idle n (.render e.display source) >>= fun _ =>
      modify fun e => { e with isPlaying := false }) e.beginShow :=
    hrender.bind fun _ => .const rfl (returned_ok ()) (Nat.le_refl _)
  exact hshown.congr (fun n => showPassage_apply _ source e) (Nat.le_refl _)

theorem settles_navigate {e : Engine Empty σ} (he : e.Ready place depth) (title : String) :
    Settles limit (fun n => perform Host.idle n (.navigate title)) e := by
  have hpaced := @Engine.Paced.carried σ
  refine .shift ?_ (Nat.le_refl _)
  change Settles limit (fun n => navigate (perform Host.idle n) title) e
  simp only [navigate]
  refine .next e rfl (Nat.le_refl _) ?_
  cases Entries.find? title e.passages with
  | none => exact .const rfl (returned_failure _) (Nat.le_refl _)
  | some source =>
      have hturn : (e.beginTurn title).Ready place depth := he.moved (.turn title)
      refine .next (e.beginTurn title) rfl (Nat.le_refl _) ?_
      refine (settles_passageInit hturn title).bind fun {n u e₁} h₁ => ?_
      have he₁ := hturn.paced ((hpaced.performs n).free hturn.standsIn h₁ (returned_ok u) trivial)
      refine (settles_showPassage he₁ source).bind fun {n u e₂} h₂ => ?_
      have hshown : Made .any place fun p : Perform Empty σ => showPassage p source :=
        .shown source
      have he₂ := he₁.paced (hpaced.made (hpaced.performs n) hshown he₁.standsIn h₂ (returned_ok u))
      exact settles_passageEnd he₂ title

end StoryEngine
