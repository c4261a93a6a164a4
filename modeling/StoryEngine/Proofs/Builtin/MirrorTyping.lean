import StoryEngine.Proofs.Builtin.Mirror
import StoryEngine.Proofs.Engine.TwinTexts
/-!
# StoryEngine.Proofs.Builtin.MirrorTyping

The macro that types its contents out, on an engine and on its twin that shows debug views. A text
whose turn comes at once is rendered and put in its place in both engines, and if it has letters
both begin to type them.
-/

namespace StoryEngine

open Engine Run

variable {σ : Type} {g g₀ : Progress} {s : Spot} {rest : List Spot} {p p' q : Perform Empty σ}
  {call : MacroCall Empty} {E : Engine Empty σ → Engine Empty σ → Prop}

namespace Builtin

/-! ### Putting a text into the queue -/

theorem enqueue_apply (context : Context Empty) (text : Nat → TypeCall) (e : Engine Empty σ) :
    enqueue context (fun id => .typeBody (text id)) e =
      (.ok (), e.enqueue context (e.captured context true) (text e.nextTypeId)) := rfl

theorem texts_of_openQueue {e e' : Engine Empty σ} (h : openQueue e = (.ok true, e')) :
    e'.texts = [] := by
  obtain ⟨listeners, hopen⟩ := openQueue_apply e
  rw [hopen] at h
  obtain ⟨hempty, rfl⟩ := Prod.mk.inj h
  exact List.isEmpty_iff.mp (Except.ok.inj hempty)

/-- A text is put into the queue that has its place. If its turn comes at once, it is the only one
that waits. -/
theorem mirror_joinQueue {slot : Slot} {context context' : Context Empty}
    (hidents : context'.calls.map MacroCall.ident = context.calls.map MacroCall.ident)
    {text : Nat → TypeCall} (hid : ∀ id, (text id).id = id)
    (hparent : ∀ id, (text id).parent = slot.plain) (htarget : ∀ id, (text id).target = slot.target) :
    Mirror (σ := σ) (Twin g) (Twin { g with free := slot :: g.free })
      (fun a b e d => b = a ∧ Twin g e d ∧ (a = true → g.queued = [] ∧ TwinCalm g e d))
      (joinQueue context fun id => .typeBody (text id))
      (joinQueue context fun id => .typeBody (text id))
      (joinQueue context' fun id => .typeBody { text id with parent := slot.wrapped }) := by
  intro e d h
  refine (h.mirrorAt_shared shared_openQueue (g.le_free slot)).bind fun _ isFirst e d hopen => ?_
  obtain ⟨rfl, hopen, h⟩ := hopen
  have hnext : d.nextTypeId = e.nextTypeId := by
    rw [h.dressed]
    rfl
  have hjoined : Twin g (e.enqueue context (e.captured context true) (text e.nextTypeId))
      (d.enqueue context' (d.captured context' true)
        { text d.nextTypeId with parent := slot.wrapped }) := by
    rw [h.captured_eq hidents, hnext]
    exact h.enqueue _ hidents (hid _) (hparent _) (htarget _)
  refine .next (enqueue_apply context text e) (enqueue_apply context' _ d) (.refl _) ?_
  cases isFirst with
  | false => exact .pure ⟨rfl, hjoined, nofun⟩
  | true =>
      have hcalm := h.calm (texts_of_openQueue hopen)
      have hqueued : g.queued = [] := by
        obtain ⟨slots, -, hcalm⟩ := hcalm
        have hprefix := hcalm.queued
        rw [texts_of_openQueue hopen] at hprefix
        exact List.prefix_nil.mp hprefix
      have hfirst : TwinCalm g (e.enqueue context (e.captured context true) (text e.nextTypeId))
          (d.enqueue context' (d.captured context' true)
            { text d.nextTypeId with parent := slot.wrapped }) := by
        rw [h.captured_eq hidents, hnext]
        exact hcalm.enqueue _ hidents (hid _) (hparent _) (htarget _)
      refine Mirror.get (P := TwinCalm g) (fun _ _ h => h.twin.dressed) (fun _ _ => rfl)
        (fun e => ?_) _ _ hfirst
      refine .ite (fun _ => ?_) fun _ e d h => .pure ⟨rfl, h.twin, fun _ => ⟨hqueued, h⟩⟩
      -- a passage is being rendered, at the end of which the text will have its turn
      have hlisten : Shared (Run.listen ⟨.passageEnd, some typingNamespace, true, .startTyping⟩ :
          Run Empty σ Unit) := .listen rfl (by decide)
      refine .seq ((Mirror.shared hlisten (.refl g)).of_imp fun _ _ h => h.twin) fun _ e d h => ?_
      exact .pure ⟨rfl, h, nofun⟩

theorem mirror_queueText (hp : MirrorTasks p p' q) (hspots : g.spots = s :: rest)
    {outer outer' : List (MacroCall Empty)}
    (hidents : outer'.map MacroCall.ident = outer.map MacroCall.ident) (speed : Nat)
    (options : TypeOptions) :
    Mirror (Twin g) (During g s call.id) (Same (Twin g))
      (queueText p ⟨call.moved s.plain, outer⟩ speed options)
      (queueText p' ⟨call.moved s.plain, outer⟩ speed options)
      (queueText q ⟨call.moved s.wrapped, outer'⟩ speed options) := by
  have hcalls : (Context.mk (call.moved s.wrapped) outer').calls.map MacroCall.ident =
      (Context.mk (call.moved s.plain) outer).calls.map MacroCall.ident :=
    congrArg (call.ident :: ·) hidents
  unfold queueText
  simp only [MacroCall.moved_name, MacroCall.moved_contents]
  refine .seq (.showModes hspots _) fun _ => (Mirror.target hspots).bind fun a b e d h => ?_
  obtain ⟨rfl, view, rfl, h⟩ := h
  have hview : (g.within s call.id (some view)).spots =
    ⟨s.plain, view.2, s.wrapped :: s.up⟩ :: g.spots := rfl
  refine (Mirror.appendElement hview (fun _ _ _ => ⟨rfl, rfl⟩) _ e d h).bind
    fun _ element e d h => ?_
  obtain ⟨rfl, h⟩ := h
  -- the element keeps the place of the text, and the debug view is not needed any more
  have hkept : Twin { g with free := ⟨s.plain, view.2, element⟩ :: g.free } e d :=
    h.of_le ⟨List.sublist_cons_self _ _, .refl _, List.Subset.refl _, List.sublist_cons_self _ _,
      .refl _, List.prefix_refl _⟩
  refine Mirror.seq (.decorate (.addClass _ _)) (fun _ => ?_) e d hkept
  refine (mirror_joinQueue hcalls (fun _ => rfl) (fun _ => rfl) fun _ => rfl).bind
    fun _ isNext e d hjoin => ?_
  obtain ⟨rfl, htwin, hfirst⟩ := hjoin
  cases isNext with
  | false => exact .pure ⟨rfl, htwin⟩
  | true =>
      obtain ⟨hqueued, hcalm⟩ := hfirst rfl
      exact hp.start hqueued e d hcalm

theorem mirror_runType (hp : MirrorTasks p p' q) (hspots : g.spots = s :: rest)
    {outer outer' : List (MacroCall Empty)}
    (hidents : outer'.map MacroCall.ident = outer.map MacroCall.ident) :
    Mirror (Twin g) (During g s call.id) (Same (Twin g)) (runType p ⟨call.moved s.plain, outer⟩)
      (runType p' ⟨call.moved s.plain, outer⟩) (runType q ⟨call.moved s.wrapped, outer'⟩) := by
  unfold runType
  simp only [MacroCall.moved_args, MacroCall.moved_contents]
  cases call.args.values.map Value.display with
  | nil => exact .error hspots _
  | cons speedText words =>
      dsimp only
      cases milliseconds speedText with
      | error e => exact .fail _ fun _ _ h => h.twin
      | ok ms =>
          refine .ite (fun _ => .error hspots _) fun _ => ?_
          cases checkedDelay ms speedText with
          | error e => exact .error hspots _
          | ok speed =>
              refine .get (fun _ _ h => h.dressed) (fun _ _ => rfl) fun e => ?_
              cases typeOptions { skipKey := e.config.typeSkipKey } words with
              | error fault =>
                  cases fault with
                  | shown message => exact .error hspots message
                  | failed f => exact .fail f fun _ _ h => h.twin
              | ok options =>
                  exact .ite (fun _ => .leave (.pure ())) fun _ =>
                    mirror_queueText hp hspots hidents speed options

/-! ### The turn of a text -/

variable {text : TypeCall} {slot : Slot} {job : TypeJob} {wrapper : ElementId} {o w : OutputId}

theorem decorates_dressWrapper (text : TypeCall) (wrapper : ElementId) :
    Tree.Decorates (dressWrapper text wrapper) := by
  unfold dressWrapper
  dsimp only
  cases text.options.elementId <;> cases text.options.classes
  · exact .addClass _ _
  · exact .comp (.addClass _ _) (.addClass _ _)
  · exact .comp (.addClass _ _) (.setAttr _ _ _)
  · exact .comp (.comp (.addClass _ _) (.setAttr _ _ _)) (.addClass _ _)

theorem mirror_fillText (hp : MirrorTasks p p' q) {out : OutputId}
    (hle : g₀.Le (g.filling wrapper o w out)) (text : TypeCall) (parent : OutputId) :
    Mirror (Twin g₀) (Twin (g.filling wrapper o w out)) (Same (Twin (g.filling wrapper o w out)))
      (fillText p text wrapper) (fillText p' text wrapper)
      (fillText q { text with parent := parent } wrapper) := by
  have hspot : (g.filling wrapper o w out).spots = ⟨o, w, []⟩ :: g.spots := rfl
  refine .seq (.decorate (decorates_dressWrapper text wrapper)) fun _ => ?_
  refine (Mirror.content List.mem_cons_self List.mem_cons_self).bind fun content content' e d h => ?_
  obtain ⟨⟨rfl, rfl⟩, h⟩ := h
  exact hp.render_le hle hspot _ e d h

/-- The text is rendered in an element of its own, in which no places are kept for others. -/
theorem mirror_wrapText (hp : MirrorTasks p p' q) (hqueued : g.queued = []) (text : TypeCall)
    (parent : OutputId) :
    Mirror (Twin g) (Twin (g.turn job slot))
      (fun a b e d => b = a ∧ ∃ o w, (∀ free ∈ g.free, free.plain ≠ o) ∧
        Twin ((g.turn job slot).filling a o w slot.plain) e d)
      (wrapText p text) (wrapText p' text) (wrapText q { text with parent := parent }) := by
  intro e d h
  obtain ⟨others, slots, -, hpair, -⟩ := h.turn rfl
  obtain ⟨regions, hscene⟩ := hpair.scene
  have hmade : slot.plain.index < e.tree.outputs.size := by
    refine (hscene.slots slot ?_).1
    simp [Progress.scene]
  have hfree : ∀ free ∈ g.free, free.plain ≠ ⟨e.tree.outputs.size⟩ := by
    intro free hmem heq
    have hlt := (hscene.slots free (List.mem_append_left _ hmem)).1
    rw [heq] at hlt
    exact Nat.lt_irrefl _ hlt
  have hnew := h.newElement hmade text.options.tag
  have hid : (d.tree.newElement text.options.tag).1 = ⟨e.tree.elements.size⟩ :=
    congrArg ElementId.mk h.elements_size
  rw [wrapText_eq, wrapText_eq, wrapText_eq]
  refine .next (Run.withTree_apply _ e) (Run.withTree_apply _ d) (.newElement d.tree _) ?_
  dsimp only
  rw [hid]
  have hle (o w : OutputId) := (Progress.le_turn hqueued job slot).trans
    ((g.turn job slot).le_filling ⟨e.tree.elements.size⟩ o w slot.plain)
  refine (mirror_fillText hp (hle _ _) text parent _ _ hnew).bind fun _ _ e₁ d₁ h₁ => ?_
  exact .pure ⟨rfl, _, _, hfree, h₁.2⟩

theorem mirror_isShownAtOnce (text : TypeCall) (wrapper : ElementId) (parent : OutputId) :
    Mirror (σ := σ) E (Twin g) (Same (Twin g)) (isShownAtOnce text wrapper)
      (isShownAtOnce text wrapper) (isShownAtOnce { text with parent := parent } wrapper) := by
  intro e d h
  obtain ⟨slots, hpair, -⟩ := id h
  have herrors := hpair.scene.errors_content wrapper
  have hvisited : d.config.typeVisitedPassages = e.config.typeVisitedPassages := by
    rw [hpair.dressed]
    rfl
  have hread (text : TypeCall) (e : Engine Empty σ) : isShownAtOnce text wrapper e =
      (.ok (text.speed = 0 ||
        (!e.config.typeVisitedPassages && e.state.visitedBefore e.state.passage) ||
        !(e.tree.errors (e.tree.content wrapper)).isEmpty), e) := rfl
  refine ⟨?_, .inl rfl, ?_⟩
  · rw [hread, hread]
    refine .ok ⟨?_, h⟩
    rw [herrors, hvisited, h.state_eq]
  · rw [hread]
    exact .refl _

/-- A text that was rendered is in its place, and is shown, will be typed out or is about to be. -/
theorem mirror_placeText (hqueued : g.queued = []) (hparent : text.parent = slot.plain)
    (htarget : text.target = slot.target) (hfree : ∀ free ∈ g.free, free.plain ≠ o) :
    Mirror (σ := σ) (Twin g) (Twin ((g.turn job slot).filling wrapper o w slot.plain))
      (fun a b e d => b = a ∧
        match a with
        | .shown => TwinPlaced (g.filled wrapper o w) job e d
        | .waiting => Twin (g.filled wrapper o w) e d
        | .typed index => ∃ e₀ d₀ moment, TwinPlaced (g.filled wrapper o w) job e₀ d₀ ∧
            index = e₀.typings.size ∧ e = e₀.setTyping text wrapper moment ∧
            d = d₀.setTyping text wrapper moment)
      (placeText text wrapper) (placeText text wrapper)
      (placeText { text with parent := slot.wrapped } wrapper) := by
  have hle : g.Le ((g.turn job slot).filling wrapper o w slot.plain) :=
    (Progress.le_turn hqueued job slot).trans ((g.turn job slot).le_filling _ _ _ _)
  refine .seq (.shared .moment hle) fun moment => ?_
  refine .seq (mirror_isShownAtOnce text wrapper slot.wrapped) fun atOnce e d h => ?_
  have hplaced := h.place
  refine .next (Run.withTree_apply _ e) (Run.withTree_apply _ d) (.replaceElement _ _ _ _) ?_
  dsimp only
  rw [hparent, htarget]
  cases atOnce with
  | true => exact .pure ⟨rfl, hplaced⟩
  | false =>
      have hmarked := hplaced.decorate (decorates_markCursor text wrapper)
      have hbusy := hmarked.busy text moment hqueued rfl List.mem_cons_self hfree
      have hsize : d.typings.size = e.typings.size := by
        obtain ⟨_, _, _, hpair, -⟩ := hplaced
        exact hpair.typings
      simp only [Bool.false_eq_true, if_false]
      refine .next (makeTyping_setTyping text wrapper moment _) (makeTyping_setTyping _ wrapper moment _)
        (((decorates_markCursor text wrapper).extend _).trans (.ofElement _ wrapper)) ?_
      dsimp only
      rw [hsize]
      refine Mirror.ite (P := fun e' d' => e' = _ ∧ d' = _) (fun _ => ?_) (fun _ => ?_) _ _ ⟨rfl, rfl⟩
      · rintro _ _ ⟨rfl, rfl⟩
        refine Mirror.seq (.shared (.withClock _) (g.le_filled wrapper o w)) (fun _ e d h => ?_) _ _ hbusy
        exact .pure ⟨rfl, h⟩
      · rintro _ _ ⟨rfl, rfl⟩
        exact .pure ⟨rfl, _, _, _, hmarked, rfl, rfl, rfl⟩

/-! ### The first letter -/

theorem withTyper_eq {α : Type} (typing : Nat) (t : Typing) (change : Typer → Tree → α × Typer × Tree)
    (e : Engine Empty σ) :
    withTyper typing t change e = (.ok (change t.typer e.tree).1, { e with
      tree := (change t.typer e.tree).2.2
      typings := e.typings.modify typing fun other =>
        { other with typer := (change t.typer e.tree).2.1 } }) := rfl

/-- A letter is typed, and the interval for the others is set. -/
theorem typeFirst_letter {e : Engine Empty σ} {typing : Nat} {t : Typing}
    (ht : e.typings[typing]? = some t) (hdone : t.typer.isDone = false) {c : Char} {letters : List Char}
    (huntyped : t.typer.untyped = c :: letters) :
    typeFirst typing e = (.ok none, { e with
      tree := e.tree.pushText (e.tree.content t.typer.wrapper) (String.singleton c)
      typings := e.typings.modify typing fun other =>
        { other with typer := { t.typer with untyped := letters } }
      clock := (e.clock.setInterval t.speed (.typeLetter typing)).2 }) := by
  have hnext : t.typer.typeNext e.tree = (true, { t.typer with untyped := letters },
      e.tree.pushText (e.tree.content t.typer.wrapper) (String.singleton c)) := by
    unfold Typer.typeNext
    rw [if_neg (Bool.eq_false_iff.mp hdone), huntyped]
  have htyped := withTyper_eq typing t Typer.typeNext e
  rw [hnext] at htyped
  rw [typeFirst, Run.get_bind_apply, ht]
  dsimp only
  rw [Run.bind_of_ok htyped]
  rfl

/-- If there is none, the content is put back, and the text is to be stopped. -/
theorem typeFirst_none {e : Engine Empty σ} {typing : Nat} {t : Typing}
    (ht : e.typings[typing]? = some t) (hdone : t.typer.isDone = false)
    (huntyped : t.typer.untyped = []) :
    typeFirst typing e = (.ok (some t), { e with
      tree := (t.typer.finish e.tree).2
      typings := e.typings.modify typing fun other =>
        { other with typer := (t.typer.finish e.tree).1 } }) := by
  have hnext : t.typer.typeNext e.tree =
      (false, (t.typer.finish e.tree).1, (t.typer.finish e.tree).2) := by
    unfold Typer.typeNext
    rw [if_neg (Bool.eq_false_iff.mp hdone), huntyped]
  have htyped := withTyper_eq typing t Typer.typeNext e
  rw [hnext] at htyped
  rw [typeFirst, Run.get_bind_apply, ht]
  dsimp only
  rw [Run.bind_of_ok htyped]
  rfl

/-- A text without letters is stopped as soon as it was set aside. The next one has its turn. -/
theorem mirror_stopEmpty (hp : MirrorTasks p p' q) (hqueued : g.queued = []) (hid : text.id = job.id)
    {e d : Engine Empty σ} (h : TwinPlaced (g.filled wrapper o w) job e d)
    {typings typings' : Array Typing} (hsize : typings'.size = typings.size) (typing : Nat)
    (moment : Moment) {typer typer' : Typer} (hwrapper : typer'.wrapper = typer.wrapper) :
    MirrorAt (Twin g) (Same (Twin g)) (stopTyping p typing (typingOf text moment typer))
      (stopTyping p' typing (typingOf text moment typer))
      (stopTyping q typing (typingOf text moment typer'))
      { e.setTyping text wrapper moment with tree := e.tree.newOutput.2, typings := typings }
      { d.setTyping text wrapper moment with tree := d.tree.newOutput.2, typings := typings' } := by
  have hsame (change : Typing → Typing) :
      (typings'.modify typing change).size = (typings.modify typing change).size := by
    rw [Array.size_modify, Array.size_modify, hsize]
  have hending := (h.ending hid wrapper moment
    (hsame fun t => { t with isStopped := true })).of_le (g.le_filled wrapper o w)
  have hdone : Tree.Decorates fun tree =>
      let tree := (tree.removeClass typer.wrapper (text.className ++ "-cursor")).addClass
        typer.wrapper (text.className ++ "-done")
      if text.options.cursor = .kept then
        tree.addClass typer.wrapper (text.className ++ "-cursor")
      else tree := by
    dsimp only
    split
    · exact .comp (.comp (.removeClass _ _) (.addClass _ _)) (.addClass _ _)
    · exact .comp (.removeClass _ _) (.addClass _ _)
  -- it is not stopped yet
  refine .next (x := modifyTyping typing _) (y := modifyTyping typing _) rfl rfl (.refl _) ?_
  refine .next (x := modify _) (y := modify _) rfl rfl (.refl _) ?_
  refine (hp.stop hqueued _ _ hending).bind fun _ _ e d hstopped => ?_
  have hdecorated := Mirror.decorate (E := Twin g) hdone e d hstopped.2
  unfold typingOf
  rw [hwrapper]
  exact hdecorated

theorem mirror_typeFirst (hp : MirrorTasks p p' q) (hqueued : g.queued = []) (hid : text.id = job.id)
    (hfree : ∀ free ∈ g.free, free.plain ≠ o) {e d : Engine Empty σ}
    (h : TwinPlaced (g.filled wrapper o w) job e d) (moment : Moment) :
    MirrorAt (Twin g) (Same (Twin g)) (typeFirst e.typings.size >>= stopText p e.typings.size)
      (typeFirst e.typings.size >>= stopText p' e.typings.size)
      (typeFirst e.typings.size >>= stopText q e.typings.size)
      (e.setTyping text wrapper moment) (d.setTyping text wrapper moment) := by
  have hspots : (g.filled wrapper o w).spots = ⟨o, w, []⟩ :: g.spots := rfl
  have hbusy := h.busy text moment hqueued hspots List.mem_cons_self hfree
  obtain ⟨hscene, hspots', hslots⟩ := h.scene hspots List.mem_cons_self hfree
  have huntyped := hscene.untyped_eq hspots' hslots
  obtain ⟨others, slots, -, hpair, -⟩ := id h
  have ht := e.getElem?_setTyping text wrapper moment
  have ht' := hpair.getElem?_setTyping text wrapper moment
  have hsize (change change' : Typing → Typing) :
      ((d.setTyping text wrapper moment).typings.modify e.typings.size change').size =
        ((e.setTyping text wrapper moment).typings.modify e.typings.size change).size := by
    simp [setTyping, hpair.typings]
  cases hletters : (Typer.ofElement e.tree wrapper).1.untyped with
  | cons c letters =>
      rw [hletters] at huntyped
      refine .next (typeFirst_letter ht rfl hletters) (typeFirst_letter ht' rfl huntyped)
        (.pushText _ _ _) (.pure ⟨rfl, ?_⟩)
      refine Twin.of_le ?_ (g.le_filled wrapper o w)
      exact hbusy.typeLetter hspots List.mem_cons_self (String.singleton c) (hsize _ _)
        fun clock => (clock.setInterval text.speed (.typeLetter e.typings.size)).2
  | nil =>
      rw [hletters] at huntyped
      obtain ⟨ho, hw⟩ := hpair.content_eq List.mem_cons_self List.mem_cons_self
      obtain ⟨hmade, hmade'⟩ := hpair.scene.made (s := ⟨o, w, []⟩) List.mem_cons_self
      rw [← ho] at hmade
      rw [← hw] at hmade'
      -- the content is back where it was
      have hnone := typeFirst_none ht rfl hletters
      have hnone' := typeFirst_none ht' rfl huntyped
      have hback : (typingOf text moment (Typer.ofElement e.tree wrapper).1).typer.finish
          (e.setTyping text wrapper moment).tree = (_, e.tree.newOutput.2) :=
        Typer.finish_ofElement hmade
      have hback' : (typingOf text moment (Typer.ofElement d.tree wrapper).1).typer.finish
          (d.setTyping text wrapper moment).tree = (_, d.tree.newOutput.2) :=
        Typer.finish_ofElement hmade'
      rw [hback] at hnone
      rw [hback'] at hnone'
      refine .next hnone hnone' (Typer.extends_back hmade') ?_
      exact mirror_stopEmpty hp hqueued hid h (hsize _ _) _ moment rfl

/-- A text begins to be typed out. -/
theorem mirror_beginTyping (hp : MirrorTasks p p' q) (hqueued : g.queued = []) (hid : text.id = job.id)
    (hfree : ∀ free ∈ g.free, free.plain ≠ o) {e d : Engine Empty σ}
    (h : TwinPlaced (g.filled wrapper o w) job e d) (moment : Moment) :
    MirrorAt (Twin g) (Same (Twin g)) (beginTyping p e.typings.size)
      (beginTyping p' e.typings.size) (beginTyping q e.typings.size)
      (e.setTyping text wrapper moment) (d.setTyping text wrapper moment) := by
  have hbusy : Twin g (e.setTyping text wrapper moment) (d.setTyping text wrapper moment) :=
    (h.busy text moment hqueued rfl List.mem_cons_self hfree).of_le (g.le_filled wrapper o w)
  have hfirst := mirror_typeFirst hp hqueued hid hfree h moment
  obtain ⟨others, slots, -, hpair, -⟩ := h
  have ht := e.getElem?_setTyping text wrapper moment
  have ht' := hpair.getElem?_setTyping text wrapper moment
  rw [beginTyping_eq, beginTyping_eq, beginTyping_eq]
  refine .get ?_
  rw [ht, ht']
  dsimp only
  have hstale (e : Engine Empty σ) : Run.isStale moment e = (.ok (decide (e.moment ≠ moment)), e) := rfl
  have hmoment : (d.setTyping text wrapper moment).moment = (e.setTyping text wrapper moment).moment := by
    unfold Engine.moment
    rw [hbusy.state_eq]
  refine .next (hstale _) (hstale _) (.refl _) ?_
  rw [hmoment]
  cases decide ((e.setTyping text wrapper moment).moment ≠ moment) with
  | true =>
      refine ⟨.ok ⟨rfl, hbusy.retype ?_⟩, .inl rfl, .refl _⟩
      simp [setTyping, hpair.typings]
  | false =>
      have hfits := fits_setTyping hpair.fits text wrapper moment
      have hfits' : ∀ l ∈ (d.setTyping text wrapper moment).listeners, l.Fits := by
        rw [hpair.listeners_setTyping]
        exact hfits
      have hunheard : MirrorAt (Twin g) (fun _ _ e' d' => e' = e.setTyping text wrapper moment ∧
          d' = d.setTyping text wrapper moment) (p (.trigger .typingStart ""))
          (p' (.trigger .typingStart "")) (q (.trigger .typingStart "")) _ _ :=
        (hp.unheard .typingStart _ _ (.inl rfl) hfits hfits').mono
          (fun _ _ hE => hE.1 ▸ hE.2 ▸ hbusy) fun _ _ _ _ hQ => hQ
      refine hunheard.bind fun _ _ _ _ hsame => ?_
      obtain ⟨rfl, rfl⟩ := hsame
      exact hfirst

/-- The next text has its turn, if there is one. -/
theorem mirror_shown (hp : MirrorTasks p p' q) (hqueued : g.queued = []) {e d : Engine Empty σ}
    (h : TwinPlaced (g.filled wrapper o w) job e d) :
    MirrorAt (Twin g) (Same (Twin g)) (afterPlacing p .shown) (afterPlacing p' .shown)
      (afterPlacing q .shown) e d := by
  have hcalm : TwinCalm g { e with typeQueue := e.typeQueue.map List.tail }
      { d with typeQueue := d.typeQueue.map List.tail } :=
    (h.leave hqueued).of_le (g.le_filled wrapper o w)
  have hdequeue (e : Engine Empty σ) : dequeue e =
      (.ok ((e.typeQueue.map List.tail).any fun queue => !queue.isEmpty),
        { e with typeQueue := e.typeQueue.map List.tail }) := rfl
  obtain ⟨others, slots, -, hpair, -⟩ := h
  refine .next (hdequeue e) (hdequeue d) (.refl _) ?_
  rw [hpair.typeQueue_eq] at hcalm ⊢
  cases (e.typeQueue.map List.tail).any fun queue => !queue.isEmpty with
  | true => exact hp.start hqueued _ _ hcalm
  | false => exact .pure ⟨rfl, hcalm.twin⟩

/-- A text has its turn. -/
theorem mirror_runTypeBody (hp : MirrorTasks p p' q) (hqueued : g.queued = [])
    (hid : text.id = job.id) (hparent : text.parent = slot.plain) (htarget : text.target = slot.target) :
    Mirror (Twin g) (Twin (g.turn job slot)) (Same (Twin g)) (runTypeBody p text)
      (runTypeBody p' text) (runTypeBody q { text with parent := slot.wrapped }) := by
  rw [runTypeBody_eq, runTypeBody_eq, runTypeBody_eq]
  refine (mirror_wrapText hp hqueued text slot.wrapped).bind fun _ wrapper e d h => ?_
  obtain ⟨rfl, o, w, hfree, h⟩ := h
  refine (mirror_placeText hqueued hparent htarget hfree e d h).bind fun _ placed e d h => ?_
  obtain ⟨rfl, h⟩ := h
  cases placed with
  | shown => exact mirror_shown hp hqueued h
  | waiting => exact .pure ⟨rfl, h.of_le (g.le_filled wrapper o w)⟩
  | typed index =>
      obtain ⟨e₀, d₀, moment, hplaced, rfl, rfl, rfl⟩ := h
      exact mirror_beginTyping hp hqueued hid hfree hplaced moment

/-! ### The queue goes on -/

/-- The first text of the queue has its turn. -/
theorem mirror_startFirst (hp : MirrorTasks p p' q) (hqueued : g.queued = []) :
    Mirror (Twin g) (TwinCalm g) (Same (Twin g)) (startFirst p) (startFirst p') (startFirst q) := by
  intro e d h
  obtain ⟨slots, hpair, -⟩ := id h
  have htexts : d.texts = e.texts := congrArg (·.getD []) hpair.typeQueue_eq
  refine .next (firstText_apply e) (firstText_apply d) (.refl _) ?_
  rw [htexts]
  cases hjob : e.texts.head? with
  | none => exact .pure ⟨rfl, h.twin⟩
  | some job => exact hp.invoke job hqueued e d ⟨h, hjob⟩

/-- A text was typed out, and none is being typed out now. -/
theorem mirror_nextTyping (hp : MirrorTasks p p' q) (hqueued : g.queued = []) :
    Mirror (Twin g) (TwinCalm g) (Same (Twin g)) (nextTyping p) (nextTyping p') (nextTyping q) := by
  intro e d h
  obtain ⟨slots, hpair, -⟩ := id h
  refine .get ?_
  rw [hpair.typeQueue_eq]
  cases e.typeQueue with
  | none => exact .pure ⟨rfl, h.twin⟩
  | some queue =>
      cases queue with
      | cons _ _ => exact hp.start hqueued e d h
      | nil =>
          have hfits : ∀ l ∈ d.listeners, l.Fits := hpair.listeners_eq ▸ hpair.fits
          refine (hp.unheard .typingComplete e d (.inr rfl) hpair.fits hfits).mono ?_ ?_
          · rintro _ _ ⟨rfl, rfl⟩
            exact h.twin
          · rintro _ _ _ _ ⟨rfl, rfl⟩
            exact ⟨rfl, h.twin⟩

end Builtin

end StoryEngine
