import StoryEngine.Proofs.Engine.Quick
/-!
# StoryEngine.Proofs.Builtin.Quick

What the built-in macros do between the renders that they ask for is quick work: setting and
removing variables, wishing to leave a loop, filling elements, and putting work off.

Handlers are made for the context of the call that makes them, and registered at once for clicks,
chains or the typing queue. The two steps are taken together here, since what is registered has to
be a handler of the right kind.
-/

namespace StoryEngine.Builtin

variable {σ : Type} {place : Place}

/-! ### Variables -/

theorem quick_runSet (call : MacroCall Empty) : Quick place (runSet call : Run Empty σ Unit) := by
  unfold runSet withExpression
  dsimp only
  split
  · exact call.quick_error _
  · refine .bind (.evaluating (reassigns_evaluate _)) fun result => ?_
    split
    · exact call.quick_error _
    · exact call.quick_showModes _

theorem quick_unsetAll (names : List String) :
    Quick place (unsetAll names : Run Empty σ Unit) := by
  induction names with
  | nil => exact .pure ()
  | cons name rest ih =>
      refine .bind (.changingState fun s t h => ?_) fun _ => ih
      cases hu : s.unset name with
      | error e => rw [hu] at h; cases h
      | ok result =>
          rw [hu] at h
          cases h
          exact State.reassigned_of_unset hu

theorem quick_runUnset (call : MacroCall Empty) :
    Quick place (runUnset call : Run Empty σ Unit) := by
  unfold runUnset
  dsimp only
  split
  · exact call.quick_error _
  · exact .bind (quick_unsetAll _) fun _ => call.quick_showModes _

/-! ### Choices -/

theorem quick_clauseView (call : MacroCall Empty) (name title : String)
    (modes : List (String × Bool)) :
    Quick place (clauseView call name title modes : Run Empty σ Unit) :=
  .bind (call.quick_createView _ _) fun _ => .changeTree fun _ _ _ => .setModes _ _

theorem quick_skippedViews (call : MacroCall Empty) (clauses : List PayloadClause) :
    Quick place (skippedViews call clauses : Run Empty σ Unit) := by
  induction clauses with
  | nil => exact .pure ()
  | cons clause rest ih => exact .bind (quick_clauseView call _ _ _) fun _ => ih

theorem quick_closingViews (call : MacroCall Empty) (isDebug found : Bool)
    (after : List PayloadClause) :
    Quick place (closingViews call isDebug found after : Run Empty σ Unit) := by
  unfold closingViews
  split
  · exact .bind (quick_skippedViews call after) fun _ => quick_clauseView call _ _ _
  · exact .pure ()

theorem quick_clauseHolds (clause : PayloadClause) :
    Quick place (clauseHolds clause : Run Empty σ (Except ExprError Bool)) := by
  unfold clauseHolds
  split
  · exact .pure _
  · exact .evaluating (reassigns_evaluateCondition _)

/-! ### Loops -/

theorem quick_takeBreak : Quick place (takeBreak : Run Empty σ Bool) :=
  .get fun _ _ => .bind (.modify fun _ => .noWish) fun _ => .pure _

theorem quick_hideBlank (call : MacroCall Empty) (body : List Char) :
    Quick place (hideBlank call body : Run Empty σ Unit) := by
  unfold hideBlank
  split
  · exact call.quick_showModes _
  · exact .pure ()

theorem quick_tooManyPasses : Quick place (tooManyPasses : Run Empty σ String) :=
  .get fun _ _ => .pure _

theorem quick_conditionHolds (condition : Option String) :
    Quick place (conditionHolds condition : Run Empty σ (Except ExprError Bool)) := by
  unfold conditionHolds
  split
  · exact .pure _
  · exact .evaluating (reassigns_evaluateCondition _)

theorem quick_evaluatePart (part : Option String) :
    Quick place (evaluatePart part : Run Empty σ (Option ExprError)) := by
  cases part with
  | none => exact .pure _
  | some expression =>
      refine .bind (.evaluating (reassigns_evaluate expression)) fun result => ?_
      split
      · exact .pure _
      · exact .pure _

theorem quick_setVariable (value : Value) (name : Option String) :
    Quick place (setVariable value name : Run Empty σ Unit) := by
  cases name with
  | none => exact .pure ()
  | some name => exact .changingState fun _ _ => State.reassigned_of_set

/-- A loop is left only from a place that stands in one. -/
theorem quick_runLoopControl {context : Context Empty} :
    Quick (place.within context) (runLoopControl context : Run Empty σ Unit) := by
  unfold runLoopControl
  dsimp only
  split
  · rename_i h
    have hloop : areInLoop (place.within context).calls = true := by
      show (context.call :: context.outer).any _ = true
      rw [List.any_cons, h, Bool.or_true]
    exact .bind (.modify fun _ => .wish _ (.inl hloop)) fun _ => context.call.quick_showModes _
  · exact context.call.quick_error _

/-! ### Links -/

theorem quick_showImage (element : ElementId) (first : Value) :
    Quick place (showImage element first : Run Empty σ Unit) := by
  refine .bind (.withTree fun _ _ ht => .appendElement ht _ _) fun image => ?_
  dsimp only
  split
  · refine .bind (.changeTree fun _ _ _ => .setAttr _ _ _) fun _ => ?_
    exact .changeTree fun _ _ _ => .addClass _ _
  · exact .changeTree fun _ _ _ => .addClass _ _

theorem quick_labelLink (element : ElementId) (passage : Option String) :
    Quick place (labelLink element passage : Run Empty σ Unit) := by
  unfold labelLink
  split
  · exact .get fun _ _ => .changeTree fun _ _ _ => .trans (.setAttr _ _ _) (.addClass _ _)
  · refine .changeTree fun t _ _ => ?_
    split
    · exact .refl t
    · exact .addClass _ _

/-- The handler of a clickable element is made and registered. -/
theorem quick_makeClickable (context : Context Empty) {element : ElementId} (contents : String)
    (passage : Option String) (hsince : place.mark.extent.elements ≤ element.index)
    (hthere : element.index < place.elements) :
    Quick (place.within context)
      (makeClickable context element contents passage : Run Empty σ Unit) := by
  refine Quick.ofChanges fun e he => ?_
  obtain ⟨h, hclick, hplace, hrun⟩ : ∃ h : ShadowHandler Empty, h.IsClick ∧
      (place.within context).context = some h.context ∧
      (makeClickable context element contents passage : Run Empty σ Unit) e =
        (.ok (), { e with
          handlers := e.handlers.push h
          clickables := e.clickables ++ [⟨element, ⟨e.handlers.size⟩, passage.isSome⟩] }) := by
    unfold makeClickable ShadowHandler.make
    have hdone : passage.map .goTo = (none : Option (Callback Empty)) ∨
        ∃ title : String, (passage.map .goTo : Option (Callback Empty)) = some (.goTo title) := by
      cases passage with
      | none => exact .inl rfl
      | some title => exact .inr ⟨title, rfl⟩
    cases contents.isEmpty with
    | true => exact ⟨⟨context, [], none, none, _⟩, ⟨rfl, .inl rfl, hdone⟩, rfl, rfl⟩
    | false => exact ⟨⟨context, _, none, _, _⟩, ⟨rfl, .inr ⟨_, rfl⟩, hdone⟩, rfl, rfl⟩
  refine ⟨_, _, hrun, .tail (.single (.handler h hplace)) (.clickable _ ?_ ?_ hsince ?_)⟩
  · exact ⟨h, Array.getElem?_push_size, hclick⟩
  · exact he.parted.handlers
  · exact Nat.lt_of_lt_of_le hthere he.elements

/-! ### Delays -/

theorem floor_le_of_delayOf {time : String} {floor delay : Nat} (h : delayOf time floor = .ok delay) :
    floor ≤ delay := by
  unfold delayOf at h
  cases hms : milliseconds time with
  | error e => rw [hms] at h; cases h
  | ok ms =>
      cases hchecked : checkedDelay ms time with
      | error e => simp [hms, hchecked, bind, Except.bind] at h
      | ok whole =>
          simp only [hms, hchecked, bind, Except.bind, Except.ok.injEq] at h
          exact h ▸ Nat.le_max_right _ _

theorem floor_le_of_nextItems {floor index previous : Nat} {clauses : List PayloadClause}
    {items : List TimedItem} (hprevious : floor ≤ previous)
    (h : nextItems floor index previous clauses = .ok items) :
    ∀ item ∈ items, floor ≤ item.delay := by
  induction clauses generalizing index previous items with
  | nil => cases h; nofun
  | cons clause rest ih =>
      rw [nextItems] at h
      split at h
      · cases h
      · rename_i delay hdelay
        have hfloor : floor ≤ delay := by
          split at hdelay
          · cases hdelay
            exact hprevious
          · exact floor_le_of_delayOf hdelay
        split at h
        · cases h
        · rename_i items hitems
          cases h
          exact List.forall_mem_cons.mpr ⟨hfloor, ih hfloor hitems⟩

/-- The clauses of a call do not have a shorter delay than the least. -/
theorem floor_le_of_timedItems {call : MacroCall Empty} {floor : Nat} {first : TimedItem}
    {others : List TimedItem} (h : timedItems call floor = .ok (first, others)) :
    ∀ item ∈ first :: others, floor ≤ item.delay := by
  rw [timedItems] at h
  split at h
  · cases h
  · split at h
    · cases h
    · rename_i delay hdelay
      have hfloor := floor_le_of_delayOf hdelay
      split at h
      · cases h
      · rename_i items hitems
        cases h
        exact List.forall_mem_cons.mpr ⟨hfloor, floor_le_of_nextItems hfloor hitems⟩

/-! ### Intervals and chains -/

/-- A new handler is recent. -/
theorem quickTo_makeHandler {context : Context Empty}
    (start callback done : Option (Callback Empty)) :
    QuickTo (place.within context) (fun id => place.mark.handlers ≤ id.index)
      (ShadowHandler.make context start callback done : Run Empty σ HandlerId) := by
  have hpush (store : Overlay) : QuickTo (place.within context)
      (fun id => place.mark.handlers ≤ id.index)
      (do
        let id : HandlerId := ⟨(← get).handlers.size⟩
        modify fun e => { e with
          handlers := e.handlers.push ⟨context, store, start, callback, done⟩ }
        return id : Run Empty σ HandlerId) :=
    .bind .get fun e he => .after (.modify fun _ => .handler _ rfl) fun _ =>
      .pure he.parted.handlers
  unfold ShadowHandler.make
  split
  · exact .after context.quick_shadowView fun names => .after (quick_snapshot names) hpush
  · exact .after (.pure []) hpush

/-- The timer of a transition is set for the new element. -/
theorem quick_appendTransition (out : OutputId) (classes newClass : String) :
    Quick place (appendTransition out classes newClass : Run Empty σ ElementId) := by
  refine .ofChanges fun e he => ⟨_, _, rfl, ?_⟩
  have hmade := Tree.Grows.appendElement he.parted.tree out "span"
  refine .tail (.single (.display _ (hmade.trans (.addClass ⟨e.tree.elements.size⟩ classes))))
    (.timer _ none (.settle _ _) ⟨?_, rfl⟩ And.left)
  show e.tree.elements.size < ((e.tree.elements.push _).modify _ _).size
  rw [Array.size_modify, Array.size_push]
  exact Nat.lt_succ_self _

theorem quick_startInterval {handler : HandlerId} (delay : Nat)
    (h : place.mark.handlers ≤ handler.index) :
    Quick place (startInterval handler delay : Run Empty σ Unit) := by
  intro e he
  have hset : Change place e { e with
      clock := (e.clock.setInterval delay (.repeatTick handler e.moment)).2 } :=
    .timer _ _ _ ⟨h, rfl⟩ fun _ => Nat.le_max_right _ _
  refine .next rfl .refl (.next rfl (.single hset) (.next rfl .refl ?_))
  refine .next rfl (.single (.tracked _ _)) ?_
  split
  · exact .modify (.listen _ rfl)
  · exact .ofChanges rfl .refl trivial

theorem quick_runRepeat (context : Context Empty) :
    Quick (place.within context) (runRepeat context : Run Empty σ Unit) := by
  unfold runRepeat
  dsimp only
  split
  · exact context.call.quick_error _
  · refine .get fun e _ => ?_
    split
    · exact context.call.quick_error _
    · refine .bind (context.call.quick_showModes _) fun _ => ?_
      refine .bind context.call.quick_target fun out => ?_
      refine .bind (.withTree fun _ _ ht => .appendElement ht _ _) fun wrapper => ?_
      refine .bind (.changeTree fun _ _ _ => .addClass _ _) fun _ => ?_
      exact (quickTo_makeHandler _ _ _).bind fun handler h => quick_startInterval _ h

theorem quick_forgetRepeat (id : TimerId) : Quick place (forgetRepeat id : Run Empty σ Unit) :=
  .modify fun e => .tracked _ e.timedTimers

theorem quick_clearRepeats : Quick place (clearRepeats : Run Empty σ Unit) :=
  .ofChanges fun e _ => ⟨_, _, rfl, .timers (.clearTimers _ _) [] e.timedTimers⟩

theorem quick_forgetAmongRepeats (id : TimerId) :
    Quick place (forgetAmongRepeats id : Run Empty σ Unit) := by
  refine .get fun e _ => ?_
  split
  · exact quick_forgetRepeat id
  · exact .modify fun e => .tracked e.repeatTimers _
  · exact .pure ()

/-- A tick renders no more of its body when its interval ends. -/
theorem quick_runStop (call : MacroCall Empty) :
    Quick place (runStop call : Run Empty σ Unit) := by
  intro e he
  refine .next (a := e) rfl .refl ?_
  cases hid : e.repeatTimer with
  | none => exact call.quick_error _ e he
  | some id =>
      refine .bind (Quick.changeClock (.clearTimer · _) e he) fun _ e₁ h₁ _ => ?_
      refine .bind (quick_forgetAmongRepeats id e₁ (h₁.standsIn he)) fun _ e₂ h₂ _ => ?_
      have htimer : e₂.repeatTimer.isSome = true := by
        rw [h₂.repeatTimer, h₁.repeatTimer, hid]
        rfl
      refine .bind (.modify (.wish _ (.inr htimer))) fun _ e₃ h₃ _ => ?_
      exact call.quick_showModes _ e₃ (h₃.standsIn (h₂.standsIn (h₁.standsIn he)))

theorem quickAt_scheduleChain {e : Engine Empty σ} {chain delay : Nat}
    (h : chain < e.chains.size) (hdelay : e.Unhurried → 0 < delay) :
    QuickAt place (fun _ => True) (scheduleChain chain delay : Run Empty σ Unit) e :=
  .ofChanges rfl (.tail (.single (.timer delay none (.timedStep chain) ⟨h, rfl⟩ hdelay))
    (.tracked _ _)) trivial

theorem quickAt_startChain {e : Engine Empty σ} (he : e.StandsIn place) {chain delay : Nat}
    (h : chain < e.chains.size) (hdelay : e.Unhurried → 0 < delay) :
    QuickAt place (fun _ => True) (startChain chain delay : Run Empty σ Unit) e := by
  refine (quickAt_scheduleChain h hdelay).bind fun _ e₁ h₁ _ => ?_
  refine Quick.get (fun e _ => ?_) e₁ (h₁.standsIn he)
  split
  · exact .listen rfl
  · exact .pure ()

/-- The handler of a chain is made and registered, and the chain begins. -/
theorem quickAt_beginChain {context : Context Empty} {e : Engine Empty σ}
    (he : e.StandsIn (place.within context)) (wrapper : ElementId) (transition : Bool)
    {first : TimedItem} {others : List TimedItem}
    (hwait : 0 < e.config.domDelayMs → ∀ item ∈ first :: others, 0 < item.delay) :
    QuickAt (place.within context) (fun _ => True) (do
      let chain ← makeChain context (.timedBody wrapper transition) (first :: others)
      startChain chain first.delay : Run Empty σ Unit) e := by
  have hmade : ∃ e₁ : Engine Empty σ,
      (makeChain context (.timedBody wrapper transition) (first :: others) :
        Run Empty σ Nat) e = (.ok e.chains.size, e₁) ∧ Changes (place.within context) e e₁ ∧
      e₁.chains.size = e.chains.size + 1 := by
    refine ⟨_, rfl, .tail (.single (.handler _ rfl)) (.chain _ ?_ he.parted.handlers rfl hwait),
      Array.size_push _⟩
    exact ⟨_, Array.getElem?_push_size, rfl, ⟨wrapper, transition, rfl⟩, rfl⟩
  obtain ⟨e₁, hrun, hchanges, hsize⟩ := hmade
  refine .next hrun hchanges (quickAt_startChain (hchanges.standsIn he) ?_ fun h => ?_)
  · rw [hsize]
    exact Nat.lt_succ_self _
  · exact hwait (hchanges.config ▸ h.1) first List.mem_cons_self

theorem quick_runTimed (context : Context Empty) :
    Quick (place.within context) (runTimed context : Run Empty σ Unit) := by
  intro e he
  refine .next (a := e) rfl .refl ?_
  split
  · exact context.call.quick_error _ e he
  · rename_i first others hitems
    have hfloor := floor_le_of_timedItems hitems
    refine (context.call.quick_showModes _ e he).bind fun _ e₁ h₁ _ => ?_
    refine (context.call.quick_target e₁ (h₁.standsIn he)).bind fun out e₂ h₂ _ => ?_
    have he₂ := h₂.standsIn (h₁.standsIn he)
    refine ((Quick.withTree fun _ _ ht => .appendElement ht _ _) e₂ he₂).bind
      fun wrapper e₃ h₃ _ => ?_
    refine ((Quick.changeTree fun _ _ _ => .addClass _ _) e₃ (h₃.standsIn he₂)).bind
      fun _ e₄ h₄ _ => ?_
    refine quickAt_beginChain (h₄.standsIn (h₃.standsIn he₂)) wrapper _ fun hleast item hitem => ?_
    rw [h₄.config, h₃.config, h₂.config, h₁.config] at hleast
    exact Nat.lt_of_lt_of_le hleast (hfloor item hitem)

theorem quick_itemTarget (wrapper : ElementId) (item : TimedItem) :
    Quick place (itemTarget wrapper item : Run Empty σ OutputId) := by
  refine .bind (.fromTree _) fun content => .get fun e _ => ?_
  split
  · exact .bind (.withTree fun _ _ ht => .appendView ht _ _ _ _) fun view => .fromTree _
  · exact .pure _

theorem quick_takeItem (chain : Nat) (id : TimerId) :
    Quick place (takeItem chain id : Run Empty σ (Option (HandlerId × TimedItem))) := by
  refine .bind (.modify fun e => .tracked e.repeatTimers _) fun _ e he => ?_
  refine .next rfl .refl ?_
  cases hk : e.chains[chain]? with
  | none => exact .ofChanges rfl .refl trivial
  | some k =>
      have hlt : chain < e.chains.size := (Array.getElem?_eq_some_iff.mp hk).1
      refine .congr (Run.isStale_bind_apply _ _ _) ?_
      split
      · exact .ofChanges rfl .refl trivial
      · split
        · exact .ofChanges rfl .refl trivial
        · rename_i item rest hitems
          have hrest : ∀ k', e.chains[chain]? = some k' → rest ⊆ k'.items := by
            intro k' hk'
            cases hk.symm.trans hk'
            rw [hitems]
            exact List.subset_cons_self item rest
          refine .next rfl (.single (.chainItems chain rest hrest)) ?_
          dsimp only
          split
          · rename_i next more
            refine (quickAt_scheduleChain ?_ fun hwait => ?_).bind
              fun _ _ _ _ => .ofChanges rfl .refl trivial
            · exact Nat.lt_of_lt_of_eq hlt Array.size_modify.symm
            · have hleft : (e.chains.modify chain fun k => { k with items := next :: more })[chain]? =
                  some { k with items := next :: more } := by
                rw [Array.getElem?_modify, if_pos rfl, hk]
                rfl
              exact hwait.2 _ (Array.mem_of_getElem? hleft) next List.mem_cons_self
          · exact .ofChanges rfl .refl trivial

theorem quick_clearTimed : Quick place (clearTimed : Run Empty σ Unit) :=
  .ofChanges fun e _ => ⟨_, _, rfl, .timers (.clearTimers _ _) e.repeatTimers []⟩

/-! ### Typing -/

theorem quick_dropTyping : Quick place (dropTyping : Run Empty σ Unit) :=
  .unlisten _ _

theorem quick_openQueue : Quick place (openQueue : Run Empty σ Bool) := by
  refine .get fun e _ => ?_
  split
  · exact .pure _
  · refine .bind quick_dropTyping fun _ => .bind (.listen rfl) fun _ => ?_
    exact .bind (.modify fun _ => .openQueue) fun _ => .pure _

/-- The handler of a text is made and put into the queue. -/
theorem quick_enqueue (context : Context Empty) {body : Nat → TypeCall}
    (hbody : ∀ id, (body id).id = id) :
    Quick (place.within context) (enqueue context fun id => .typeBody (body id) : Run Empty σ Unit) :=
  .ofChange fun e => ⟨_, _, rfl, .text _ rfl ⟨rfl, ⟨body e.nextTypeId, hbody _, rfl⟩, rfl⟩⟩

theorem quick_joinQueue (context : Context Empty) {body : Nat → TypeCall}
    (hbody : ∀ id, (body id).id = id) :
    Quick (place.within context) (joinQueue context fun id => .typeBody (body id) : Run Empty σ Bool) := by
  refine .bind quick_openQueue fun isFirst => .bind (quick_enqueue context hbody) fun _ => ?_
  split
  · exact .pure _
  · refine .get fun e _ => ?_
    split
    · exact .bind (.listen rfl) fun _ => .pure _
    · exact .pure _

/-- The turn's queue is there, and is empty if no text waits. -/
theorem openQueue_apply (e : Engine Empty σ) :
    ∃ listeners, openQueue e =
      (.ok e.texts.isEmpty, { e with listeners := listeners, typeQueue := some e.texts }) := by
  rw [openQueue, Run.get_bind_apply]
  cases hq : e.typeQueue with
  | none =>
      have hempty : e.texts.isEmpty = true := by
        unfold Engine.texts
        rw [hq]
        rfl
      rw [hempty]
      exact ⟨_, rfl⟩
  | some queue =>
      have htexts : e.texts = queue := by
        unfold Engine.texts
        rw [hq]
        rfl
      have hqueue : e = { e with typeQueue := some queue } := by
        rw [← hq]
      rw [htexts]
      exact ⟨e.listeners, congrArg (Prod.mk _) hqueue⟩

/-- The turn of a text comes at once only if no other text was waiting. -/
theorem texts_of_joinQueue {context : Context Empty} {body : Nat → Callback Empty}
    {e e' : Engine Empty σ} (h : joinQueue context body e = (.ok true, e')) : e.texts = [] := by
  obtain ⟨listeners, hopen⟩ := openQueue_apply e
  rw [joinQueue, Run.bind_of_ok hopen] at h
  cases htexts : e.texts with
  | nil => rfl
  | cons job rest =>
      rw [htexts] at h
      cases h

theorem firstText_apply (e : Engine Empty σ) :
    firstText e = (.ok (e.texts.head?.map TypeJob.handler), e) := by
  rw [firstText, Run.get_bind_apply, Engine.texts]
  rcases e.typeQueue with _ | _ | _ <;> rfl

theorem quick_firstText : Quick place (firstText : Run Empty σ (Option HandlerId)) := by
  refine .get fun e _ => ?_
  split <;> exact .pure _

theorem quick_modifyTyping (typing : Nat) {change : Typing → Typing}
    (h : ∀ t, (change t).origin = t.origin) :
    Quick place (modifyTyping typing change : Run Empty σ Unit) :=
  .modify fun _ => .retype typing change fun t _ => h t

/-- A typer goes on in the engine in which its text was found. -/
theorem withTyper_apply {α : Type} {e : Engine Empty σ} (he : e.StandsIn place) {typing : Nat}
    {t : Typing} (ht : e.typings[typing]? = some t) (change : Typer → Tree → α × Typer × Tree)
    (hgrows : ∀ (tree : Tree) (display : OutputId), tree.Parted place.mark.extent display →
      (place.mark.extent.elements ≤ t.typer.wrapper.index →
        place.mark.extent.Present display t.typer.full) →
      tree.Grows place.mark.extent display (change t.typer tree).2.2)
    (hsame : ∀ tree, t.typer.Continues (change t.typer tree).2.1) :
    ∃ a tree typings,
      withTyper typing t change e = (.ok a, { e with tree := tree, typings := typings }) ∧
      Changes place e { e with tree := tree, typings := typings } ∧ typing < typings.size := by
  have htree := hgrows e.tree e.display he.parted.tree (he.parted.typings t (Array.mem_of_getElem? ht))
  have hcontinues := hsame e.tree
  refine ⟨_, _, _, rfl,
    .tail (.single (.display _ htree)) (.retype typing _ fun other hother => ?_), ?_⟩
  · have heq : other = t := Option.some.inj (hother.symm.trans ht)
    subst heq
    show (other.moment, _, _) = (other.moment, _, _)
    rw [hcontinues.wrapper, hcontinues.full]
  · show typing < (e.typings.modify typing _).size
    rw [Array.size_modify]
    exact (Array.getElem?_eq_some_iff.mp ht).1

theorem typeNext_apply {e : Engine Empty σ} (he : e.StandsIn place) {typing : Nat} {t : Typing}
    (ht : e.typings[typing]? = some t) :
    ∃ a tree typings, withTyper typing t Typer.typeNext e =
        (.ok a, { e with tree := tree, typings := typings }) ∧
      Changes place e { e with tree := tree, typings := typings } ∧ typing < typings.size :=
  withTyper_apply he ht Typer.typeNext (fun _ _ hparted hfull => .typeNext hparted hfull)
    fun _ => Typer.continues_typeNext _ _

theorem quick_skipTyping (typing : Nat) (key : String) :
    Quick place (skipTyping typing key : Run Empty σ Unit) := by
  intro e he
  refine .next rfl .refl ?_
  cases ht : e.typings[typing]? with
  | none => exact .ofChanges rfl .refl trivial
  | some t =>
      dsimp only
      split
      · have hoff : Changes place e _ := .single (.unlisten fun l =>
          l.namespace != some typingNamespace || (some Event.keydown).any (· != l.event))
        obtain ⟨a, tree, typings, hrun, hchanges, -⟩ := withTyper_apply (hoff.standsIn he) ht
          (fun typer tree => ((), typer.finish tree))
          (fun _ _ hparted hfull => .finish hparted hfull) (fun _ => Typer.continues_finish _ _)
        exact .next rfl hoff (.ofChanges hrun hchanges trivial)
      · exact .ofChanges rfl .refl trivial

/-- The first letter of a text is typed, and the interval for the others is set. A text without
letters is to be stopped. -/
def typeFirst (typing : Nat) : Run Empty σ (Option Typing) := do
  match (← get).typings[typing]? with
  | none => return none
  | some t =>
    if ← withTyper typing t Typer.typeNext then
      let _ ← Run.withClock fun c => c.setInterval t.speed (.typeLetter typing)
      return none
    else return some t

theorem quick_typeFirst (typing : Nat) :
    Quick place (typeFirst typing : Run Empty σ (Option Typing)) := by
  intro e he
  refine .next rfl .refl ?_
  cases ht : e.typings[typing]? with
  | none => exact .ofChanges rfl .refl trivial
  | some t =>
      obtain ⟨a, tree, typings, hrun, hchanges, hlt⟩ := typeNext_apply he ht
      refine .next hrun hchanges ?_
      cases a with
      | true =>
          exact .ofChanges rfl (.single (.timer _ _ _ hlt fun _ => Nat.le_max_right _ _)) trivial
      | false => exact .ofChanges rfl .refl trivial

/-- The next letter of a text is typed. A text that has no more letters is to be stopped, and its
interval is over. -/
def typeStep (typing : Nat) (id : TimerId) : Run Empty σ (Option Typing) := do
  match (← get).typings[typing]? with
  | none => return none
  | some t =>
    if t.isStopped then
      Run.changeClock fun c => c.clearTimer id
      return none
    else if ← Run.isStale t.moment then
      modifyTyping typing fun t => { t with isStopped := true }
      Run.changeClock fun c => c.clearTimer id
      return none
    else if ← withTyper typing t Typer.typeNext then return none
    else
      Run.changeClock fun c => c.clearTimer id
      return some t

theorem quick_typeStep (typing : Nat) (id : TimerId) :
    Quick place (typeStep typing id : Run Empty σ (Option Typing)) := by
  have hclear (a : Option Typing) : Quick place (do
      Run.changeClock fun c => c.clearTimer id
      return a : Run Empty σ (Option Typing)) :=
    .bind (.changeClock (.clearTimer · id)) fun _ => .pure a
  intro e he
  refine .next rfl .refl ?_
  cases ht : e.typings[typing]? with
  | none => exact .ofChanges rfl .refl trivial
  | some t =>
      dsimp only
      split
      · exact hclear none e he
      · refine .congr (Run.isStale_bind_apply _ _ _) ?_
        split
        · have hstop : Change place e _ :=
            .retype typing (fun t => { t with isStopped := true }) fun _ _ => rfl
          exact .next rfl (.single hstop) (hclear none _ (hstop.standsIn he))
        · obtain ⟨a, tree, typings, hrun, hchanges, -⟩ := typeNext_apply he ht
          refine .next hrun hchanges ?_
          cases a with
          | true => exact .ofChanges rfl .refl trivial
          | false => exact hclear (some t) _ (hchanges.standsIn he)

/-- The content of a recent element that is there is set aside. -/
theorem change_typing {e : Engine Empty σ} (he : e.StandsIn place) {wrapper : ElementId}
    (hsince : place.mark.extent.elements ≤ wrapper.index) (hthere : wrapper.index < place.elements)
    {t : Typing} (htyper : t.typer = (Typer.ofElement e.tree wrapper).1)
    (hnow : t.moment = e.moment) :
    Change place e { e with
      tree := (Typer.ofElement e.tree wrapper).2, typings := e.typings.push t } := by
  refine .typing _ t (.ofElement he.parted.tree hsince) ?_ ?_ ?_ hnow
  · rw [htyper]
    exact Nat.lt_of_lt_of_le hthere he.elements
  · rw [htyper]
    exact Nat.le_refl _
  · rw [htyper]
    exact Typer.full_lt_ofElement e.tree wrapper

/-- A typing that was made has the identity of its text, and nothing has happened to the queue. -/
theorem makeTyping_apply {e : Engine Empty σ} (he : e.StandsIn place) (call : TypeCall)
    {wrapper : ElementId} (hsince : place.mark.extent.elements ≤ wrapper.index)
    (hthere : wrapper.index < place.elements) :
    ∃ t e', makeTyping call wrapper e.moment e = (.ok e.typings.size, e') ∧ Changes place e e' ∧
      e'.typings[e.typings.size]? = some t ∧ t.id = call.id ∧ e'.texts = e.texts ∧
      e'.nextTypeId = e.nextTypeId := by
  have hlisten (e₁ : Engine Empty σ) : Changes place e₁ (listenToTyping e.typings.size e₁).2 :=
    .tail (.tail (.single (.unlisten _))
      (.listen ⟨.keydown, some typingNamespace, false, .skipTyping e.typings.size⟩ rfl))
      (.listen ⟨.typingStop, some typingNamespace, true, .nextTyping⟩ rfl)
  unfold makeTyping
  dsimp only
  split
  · have hclass : Change place e { e with
        tree := e.tree.addClass wrapper (call.className ++ "-cursor") } :=
      .display _ (.addClass _ _)
    refine ⟨_, _, rfl, .trans (.tail (.single hclass) (change_typing (hclass.standsIn he) hsince
      hthere ?_ ?_)) (hlisten _), Array.getElem?_push_size, rfl, rfl, rfl⟩
    · rfl
    · rfl
  · refine ⟨_, _, rfl, .trans (.single (change_typing he hsince hthere ?_ ?_)) (hlisten _),
      Array.getElem?_push_size, rfl, rfl, rfl⟩
    · rfl
    · rfl

/-- What becomes of a text that has been put in its place. -/
inductive Placed where
  /-- It is shown at once. -/
  | shown
  /-- A timer is set for its first letter. -/
  | waiting
  /-- Its first letter is typed now. -/
  | typed (typing : Nat)

/-- A text that was rendered is put in its place, and shown at once or made ready to be typed. -/
def placeText (call : TypeCall) (wrapper : ElementId) : Run Empty σ Placed := do
  let moment ← Run.moment
  let atOnce ← isShownAtOnce call wrapper
  let _ ← Run.withTree fun t => t.replaceElement call.parent call.target (.element wrapper)
  if atOnce then return .shown
  else
    let typing ← makeTyping call wrapper moment
    if 0 < call.options.start then
      let _ ← Run.withClock fun c => c.setTimeout call.options.start (.beginTyping typing)
      return .waiting
    else return .typed typing

theorem quick_placeText (call : TypeCall) {wrapper : ElementId}
    (hsince : place.mark.extent.elements ≤ wrapper.index)
    (hthere : wrapper.index < place.elements) :
    Quick place (placeText call wrapper : Run Empty σ Placed) := by
  intro e he
  have hput : Change place e { e with
      tree := (e.tree.replaceElement call.parent call.target (.element wrapper)).2 } :=
    .display _ (.replaceElement _ _ hsince)
  refine .next rfl .refl (.next rfl .refl (.next rfl (.single hput) ?_))
  split
  · exact .ofChanges rfl .refl trivial
  · obtain ⟨t, e', hrun, hchanges, ht, -⟩ :=
      makeTyping_apply (hput.standsIn he) call hsince hthere
    refine .next hrun hchanges ?_
    split
    · rename_i hstart
      have hlt := (Array.getElem?_eq_some_iff.mp ht).1
      exact .ofChanges rfl
        (.single (.timer call.options.start none (.beginTyping _) ⟨hlt, rfl⟩ fun _ => hstart)) trivial
    · exact .ofChanges rfl .refl trivial

end StoryEngine.Builtin
