import StoryEngine.Proofs.Builtin.Aside
import StoryEngine.Proofs.Builtin.Passes
import StoryEngine.Proofs.Builtin.Quick
import StoryEngine.Proofs.Builtin.Steady
/-!
# StoryEngine.Proofs.Builtin.Clauses

The clauses that a call renders one after another. Each has the delay that its time value stands for,
and a clause without a time value has that of the clause in front of it (`MacroCall.HasClauses`). A
call has such clauses exactly if its time values are valid (`timedItems_of_valid`), and then a chain
begins with them (`runTimed_of_valid`). Otherwise all that the call does is to show an error
(`runTimed_of_invalid`).
-/

namespace StoryEngine

variable {η σ : Type}

/-! ### Delays -/

/-- The time value of the clause stands for a delay, if there is one. -/
def PayloadClause.TimeValid (clause : PayloadClause) (floor : Nat) : Prop :=
  ∀ time, clause.args.text? 0 = some time → ∃ delay, delayOf time floor = .ok delay

/-- The time values of the call are valid. The first clause has one. -/
structure MacroCall.TimesValid (call : MacroCall η) (floor : Nat) : Prop where
  first : ∃ time delay, call.args.text? 0 = some time ∧ delayOf time floor = .ok delay
  others : ∀ clause ∈ call.payload.drop 1, clause.TimeValid floor

/-- The clauses with their delays, behind a clause that has the first delay. -/
inductive Delayed (floor : Nat) : Nat → List PayloadClause → List TimedItem → Prop
  | nil {previous : Nat} : Delayed floor previous [] []
  | given {previous delay : Nat} {time : String} {clause : PayloadClause}
      {clauses : List PayloadClause} {items : List TimedItem}
      (htime : clause.args.text? 0 = some time) (hdelay : delayOf time floor = .ok delay)
      (rest : Delayed floor delay clauses items) :
      Delayed floor previous (clause :: clauses)
        (⟨clause.name, clause.source, delay, clause.contents⟩ :: items)
  /-- A clause without a time value. -/
  | same {previous : Nat} {clause : PayloadClause} {clauses : List PayloadClause}
      {items : List TimedItem} (htime : clause.args.text? 0 = none)
      (rest : Delayed floor previous clauses items) :
      Delayed floor previous (clause :: clauses)
        (⟨clause.name, clause.source, previous, clause.contents⟩ :: items)

/-- The clauses of the call with their delays. -/
inductive MacroCall.HasClauses (call : MacroCall η) (floor : Nat) : TimedItem → List TimedItem → Prop
  | intro {time : String} {delay : Nat} {others : List TimedItem}
      (htime : call.args.text? 0 = some time) (hdelay : delayOf time floor = .ok delay)
      (hothers : Delayed floor delay (call.payload.drop 1) others) :
      call.HasClauses floor ⟨call.name, call.source, delay, call.contents⟩ others

theorem Delayed.floor_le {floor previous : Nat} {clauses : List PayloadClause} {items : List TimedItem}
    (h : Delayed floor previous clauses items) (hprevious : floor ≤ previous) :
    ∀ item ∈ items, floor ≤ item.delay := by
  induction h with
  | nil => nofun
  | given htime hdelay rest ih =>
      have hdelay := Builtin.floor_le_of_delayOf hdelay
      exact List.forall_mem_cons.mpr ⟨hdelay, ih hdelay⟩
  | same htime rest ih => exact List.forall_mem_cons.mpr ⟨hprevious, ih hprevious⟩

/-- No clause has a shorter delay than the least. -/
theorem MacroCall.HasClauses.floor_le {call : MacroCall η} {floor : Nat} {first : TimedItem}
    {others : List TimedItem} (h : call.HasClauses floor first others) :
    ∀ item ∈ first :: others, floor ≤ item.delay := by
  obtain ⟨htime, hdelay, hothers⟩ := h
  have hdelay := Builtin.floor_le_of_delayOf hdelay
  exact List.forall_mem_cons.mpr ⟨hdelay, hothers.floor_le hdelay⟩

namespace Builtin

variable {floor : Nat} {clauses : List PayloadClause}

theorem nextItems_of_valid (index previous : Nat)
    (h : ∀ clause ∈ clauses, clause.TimeValid floor) :
    ∃ items, nextItems floor index previous clauses = .ok items ∧
      Delayed floor previous clauses items := by
  induction clauses generalizing index previous with
  | nil => exact ⟨[], rfl, .nil⟩
  | cons clause rest ih =>
      obtain ⟨hclause, hrest⟩ := List.forall_mem_cons.mp h
      unfold nextItems
      cases htime : clause.args.text? 0 with
      | none =>
          obtain ⟨items, hitems, hdelayed⟩ := ih (index + 1) previous hrest
          simp only [hitems]
          exact ⟨_, rfl, .same htime hdelayed⟩
      | some time =>
          obtain ⟨delay, hdelay⟩ := hclause time htime
          obtain ⟨items, hitems, hdelayed⟩ := ih (index + 1) delay hrest
          simp only [hdelay, hitems]
          exact ⟨_, rfl, .given htime hdelay hdelayed⟩

theorem nextItems_of_invalid (index previous : Nat)
    (h : ¬ ∀ clause ∈ clauses, clause.TimeValid floor) :
    ∃ message, nextItems floor index previous clauses = .error message := by
  induction clauses generalizing index previous with
  | nil => exact absurd (fun _ => nofun) h
  | cons clause rest ih =>
      unfold nextItems
      cases htime : clause.args.text? 0 with
      | none =>
          have hclause : clause.TimeValid floor := fun time h => by
            rw [htime] at h
            cases h
          obtain ⟨message, hmessage⟩ := ih (index + 1) previous fun hrest =>
            h (List.forall_mem_cons.mpr ⟨hclause, hrest⟩)
          simp only [hmessage]
          exact ⟨_, rfl⟩
      | some time =>
          cases hdelay : delayOf time floor with
          | error e => simp only [hdelay]; exact ⟨_, rfl⟩
          | ok delay =>
              have hclause : clause.TimeValid floor := fun other h => by
                rw [htime] at h
                cases h
                exact ⟨delay, hdelay⟩
              obtain ⟨message, hmessage⟩ := ih (index + 1) delay fun hrest =>
                h (List.forall_mem_cons.mpr ⟨hclause, hrest⟩)
              simp only [hdelay, hmessage]
              exact ⟨_, rfl⟩

variable {call : MacroCall η}

theorem timedItems_of_valid (h : call.TimesValid floor) :
    ∃ first others, timedItems call floor = .ok (first, others) ∧
      call.HasClauses floor first others := by
  obtain ⟨⟨time, delay, htime, hdelay⟩, hothers⟩ := h
  obtain ⟨others, hitems, hdelayed⟩ := nextItems_of_valid 1 delay hothers
  refine ⟨⟨call.name, call.source, delay, call.contents⟩, others, ?_, .intro htime hdelay hdelayed⟩
  rw [timedItems, htime]
  simp only [hdelay, hitems]

theorem timedItems_of_invalid (h : ¬ call.TimesValid floor) :
    ∃ message, timedItems call floor = .error message := by
  unfold timedItems
  cases htime : call.args.text? 0 with
  | none => exact ⟨_, rfl⟩
  | some time =>
      cases hdelay : delayOf time floor with
      | error e => simp only [hdelay]; exact ⟨_, rfl⟩
      | ok delay =>
          obtain ⟨message, hmessage⟩ := nextItems_of_invalid 1 delay
            fun hothers => h ⟨⟨time, delay, htime, hdelay⟩, hothers⟩
          simp only [hdelay, hmessage]
          exact ⟨_, rfl⟩

end Builtin

/-! ### The call -/

/-- The call puts a new span at the end of what it outputs, in which its clauses will stand. -/
inductive MacroCall.MakesSpan (call : MacroCall Empty) (e : Engine Empty σ) (wrapper : ElementId) :
    Engine Empty σ → Prop
  | intro {out : OutputId} {shown ready opened : Engine Empty σ}
      (hshow : call.showModes ["block"] e = (.ok (), shown))
      (htarget : call.target shown = (.ok out, ready))
      (hspan : Run.withTree (fun t => t.appendElement out "span") ready = (.ok wrapper, opened)) :
      call.MakesSpan e wrapper
        { opened with tree := opened.tree.addClass wrapper ("macro-" ++ call.name) }

theorem MacroCall.exists_makesSpan (call : MacroCall Empty) (e : Engine Empty σ) :
    ∃ wrapper made, call.MakesSpan e wrapper made ∧ e.Redisplayed made := by
  obtain ⟨shown, hshow, calls, tree, rfl⟩ := call.showModes_apply e ["block"]
  obtain ⟨out, ready, htarget, calls', tree', rfl⟩ :=
    call.target_apply { e with calls := calls, tree := tree }
  exact ⟨_, _, .intro hshow htarget rfl, _, _, rfl⟩

namespace Builtin

theorem beginChain_apply (handler : HandlerId) (first : TimedItem) (others : List TimedItem)
    (e : Engine η σ) :
    beginChain handler first others e = (.ok (), { e with
      chains := e.chains.push ⟨handler, first :: others, ⟨e.state.passage, e.state.turns⟩⟩
      clock := (e.clock.setTimeout first.delay (.timedStep e.chains.size)).2
      timedTimers := e.timedTimers ++ [e.clock.nextId]
      listeners := if e.timedTimers = [] then e.listeners ++ [timedCleaner] else e.listeners }) := by
  rw [beginChain, Run.get_bind_apply, Run.modify_bind_apply, startChain_apply]

/-- A call with a time value that is not valid shows an error, and does nothing else. -/
theorem runTimed_of_invalid {context : Context Empty} {e : Engine Empty σ}
    (h : ¬ context.call.TimesValid e.config.domDelayMs) :
    ∃ message, runTimed context e = (.ok (), e.afterError context.call message) := by
  obtain ⟨message, hmessage⟩ := timedItems_of_invalid h
  refine ⟨message, ?_⟩
  rw [runTimed, Run.get_bind_apply]
  simp only [hmessage]
  rfl

/-- A call with clauses makes a span for them, and a handler that renders them there, and begins a
chain with them. -/
theorem runTimed_of_items {context : Context Empty} {e made : Engine Empty σ} {first : TimedItem}
    {others : List TimedItem} {wrapper : ElementId}
    (hitems : timedItems context.call e.config.domDelayMs = .ok (first, others))
    (hspan : context.call.MakesSpan e wrapper made) :
    ∃ store, runTimed context e = beginChain ⟨made.handlers.size⟩ first others { made with
      handlers := made.handlers.push ⟨context, store, none,
        some (.timedBody wrapper (isTransition (context.call.args.text? 1))), none⟩ } := by
  obtain @⟨out, shown, ready, opened, hshow, htarget, hopen⟩ := hspan
  let made : Engine Empty σ :=
    { opened with tree := opened.tree.addClass wrapper ("macro-" ++ context.call.name) }
  let body : Callback Empty := .timedBody wrapper (isTransition (context.call.args.text? 1))
  obtain ⟨store, hmake⟩ := ShadowHandler.make_apply context none (some body) none made
  refine ⟨store, ?_⟩
  rw [runTimed, Run.get_bind_apply]
  simp only [hitems]
  rw [Run.bind_of_ok hshow, Run.bind_of_ok htarget, Run.bind_of_ok hopen]
  show (do
    let chain ← makeChain context body (first :: others)
    startChain chain first.delay : Run Empty σ Unit) made = _
  rw [makeChain_startChain, Run.bind_of_ok hmake]

end Builtin

end StoryEngine
