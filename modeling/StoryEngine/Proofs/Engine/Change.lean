import Mathlib.Logic.Relation
import StoryEngine.Proofs.Engine.Parted
import StoryEngine.Proofs.Variables.Reassigned
/-!
# StoryEngine.Proofs.Engine.Change

What macros do to an engine, one change at a time. `Change` lists all of it apart from the brackets
that calls, overlays and renders put around further work; what every run keeps is read off this
list and never off the macros. `Move` lists what is left: what the player and the host do, and what
happens to a turn as a whole.

A change is made in a *place*: the context that is current, or none outside of all calls, together
with a mark by which the engine is parted. Handlers are made for the context of their place, and a
loop can only be left from a place that stands in one, or during a tick. What is put off or
displayed is new, or at least recent in the place.
-/

namespace StoryEngine

variable {σ : Type}

/-! ### Places -/

/-- The calls of a context, nearest first, or none outside of all calls. -/
def callsOf : Option (Context Empty) → List (MacroCall Empty)
  | none => []
  | some context => context.calls

/-- Where work is done. -/
structure Place where
  /-- The context that is current, or none outside of all calls. -/
  context : Option (Context Empty) := none
  /-- What was there before the mark is of the past. -/
  mark : Mark := {}
  /-- There are at least as many elements. -/
  elements : Nat := 0

namespace Place

/-- The calls that the place stands in, nearest first. -/
def calls (place : Place) : List (MacroCall Empty) :=
  callsOf place.context

/-- The place with another context. -/
def within (place : Place) (context : Context Empty) : Place :=
  { place with context := some context }

/-- The place in which an element is known to be there. -/
def knowing (place : Place) (id : ElementId) : Place :=
  { place with elements := max place.elements (id.index + 1) }

@[simp] theorem mark_within (place : Place) (context : Context Empty) :
    (place.within context).mark = place.mark := rfl

@[simp] theorem mark_knowing (place : Place) (id : ElementId) :
    (place.knowing id).mark = place.mark := rfl

@[simp] theorem calls_within (place : Place) (context : Context Empty) :
    (place.within context).calls = context.calls := rfl

theorem lt_elements_knowing (place : Place) (id : ElementId) :
    id.index < (place.knowing id).elements :=
  Nat.lt_of_lt_of_le (Nat.lt_succ_self _) (Nat.le_max_right _ _)

end Place

/-- Among the calls is one of the macro named `for`. -/
def areInLoop (calls : List (MacroCall Empty)) : Bool :=
  calls.any fun call => call.name == "for"

/-- The engine has the built-in macros, and is as it has to be in the place. -/
structure Engine.StandsIn (e : Engine Empty σ) (place : Place) : Prop where
  current : e.current = place.context
  registry : e.registry = Registry.ofBuiltins .builtin
  parted : e.Parted place.mark
  elements : place.elements ≤ e.tree.elements.size

/-- An engine with the built-in macros stands where its own context is, if nothing is of the past. -/
theorem Engine.StandsIn.ofRegistry {e : Engine Empty σ}
    (h : e.registry = Registry.ofBuiltins .builtin) : e.StandsIn { context := e.current } :=
  ⟨rfl, h, .zero e, Nat.zero_le _⟩

/-! ### Kinds of deferred handlers -/

namespace ShadowHandler

/-- The handler of a link or button. -/
structure IsClick (h : ShadowHandler Empty) : Prop where
  start : h.start = none
  callback : h.callback = none ∨ ∃ contents, h.callback = some (.payload contents)
  done : h.done = none ∨ ∃ title, h.done = some (.goTo title)

/-- The handler of an interval. -/
def IsTick (h : ShadowHandler Empty) : Prop :=
  ∃ wrapper contents transition, h.callback = some (.repeatBody wrapper contents transition)

/-- The handler of a chain of clauses. -/
structure IsItem (h : ShadowHandler Empty) : Prop where
  start : h.start = none
  callback : ∃ wrapper transition, h.callback = some (.timedBody wrapper transition)
  done : h.done = none

/-- The handler of the text with an identity. -/
structure IsText (id : Nat) (h : ShadowHandler Empty) : Prop where
  start : h.start = none
  callback : ∃ call : TypeCall, call.id = id ∧ h.callback = some (.typeBody call)
  done : h.done = none

theorem IsClick.not_isTick {h : ShadowHandler Empty} (hc : h.IsClick) : ¬ h.IsTick := by
  rintro ⟨wrapper, contents, transition, ht⟩
  rcases hc.callback with h | ⟨_, h⟩ <;> rw [h] at ht <;> cases ht

theorem IsItem.not_isTick {h : ShadowHandler Empty} (hi : h.IsItem) : ¬ h.IsTick := by
  rintro ⟨wrapper, contents, transition, ht⟩
  obtain ⟨_, _, h⟩ := hi.callback
  rw [h] at ht
  cases ht

theorem IsText.not_isTick {id : Nat} {h : ShadowHandler Empty} (hx : h.IsText id) :
    ¬ h.IsTick := by
  rintro ⟨wrapper, contents, transition, ht⟩
  obtain ⟨_, _, h⟩ := hx.callback
  rw [h] at ht
  cases ht

end ShadowHandler

/-- The handler of an identity has the property. -/
def Engine.Holds (e : Engine Empty σ) (id : HandlerId) (P : ShadowHandler Empty → Prop) : Prop :=
  ∃ h, e.handlers[id.index]? = some h ∧ P h

/-! ### Listeners -/

/-- The event that a listener waits for. -/
def ListenerAction.event : ListenerAction Empty → Event
  | .clearRepeats => .passageInit
  | .clearTimed => .passageInit
  | .dropTyping => .passageInit
  | .startTyping => .passageEnd
  | .skipTyping _ => .keydown
  | .nextTyping => .typingStop

/-- The listener waits for the event that is right for what it does. -/
def Listener.Fits (l : Listener (ListenerAction Empty)) : Prop :=
  l.event = l.action.event

/-! ### Timers -/

/-- No timer is set, and those that are pending were so before. -/
structure Clock.Lasts {κ : Type} (c c' : Clock κ) : Prop where
  nextId : c'.nextId = c.nextId
  timers : ∀ timer' ∈ c'.timers, ∃ timer ∈ c.timers,
    timer'.id = timer.id ∧ timer'.period = timer.period ∧ timer'.action = timer.action
  now_le : c.now ≤ c'.now
  /-- None of them is due earlier than before. -/
  due_le : ∀ timer' ∈ c'.timers, ∃ timer ∈ c.timers,
    timer'.id = timer.id ∧ timer.due ≤ timer'.due

/-- A timer that fires was pending. -/
theorem Clock.mem_of_takeDue {κ : Type} {c c' : Clock κ} {limit : Nat} {timer : Timer κ}
    (h : c.takeDue limit = some (timer, c')) : timer ∈ c.timers := by
  unfold Clock.takeDue at h
  split at h
  · cases h
  · rename_i hfirst
    cases h
    exact Clock.mem_of_firstDue? hfirst

namespace Clock.Lasts

variable {κ : Type}

/-- The same timers are pending, or fewer. -/
theorem of_subset {c c' : Clock κ} (hnextId : c'.nextId = c.nextId) (hnow : c.now ≤ c'.now)
    (h : c'.timers ⊆ c.timers) : c.Lasts c' where
  nextId := hnextId
  timers timer' htimer' := ⟨timer', h htimer', rfl, rfl, rfl⟩
  now_le := hnow
  due_le timer' htimer' := ⟨timer', h htimer', rfl, Nat.le_refl _⟩

theorem refl (c : Clock κ) : c.Lasts c :=
  of_subset rfl (Nat.le_refl _) (List.Subset.refl _)

theorem trans {c c₁ c' : Clock κ} (h : c.Lasts c₁) (h₁ : c₁.Lasts c') : c.Lasts c' where
  nextId := h₁.nextId.trans h.nextId
  timers timer' htimer' := by
    obtain ⟨timer₁, htimer₁, hid₁, hperiod₁, haction₁⟩ := h₁.timers timer' htimer'
    obtain ⟨timer, htimer, hid, hperiod, haction⟩ := h.timers timer₁ htimer₁
    exact ⟨timer, htimer, hid₁.trans hid, hperiod₁.trans hperiod, haction₁.trans haction⟩
  now_le := Nat.le_trans h.now_le h₁.now_le
  due_le timer' htimer' := by
    obtain ⟨timer₁, htimer₁, hid₁, hdue₁⟩ := h₁.due_le timer' htimer'
    obtain ⟨timer, htimer, hid, hdue⟩ := h.due_le timer₁ htimer₁
    exact ⟨timer, htimer, hid₁.trans hid, Nat.le_trans hdue hdue₁⟩

/-- Some timers are cancelled. -/
theorem filter (c : Clock κ) (keep : Timer κ → Bool) :
    c.Lasts { c with timers := c.timers.filter keep } :=
  of_subset rfl (Nat.le_refl _) (List.filter_sublist.subset)

theorem clearTimer (c : Clock κ) (id : TimerId) : c.Lasts (c.clearTimer id) :=
  filter c _

theorem clearTimers (c : Clock κ) (ids : List TimerId) : c.Lasts (c.clearTimers ids) :=
  filter c _

theorem setNow (c : Clock κ) (time : Nat) : c.Lasts (c.setNow time) :=
  of_subset rfl (Nat.le_max_left _ _) (List.Subset.refl _)

/-- A firing only sets the timer that fires to another time. -/
theorem takeDue {c c' : Clock κ} {limit : Nat} {timer : Timer κ}
    (h : c.takeDue limit = some (timer, c')) : c.Lasts c' := by
  have hpending := Clock.mem_of_takeDue h
  unfold Clock.takeDue at h
  split at h
  · cases h
  · cases h
    split
    · rename_i due hnext
      refine ⟨rfl, fun timer' htimer' => ?_, Nat.le_max_left _ _, fun timer' htimer' => ?_⟩
      · obtain ⟨old, hold, rfl⟩ := List.mem_map.mp htimer'
        refine ⟨old, hold, ?_⟩
        split <;> exact ⟨rfl, rfl, rfl⟩
      · have hlater : timer.due ≤ due := by
          split at hnext
          · rw [Option.ite_none_right_eq_some, Option.some.injEq] at hnext
            omega
          · cases hnext
        obtain ⟨old, hold, rfl⟩ := List.mem_map.mp htimer'
        split
        · rename_i hid
          exact ⟨timer, hpending, hid, hlater⟩
        · exact ⟨old, hold, rfl, Nat.le_refl _⟩
    · exact of_subset rfl (Nat.le_max_left _ _) (List.filter_sublist.subset)

end Clock.Lasts

/-- What a timer is set for in an engine: an interval of the present moment with a recent handler,
or something that is there. Only intervals fire more than once. -/
def Engine.Schedules (e : Engine Empty σ) (mark : Mark) (period : Option Nat) :
    TimerAction Empty → Prop
  | .repeatTick handler moment => mark.handlers ≤ handler.index ∧ moment = e.moment
  | .timedStep chain => chain < e.chains.size ∧ period = none
  | .settle element _ => element.index < e.tree.elements.size ∧ period = none
  | .beginTyping typing => typing < e.typings.size ∧ period = none
  | .typeLetter typing => typing < e.typings.size
  | .host procedure => procedure.elim

/-- All chains wait between their clauses, if the least delay lets them. -/
def Engine.Unhurried (e : Engine Empty σ) : Prop :=
  0 < e.config.domDelayMs ∧ ∀ k ∈ e.chains, ∀ item ∈ k.items, 0 < item.delay

/-- What a text that is being typed out keeps: its moment, its element and where its content is. -/
def Typing.origin (t : Typing) : Moment × ElementId × OutputId :=
  (t.moment, t.typer.wrapper, t.typer.full)

/-! ### Changes -/

/-- What a macro can do in a place. -/
inductive Change (place : Place) (e : Engine Empty σ) : Engine Empty σ → Prop
  /-- Something else is displayed. -/
  | display (tree : Tree) (h : e.tree.Grows place.mark.extent e.display tree) :
      Change place e { e with tree := tree }
  /-- Variables have other values. -/
  | reassign {s : State} (h : e.state.Reassigned s) : Change place e { e with state := s }
  /-- Calls are made or changed. -/
  | calls (calls : Array CallState) : Change place e { e with calls := calls }
  /-- A failure is noted. -/
  | report (f : Failure) : Change place e { e with errors := e.errors ++ [f] }
  /-- A handler is made. -/
  | handler (h : ShadowHandler Empty) (hplace : place.context = some h.context) :
      Change place e { e with handlers := e.handlers.push h }
  /-- A text is put at the end of the queue, with a new handler. -/
  | text (h : ShadowHandler Empty) (hplace : place.context = some h.context)
      (hkind : h.IsText e.nextTypeId) :
      Change place e { e with
        nextTypeId := e.nextTypeId + 1
        handlers := e.handlers.push h
        typeQueue := some (e.texts ++ [⟨e.nextTypeId, ⟨e.handlers.size⟩⟩]) }
  /-- An element can be clicked. -/
  | clickable (k : Clickable) (h : e.Holds k.handler ShadowHandler.IsClick)
      (hhandler : place.mark.handlers ≤ k.handler.index)
      (helement : place.mark.extent.elements ≤ k.element.index)
      (hthere : k.element.index < e.tree.elements.size) :
      Change place e { e with clickables := e.clickables ++ [k] }
  /-- A chain of clauses begins. -/
  | chain (k : TimedChain) (h : e.Holds k.handler ShadowHandler.IsItem)
      (hhandler : place.mark.handlers ≤ k.handler.index) (hnow : k.moment = e.moment)
      (hwait : 0 < e.config.domDelayMs → ∀ item ∈ k.items, 0 < item.delay) :
      Change place e { e with chains := e.chains.push k }
  /-- A chain has fewer clauses left. -/
  | chainItems (index : Nat) (items : List TimedItem)
      (h : ∀ k, e.chains[index]? = some k → items ⊆ k.items) :
      Change place e { e with chains := e.chains.modify index fun k => { k with items := items } }
  /-- The content of an element is set aside in a new output, to be typed out. -/
  | typing (tree : Tree) (t : Typing) (h : e.tree.Grows place.mark.extent e.display tree)
      (hwrapper : t.typer.wrapper.index < e.tree.elements.size)
      (hfull : e.tree.outputs.size ≤ t.typer.full.index)
      (hthere : t.typer.full.index < tree.outputs.size) (hnow : t.moment = e.moment) :
      Change place e { e with tree := tree, typings := e.typings.push t }
  /-- More of a text has been typed, or it is given up. -/
  | retype (index : Nat) (change : Typing → Typing)
      (h : ∀ t, e.typings[index]? = some t → (change t).origin = t.origin) :
      Change place e { e with typings := e.typings.modify index change }
  /-- A timer is set. -/
  | timer (delay : Nat) (period : Option Nat) (action : TimerAction Empty)
      (h : e.Schedules place.mark period action) (hdelay : e.Unhurried → 0 < delay) :
      Change place e { e with clock := (e.clock.addTimer delay period action).2 }
  /-- Timers are cancelled or taken, or the clock moves on. -/
  | clock (clock : Clock (TimerAction Empty)) (h : e.clock.Lasts clock) :
      Change place e { e with clock := clock }
  /-- Intervals or chains are tracked, or no longer so. -/
  | tracked (repeats chains : List TimerId) :
      Change place e { e with repeatTimers := repeats, timedTimers := chains }
  /-- A listener is registered. -/
  | listen (l : Listener (ListenerAction Empty)) (h : l.Fits) :
      Change place e { e with listeners := e.listeners ++ [l] }
  /-- Listeners are removed. -/
  | unlisten (keep : Listener (ListenerAction Empty) → Bool) :
      Change place e { e with listeners := e.listeners.filter keep }
  /-- The queue of a turn begins, if there is none. -/
  | openQueue : Change place e { e with typeQueue := some e.texts }
  /-- A loop is to be left or continued. -/
  | wish (w : LoopBreak) (h : areInLoop place.calls = true ∨ e.repeatTimer.isSome = true) :
      Change place e { e with loopBreak := some w }
  /-- No loop is being left any more. -/
  | noWish : Change place e { e with loopBreak := none }

/-- What a macro can do in a place, in any number of changes. -/
abbrev Changes (place : Place) : Engine Empty σ → Engine Empty σ → Prop :=
  Relation.ReflTransGen (Change place)

/-- What can happen apart from what macros do. -/
inductive Move (e : Engine Empty σ) : Engine Empty σ → Prop
  /-- The first texts leave the queue. -/
  | dequeue {queue : Option (List TypeJob)} (h : queue.getD [] <:+ e.texts) :
      Move e { e with typeQueue := queue }
  /-- Elements cannot be clicked any more. -/
  | unclick {clickables : List Clickable} (h : clickables ⊆ e.clickables) :
      Move e { e with clickables := clickables }
  /-- Passages are added. -/
  | passages (passages : Entries String) : Move e { e with passages := passages }
  /-- The failures noted so far are taken. -/
  | errors (errors : List Failure) : Move e { e with errors := errors }
  /-- The player moves on. -/
  | turn (title : String) : Move e (e.beginTurn title)

variable {place : Place} {e e' : Engine Empty σ}

/-! ### What changes keep of a place -/

theorem exists_of_mem_modify {α : Type} {xs : Array α} {index : Nat} {change : α → α} {b : α}
    (h : b ∈ xs.modify index change) :
    ∃ a ∈ xs, b = a ∨ (xs[index]? = some a ∧ b = change a) := by
  obtain ⟨i, hi⟩ := Array.mem_iff_getElem?.mp h
  rw [Array.getElem?_modify] at hi
  split at hi
  · rename_i hindex
    obtain ⟨a, ha, rfl⟩ := Option.map_eq_some_iff.mp hi
    exact ⟨a, Array.mem_of_getElem? ha, .inr ⟨hindex ▸ ha, rfl⟩⟩
  · exact ⟨b, Array.mem_of_getElem? hi, .inl rfl⟩

theorem Change.parted (h : Change place e e') (he : e.Parted place.mark) :
    e'.Parted place.mark := by
  have hpush (k : ShadowHandler Empty) : place.mark.handlers ≤ (e.handlers.push k).size :=
    Nat.le_trans he.handlers (Tree.size_le_push e.handlers k)
  cases h with
  | display tree h => exact { he with tree := h.parted he.tree }
  | reassign h => exact { he with turn := h.turns.symm ▸ he.turn }
  | handler h hplace => exact { he with handlers := hpush h }
  | text h hplace hkind =>
      refine { he with handlers := hpush h, texts := fun job hjob => ?_ }
      rcases List.mem_append.mp hjob with hold | hnew
      · exact he.texts job hold
      · rw [List.mem_singleton.mp hnew]
        exact he.handlers
  | clickable k h hhandler helement hthere =>
      refine { he with clickables := fun other hother => ?_ }
      rcases List.mem_append.mp hother with hold | hnew
      · exact he.clickables other hold
      · rw [List.mem_singleton.mp hnew]
        exact ⟨hhandler, helement⟩
  | chain k h hhandler hnow hwait =>
      refine { he with chains := fun other hother => ?_ }
      rcases Array.mem_push.mp hother with hold | rfl
      · exact he.chains other hold
      · exact .inr hhandler
  | chainItems index items h =>
      refine { he with chains := fun other hother => ?_ }
      change other ∈ e.chains.modify index fun k => { k with items := items } at hother
      rcases exists_of_mem_modify hother with ⟨k, hk, rfl | ⟨-, rfl⟩⟩
      · exact he.chains other hk
      · exact he.chains k hk
  | typing tree t h hwrapper hfull hthere hnow =>
      refine { he with tree := h.parted he.tree, typings := fun other hother hsince => ?_ }
      rcases Array.mem_push.mp hother with hold | rfl
      · exact he.typings other hold hsince
      · exact .inl (Nat.le_trans he.tree.extent.outputs hfull)
  | retype index change h =>
      refine { he with typings := fun other hother hsince => ?_ }
      obtain ⟨t, ht, rfl | ⟨hindex, rfl⟩⟩ := exists_of_mem_modify hother
      · exact he.typings other ht hsince
      · have horigin := h t hindex
        simp only [Typing.origin, Prod.mk.injEq] at horigin
        rw [horigin.2.2]
        exact he.typings t ht (horigin.2.1 ▸ hsince)
  | timer delay period action h hdelay =>
      refine { he with timers := fun other hother => ?_ }
      rcases List.mem_append.mp hother with hold | hnew
      · exact he.timers other hold
      · rw [List.mem_singleton.mp hnew]
        cases action with
        | repeatTick handler moment => exact .inr h.1
        | _ => trivial
  | clock clock h =>
      refine { he with timers := fun timer' htimer' => ?_ }
      obtain ⟨timer, htimer, -, -, haction⟩ := h.timers timer' htimer'
      rw [haction]
      exact he.timers timer htimer
  | _ => exact he.congr rfl

/-- What is displayed only grows. -/
theorem Change.extent (h : Change place e e') : e.tree.extent.Le e'.tree.extent := by
  cases h with
  | display tree h => exact h.extent
  | typing tree t h => exact h.extent
  | _ => exact .refl _

theorem Change.standsIn (h : Change place e e') (he : e.StandsIn place) : e'.StandsIn place where
  current := by cases h <;> exact he.current
  registry := by cases h <;> exact he.registry
  parted := h.parted he.parted
  elements := Nat.le_trans he.elements h.extent.elements

theorem Changes.standsIn (h : Changes place e e') (he : e.StandsIn place) :
    e'.StandsIn place := by
  induction h with
  | refl => exact he
  | tail _ hstep ih => exact hstep.standsIn ih

theorem Changes.extent (h : Changes place e e') : e.tree.extent.Le e'.tree.extent := by
  induction h with
  | refl => exact .refl _
  | tail _ hstep ih => exact ih.trans hstep.extent

theorem Move.standsIn (h : Move e e') (he : e.StandsIn place) : e'.StandsIn place := by
  have hparted := he.parted
  cases h with
  | dequeue h =>
      exact ⟨he.current, he.registry,
        { hparted with texts := fun job hjob => hparted.texts job (h.subset hjob) }, he.elements⟩
  | unclick h =>
      exact ⟨he.current, he.registry,
        { hparted with clickables := fun k hk => hparted.clickables k (h hk) }, he.elements⟩
  | turn title =>
      exact ⟨he.current, he.registry,
        { hparted with turn := Nat.le_succ_of_le hparted.turn, clickables := nofun, texts := nofun },
        he.elements⟩
  | _ => exact ⟨he.current, he.registry, hparted.congr rfl, he.elements⟩

/-- Timers are cancelled and no longer tracked. -/
theorem Changes.timers {clock : Clock (TimerAction Empty)} (h : e.clock.Lasts clock)
    (repeats chains : List TimerId) :
    Changes place e { e with clock := clock, repeatTimers := repeats, timedTimers := chains } :=
  .tail (.single (.clock clock h)) (.tracked repeats chains)

/-- No macro changes the settings. -/
theorem Changes.config (h : Changes place e e') : e'.config = e.config := by
  induction h with
  | refl => rfl
  | tail _ hstep ih => cases hstep <;> exact ih

/-- No macro takes part in which interval is ticking. -/
theorem Changes.repeatTimer (h : Changes place e e') : e'.repeatTimer = e.repeatTimer := by
  induction h with
  | refl => rfl
  | tail _ hstep ih => cases hstep <;> exact ih

end StoryEngine
