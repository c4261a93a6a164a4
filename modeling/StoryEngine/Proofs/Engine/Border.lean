import StoryEngine.Proofs.Display.Beyond
import StoryEngine.Proofs.Engine.Sound
/-!
# StoryEngine.Proofs.Engine.Border

Work beyond a border. A `Border` remembers how much there was in an engine at some time. Work that
stays beyond it (`Border.Leads`) only displays something in outputs that were made later, so that
all that was displayed before reads the same; it does not move the player; and whatever it makes to
be clicked is an element of its own, which nothing else can be clicked as.

What has to be known of an engine so that its work stays beyond the border is carried along
(`Border.Admits`). The rules for `BeyondTo` follow the structure of computations, like those for
quick work, except that work may also ask for tasks: it is enough that these stay beyond the border
whenever they come to their end.
-/

namespace StoryEngine

variable {η σ α β : Type}

/-! ### What elements do when they are clicked -/

/-- The passage that a click of the call's element leads to. -/
def MacroCall.linkTarget? (call : MacroCall η) : Option String :=
  match call.args.values with
  | [] => none
  | first :: _ =>
    if Builtin.isFlagged first "isImage" then Builtin.textMember? first "link"
    else if Builtin.isFlagged first "isLink" then
      if Builtin.isFlagged first "external" then none else Builtin.textMember? first "link"
    else call.args.text? 1

/-- What a click of the call's element renders. -/
def MacroCall.linkPayload? (call : MacroCall η) : Option (Callback η) :=
  let contents := trimText call.contents
  if contents.isEmpty then none else some (.payload contents)

/-- The handler of the element that its call makes to be clicked, once only if that leads to a
passage. -/
structure ShadowHandler.IsLink (once : Bool) (h : ShadowHandler η) : Prop where
  start : h.start = none
  callback : h.callback = h.context.call.linkPayload?
  done : h.done = h.context.call.linkTarget?.map .goTo
  once : once = h.context.call.linkTarget?.isSome

/-! ### The border -/

/-- How much there was at some time. -/
structure Border where
  extent : Extent := {}
  calls : Nat := 0
  typings : Nat := 0
  /-- All texts that wait for their turn are of later, so that they may be started. -/
  starts : Bool := true

/-- What is typed out stands beyond the border. -/
structure Typer.StandsBeyond (b : Border) (typer : Typer) : Prop where
  wrapper : b.extent.elements ≤ typer.wrapper.index
  full : b.extent.outputs ≤ typer.full.index

/-- What the part of a handler does lies beyond the border, and the player stays where he is. -/
def Callback.Beyond (b : Border) : Callback Empty → Prop
  | .payload _ => True
  | .goTo _ => False
  | .repeatBody wrapper _ _ => b.extent.elements ≤ wrapper.index
  | .timedBody wrapper _ => b.extent.elements ≤ wrapper.index
  | .typeBody call => b.starts = true ∧ b.extent.outputs ≤ call.parent.index
  | .host procedure => procedure.elim

/-- What the handler does lies beyond the border, and the player stays where he is. -/
structure ShadowHandler.Beyond (b : Border) (h : ShadowHandler Empty) : Prop where
  start : h.start = none
  callback : ∀ callback, h.callback = some callback → callback.Beyond b
  done : h.done = none

namespace ShadowHandler

variable {h : ShadowHandler Empty}

theorem IsLink.withStore {once : Bool} (hl : h.IsLink once) (store : Overlay) :
    { h with store := store }.IsLink once :=
  ⟨hl.start, hl.callback, hl.done, hl.once⟩

theorem Beyond.withStore {b : Border} (hb : h.Beyond b) (store : Overlay) :
    { h with store := store }.Beyond b :=
  ⟨hb.start, hb.callback, hb.done⟩

end ShadowHandler

/-- What is put off is of the right kind: what can be clicked are elements of links, every one of
them for itself, and no interval or chain takes the player anywhere. -/
structure Engine.Tidy (e : Engine Empty σ) : Prop where
  nodup : (e.clickables.map (·.element)).Nodup
  made : ∀ k ∈ e.clickables, k.element.index < e.tree.elements.size
  links : ∀ k ∈ e.clickables, e.Holds k.handler (ShadowHandler.IsLink k.once)
  chains : ∀ k ∈ e.chains, e.Holds k.handler (ShadowHandler.Beyond {})
  ticks : ∀ timer ∈ e.clock.timers, ∀ id m, timer.action = .repeatTick id m →
    e.Holds id (ShadowHandler.Beyond {})
  listeners : ∀ l ∈ e.listeners, l.Fits

/-- The engine is one whose work stays beyond the border. -/
structure Border.Admits (b : Border) (e : Engine Empty σ) : Prop extends e.Tidy where
  tree : e.tree.Settled b.extent
  calls_le : b.calls ≤ e.calls.size
  views : ∀ index s, b.calls ≤ index → e.calls[index]? = some s →
    ∀ view, s.view = some view → b.extent.views ≤ view.index
  typings_le : b.typings ≤ e.typings.size
  typings : ∀ index t, b.typings ≤ index → e.typings[index]? = some t → t.typer.StandsBeyond b
  queued : b.starts = true → ∀ job ∈ e.texts, e.Holds job.handler (ShadowHandler.Beyond b)
  waiting : b.starts = false → e.texts ≠ []

/-- The player's way through the story. -/
def State.journey (s : State) : String × Nat × List String :=
  (s.passage, s.turns, s.history)

theorem State.Reassigned.journey_eq {s t : State} (h : s.Reassigned t) :
    t.journey = s.journey := by
  simp [State.journey, h.passage, h.turns, h.history]

/-- What was done stays beyond the border. -/
structure Border.Leads (b : Border) (e e' : Engine Empty σ) : Prop where
  admits : b.Admits e'
  tree : e.tree.ChangesBeyond b.extent e'.tree
  handlers : e.KeepsHandlers e'
  display : e'.display = e.display
  passages : e'.passages = e.passages
  journey : e'.state.journey = e.state.journey
  /-- More elements can be clicked, but only new ones. -/
  clickables : ∃ added, e'.clickables = e.clickables ++ added ∧
    ∀ k ∈ added, e.tree.elements.size ≤ k.element.index

/-- What the border is about, but for the handlers. -/
def Engine.outward (e : Engine Empty σ) :
    (Tree × OutputId × Entries String × (String × Nat × List String)) ×
      (Array CallState × Array Typing × List TypeJob × Array TimedChain) ×
      List Clickable × List (Listener (ListenerAction Empty)) × Clock (TimerAction Empty) :=
  ((e.tree, e.display, e.passages, e.state.journey), (e.calls, e.typings, e.texts, e.chains),
    e.clickables, e.listeners, e.clock)

variable {b : Border} {e e₀ e₁ e' : Engine Empty σ} {P : α → Prop} {Q : β → Prop}

/-- Other handlers do not matter, nor other values that they remember. -/
theorem Border.Admits.congr (he : b.Admits e) (hkeeps : e.KeepsHandlers e')
    (h : e'.outward = e.outward) : b.Admits e' := by
  simp only [Engine.outward, Prod.mk.injEq] at h
  obtain ⟨⟨htree, -, -, -⟩, ⟨hcalls, htypings, htexts, hchains⟩, hclickables, hlisteners, hclock⟩ := h
  refine ⟨⟨?_, ?_, ?_, ?_, ?_, ?_⟩, ?_, ?_, ?_, ?_, ?_, ?_, ?_⟩
  · rw [hclickables]
    exact he.nodup
  · rw [hclickables, htree]
    exact he.made
  · intro k hk
    exact (he.links k (hclickables ▸ hk)).mono hkeeps ShadowHandler.IsLink.withStore
  · intro k hk
    exact (he.chains k (hchains ▸ hk)).mono hkeeps ShadowHandler.Beyond.withStore
  · intro timer htimer id m haction
    rw [hclock] at htimer
    exact (he.ticks timer htimer id m haction).mono hkeeps ShadowHandler.Beyond.withStore
  · rw [hlisteners]
    exact he.listeners
  · rw [htree]
    exact he.tree
  · rw [hcalls]
    exact he.calls_le
  · rw [hcalls]
    exact he.views
  · rw [htypings]
    exact he.typings_le
  · rw [htypings]
    exact he.typings
  · intro hstarts job hjob
    rw [htexts] at hjob
    exact (he.queued hstarts job hjob).mono hkeeps ShadowHandler.Beyond.withStore
  · rw [htexts]
    exact he.waiting

/-! ### What work can do -/

namespace Border.Leads

theorem refl (he : b.Admits e) : b.Leads e e where
  admits := he
  tree := .refl _ _
  handlers := .of_eq rfl
  display := rfl
  passages := rfl
  journey := rfl
  clickables := ⟨[], (List.append_nil _).symm, nofun⟩

theorem trans (h : b.Leads e e₁) (h₁ : b.Leads e₁ e') : b.Leads e e' where
  admits := h₁.admits
  tree := h.tree.trans h₁.tree
  handlers := h.handlers.trans h₁.handlers
  display := h₁.display.trans h.display
  passages := h₁.passages.trans h.passages
  journey := h₁.journey.trans h.journey
  clickables := by
    obtain ⟨added, hadded, hnew⟩ := h.clickables
    obtain ⟨added₁, hadded₁, hnew₁⟩ := h₁.clickables
    refine ⟨added ++ added₁, by rw [hadded₁, hadded, List.append_assoc], fun k hk => ?_⟩
    rcases List.mem_append.mp hk with hk | hk
    · exact hnew k hk
    · exact Nat.le_trans h.tree.extent.elements (hnew₁ k hk)

/-- Nothing is done that the border is about, but handlers may be made or remember other values. -/
theorem still (he : b.Admits e) (hkeeps : e.KeepsHandlers e') (h : e'.outward = e.outward) :
    b.Leads e e' := by
  have hadmits := he.congr hkeeps h
  simp only [Engine.outward, Prod.mk.injEq] at h
  obtain ⟨⟨htree, hdisplay, hpassages, hjourney⟩, -, hclickables, -⟩ := h
  refine ⟨hadmits, ?_, hkeeps, hdisplay, hpassages, hjourney, [], ?_, fun k hk => by cases hk⟩
  · rw [htree]
    exact .refl _ _
  · rw [hclickables, List.append_nil]

/-- Variables have other values. -/
theorem state (he : b.Admits e) {s : State} (h : s.journey = e.state.journey) :
    b.Leads e { e with state := s } := by
  refine .still he (.of_eq rfl) ?_
  unfold Engine.outward
  dsimp only
  rw [h]
  rfl

/-- Something is displayed beyond the border. -/
theorem display_tree (he : b.Admits e) {tree : Tree} (h : e.tree.ChangesBeyond b.extent tree) :
    b.Leads e { e with tree := tree } :=
  { Leads.refl he with
    admits := { he with
      tree := h.settled he.tree
      made := fun k hk => Nat.lt_of_lt_of_le (he.made k hk) h.extent.elements }
    tree := h }

/-- A call is made. -/
theorem pushCall (he : b.Admits e) (isDebug : Bool) :
    b.Leads e { e with calls := e.calls.push { isDebug := isDebug } } :=
  { Leads.refl he with
    admits := { he with
      calls_le := Nat.le_trans he.calls_le (Tree.size_le_push _ _)
      views := by
        intro index s hindex hs view hview
        rw [Array.getElem?_push] at hs
        split at hs
        · cases hs
          cases hview
        · exact he.views index s hindex hs view hview } }

/-- Something about a call is changed. -/
theorem modifyCall (he : b.Admits e) (index : Nat) {change : CallState → CallState}
    (h : ∀ s, (∀ view, s.view = some view → b.extent.views ≤ view.index) →
      ∀ view, (change s).view = some view → b.extent.views ≤ view.index) :
    b.Leads e { e with calls := e.calls.modify index change } :=
  { Leads.refl he with
    admits := { he with
      calls_le := Nat.le_trans he.calls_le (Nat.le_of_eq Array.size_modify.symm)
      views := by
        intro other s hother hs
        rw [Array.getElem?_modify] at hs
        split at hs
        · obtain ⟨s₀, hs₀, rfl⟩ := Option.map_eq_some_iff.mp hs
          exact h s₀ (he.views other s₀ hother hs₀)
        · exact he.views other s hother hs } }

/-- A text that is to be typed out is set aside. -/
theorem pushTyping (he : b.Admits e) {t : Typing} (ht : t.typer.StandsBeyond b) :
    b.Leads e { e with typings := e.typings.push t } :=
  { Leads.refl he with
    admits := { he with
      typings_le := Nat.le_trans he.typings_le (Tree.size_le_push _ _)
      typings := by
        intro index other hindex hother
        rw [Array.getElem?_push] at hother
        split at hother
        · cases hother
          exact ht
        · exact he.typings index other hindex hother } }

/-- More of a text has been typed, or it is given up. -/
theorem modifyTyping (he : b.Admits e) (index : Nat) {change : Typing → Typing}
    (h : ∀ t, t.typer.StandsBeyond b → (change t).typer.StandsBeyond b) :
    b.Leads e { e with typings := e.typings.modify index change } :=
  { Leads.refl he with
    admits := { he with
      typings_le := Nat.le_trans he.typings_le (Nat.le_of_eq Array.size_modify.symm)
      typings := by
        intro other t hother ht
        rw [Array.getElem?_modify] at ht
        split at ht
        · obtain ⟨t₀, ht₀, rfl⟩ := Option.map_eq_some_iff.mp ht
          exact h t₀ (he.typings other t₀ hother ht₀)
        · exact he.typings other t hother ht } }

/-- A text is put into the queue, or the queue begins. -/
theorem enqueue (he : b.Admits e) {queue : Option (List TypeJob)}
    (h : ∃ added, queue.getD [] = e.texts ++ added ∧
      (b.starts = true → ∀ job ∈ added, e.Holds job.handler (ShadowHandler.Beyond b))) :
    b.Leads e { e with typeQueue := queue } := by
  obtain ⟨added, hqueue, hadded⟩ := h
  have htexts : Engine.texts { e with typeQueue := queue } = e.texts ++ added := hqueue
  refine { Leads.refl he with admits := { he with queued := ?_, waiting := ?_ } }
  · intro hstarts job hjob
    rw [htexts] at hjob
    rcases List.mem_append.mp hjob with hold | hnew
    · exact he.queued hstarts job hold
    · exact hadded hstarts job hnew
  · intro hstarts hnil
    rw [htexts] at hnil
    exact he.waiting hstarts (List.append_eq_nil_iff.mp hnil).1

/-- Texts leave the queue, if that is allowed. -/
theorem dequeue (he : b.Admits e) (hstarts : b.starts = true) {queue : Option (List TypeJob)}
    (h : queue.getD [] ⊆ e.texts) : b.Leads e { e with typeQueue := queue } :=
  { Leads.refl he with
    admits := { he with
      queued := fun hstarts job hjob => he.queued hstarts job (h hjob)
      waiting := fun hnot => by rw [hstarts] at hnot; cases hnot } }

/-- Others listen, and to the right events. -/
theorem listening (he : b.Admits e) {listeners : List (Listener (ListenerAction Empty))}
    (h : ∀ l ∈ listeners, l ∈ e.listeners ∨ l.Fits) :
    b.Leads e { e with listeners := listeners } :=
  { Leads.refl he with
    admits := { he with
      listeners := fun l hl => (h l hl).elim (he.listeners l) id } }

/-- A chain begins, or goes on. -/
theorem chains (he : b.Admits e) {chains : Array TimedChain}
    (h : ∀ k ∈ chains, (∃ k₀ ∈ e.chains, k.handler = k₀.handler) ∨
      e.Holds k.handler (ShadowHandler.Beyond {})) :
    b.Leads e { e with chains := chains } :=
  { Leads.refl he with
    admits := { he with
      chains := by
        intro k hk
        rcases h k hk with ⟨k₀, hk₀, hsame⟩ | hholds
        · rw [hsame]
          exact he.chains k₀ hk₀
        · exact hholds } }

/-- Timers are set, cancelled or taken, or the clock moves on. -/
theorem clock (he : b.Admits e) {clock : Clock (TimerAction Empty)}
    (h : ∀ timer ∈ clock.timers, (∃ timer₀ ∈ e.clock.timers, timer.action = timer₀.action) ∨
      ∀ id m, timer.action = .repeatTick id m → e.Holds id (ShadowHandler.Beyond {})) :
    b.Leads e { e with clock := clock } :=
  { Leads.refl he with
    admits := { he with
      ticks := by
        intro timer htimer id m haction
        rcases h timer htimer with ⟨timer₀, htimer₀, hsame⟩ | hholds
        · exact he.ticks timer₀ htimer₀ id m (hsame ▸ haction)
        · exact hholds id m haction } }

/-- Timers are cancelled or taken, or the clock moves on. -/
theorem lasts (he : b.Admits e) {clock : Clock (TimerAction Empty)} (h : e.clock.Lasts clock) :
    b.Leads e { e with clock := clock } := by
  refine Leads.clock he fun timer htimer => .inl ?_
  obtain ⟨timer₀, htimer₀, -, -, haction⟩ := h.timers timer htimer
  exact ⟨timer₀, htimer₀, haction⟩

/-- A timer is set, for an interval with a handler that stays beyond the border. -/
theorem timer (he : b.Admits e) (delay : Nat) (period : Option Nat) (action : TimerAction Empty)
    (h : ∀ id m, action = .repeatTick id m → e.Holds id (ShadowHandler.Beyond {})) :
    b.Leads e { e with clock := (e.clock.addTimer delay period action).2 } := by
  refine Leads.clock he fun timer htimer => ?_
  rcases List.mem_append.mp htimer with hold | hnew
  · exact .inl ⟨timer, hold, rfl⟩
  · cases List.mem_singleton.mp hnew
    exact .inr h

/-- An element that was made since, and could not be clicked yet, can be clicked now. -/
theorem clickable (h : b.Leads e e₁) {k : Clickable}
    (hnew : e.tree.elements.size ≤ k.element.index) (hmade : k.element.index < e₁.tree.elements.size)
    (hfirst : ∀ other ∈ e₁.clickables, other.element ≠ k.element)
    (hlink : e₁.Holds k.handler (ShadowHandler.IsLink k.once)) :
    b.Leads e { e₁ with clickables := e₁.clickables ++ [k] } := by
  have htidy := h.admits
  have hmem {other : Clickable} (hother : other ∈ e₁.clickables ++ [k]) :
      other ∈ e₁.clickables ∨ other = k :=
    (List.mem_append.mp hother).imp_right List.mem_singleton.mp
  refine { h with
    admits := { h.admits with nodup := ?_, made := ?_, links := ?_ }
    clickables := ?_ }
  · rw [List.map_append, List.nodup_append]
    refine ⟨htidy.nodup, by simp, ?_⟩
    intro element helement other hother
    obtain ⟨first, hfirstmem, rfl⟩ := List.mem_map.mp helement
    obtain rfl : other = k.element := by simpa using hother
    exact hfirst first hfirstmem
  · intro other hother
    rcases hmem hother with hold | rfl
    · exact htidy.made other hold
    · exact hmade
  · intro other hother
    rcases hmem hother with hold | rfl
    · exact htidy.links other hold
    · exact hlink
  · obtain ⟨added, hadded, hall⟩ := h.clickables
    refine ⟨added ++ [k], by rw [← List.append_assoc, ← hadded], fun other hother => ?_⟩
    rcases List.mem_append.mp hother with hold | hlast
    · exact hall other hold
    · rw [List.mem_singleton.mp hlast]
      exact hnew

/-- Leaving a handler's callback only concerns the context, the variables and what the handler
remembers. -/
theorem leaveShadow (he : b.Admits e) (id : HandlerId) (depth : Nat)
    (previous : Option (Context Empty)) : b.Leads e (e.leaveShadow id depth previous) := by
  unfold Engine.leaveShadow State.pop
  dsimp only
  split
  · split
    · rename_i hpop
      split at hpop
      · cases hpop
      · cases hpop
        exact .still he (.of_modify rfl) rfl
    · rename_i hpop
      split at hpop <;> cases hpop
      exact .still he (.of_eq rfl) rfl
  · exact .still he (.of_eq rfl) rfl

end Border.Leads

/-! ### Work beyond the border -/

/-- If the computation that is started on the engine returns, what was done since another one stays
beyond the border. A result has the property. -/
def BeyondFrom (b : Border) (e₀ : Engine Empty σ) (P : α → Prop) (x : Run Empty σ α)
    (e : Engine Empty σ) : Prop :=
  Returned (x e).1 → b.Leads e₀ (x e).2 ∧ ∀ a, (x e).1 = .ok a → P a

/-- Wherever it is started, the computation stays beyond the border if it returns. A result has the
property. -/
def BeyondTo (b : Border) (P : α → Prop) (x : Run Empty σ α) : Prop :=
  ∀ e, b.Admits e → BeyondFrom b e P x e

/-- Wherever it is started, the computation stays beyond the border if it returns. -/
abbrev Beyond (b : Border) (x : Run Empty σ α) : Prop :=
  BeyondTo b (fun _ => True) x

namespace BeyondFrom

/-- Work that goes on after other work. What is known about the first part is known from where that
was started. -/
theorem follow {x : Run Empty σ α} {f : α → Run Empty σ β} (h₀ : b.Leads e₀ e)
    (hx : BeyondFrom b e P x e)
    (hf : ∀ a e₁, x e = (.ok a, e₁) → b.Leads e e₁ → P a → BeyondFrom b e₀ Q (f a) e₁) :
    BeyondFrom b e₀ Q (x >>= f) e := by
  intro hr
  rcases Run.bind_returned (Prod.eta ((x >>= f) e)).symm hr with
    ⟨a, e₁, hfirst, hsecond⟩ | ⟨failure, hfirst, hfailed⟩
  · have hfirst' := hx (by rw [hfirst]; exact returned_ok a)
    rw [hfirst] at hfirst'
    have hrest := hf a e₁ hfirst hfirst'.1 (hfirst'.2 a rfl)
    unfold BeyondFrom at hrest
    rw [hsecond] at hrest
    exact hrest hr
  · have hfirst' := (hx (by rw [hfirst]; exact returned_failure failure)).1
    rw [hfirst] at hfirst'
    refine ⟨h₀.trans hfirst', fun a ha => ?_⟩
    rw [hfailed] at ha
    cases ha

theorem bind {x : Run Empty σ α} {f : α → Run Empty σ β} (h₀ : b.Leads e₀ e)
    (hx : BeyondFrom b e P x e)
    (hf : ∀ a e₁, b.Leads e e₁ → P a → BeyondFrom b e₀ Q (f a) e₁) :
    BeyondFrom b e₀ Q (x >>= f) e :=
  follow h₀ hx fun a e₁ _ => hf a e₁

/-- Work that goes on with a result, in the engine that was left with it. -/
theorem next {x : Run Empty σ α} {f : α → Run Empty σ β} {a : α} (hx : x e = (.ok a, e₁))
    (hf : BeyondFrom b e₀ Q (f a) e₁) : BeyondFrom b e₀ Q (x >>= f) e := by
  unfold BeyondFrom
  rw [Run.bind_of_ok hx]
  exact hf

theorem ofOk {x : Run Empty σ α} {a : α} (hx : x e = (.ok a, e₁)) (h : b.Leads e₀ e₁) (hP : P a) :
    BeyondFrom b e₀ P x e := by
  unfold BeyondFrom
  rw [hx]
  exact fun _ => ⟨h, fun _ ha => by cases ha; exact hP⟩

/-- Only what a computation does when it is started on the engine matters. -/
theorem congr {x y : Run Empty σ α} (h : x e = y e) (hy : BeyondFrom b e₀ P y e) :
    BeyondFrom b e₀ P x e := by
  unfold BeyondFrom
  rw [h]
  exact hy

theorem attempt {x : Run Empty σ α} (hx : BeyondFrom b e₀ P x e) :
    BeyondFrom b e₀ (fun r => ∀ a, r = .ok a → P a) (Run.attempt x) e := by
  intro hr
  obtain ⟨r, hrun, hreturned⟩ := Run.attempt_returned (Prod.eta (Run.attempt x e)).symm hr
  have hx' := hx (by rw [hrun]; exact hreturned)
  rw [hrun] at hx'
  refine ⟨hx'.1, fun outcome houtcome a ha => ?_⟩
  subst ha
  cases r with
  | ok a' =>
      rw [Run.attempt_of_ok hrun] at houtcome
      cases houtcome
      exact hx'.2 a rfl
  | error halt =>
      cases halt with
      | failure f =>
          rw [Run.attempt_of_failure hrun] at houtcome
          cases houtcome
      | outOfFuel => exact (hreturned rfl).elim

theorem andFinally {x : Run Empty σ α} {change : Engine Empty σ → Engine Empty σ}
    (hx : BeyondFrom b e₀ P x e) (h : ∀ e, b.Admits e → b.Leads e (change e)) :
    BeyondFrom b e₀ P (Run.andFinally x change) e := by
  intro hr
  obtain ⟨e₁, hrun, hlast⟩ :=
    Run.andFinally_returned (Prod.eta (Run.andFinally x change e)).symm hr
  have hx' := hx (by rw [hrun]; exact hr)
  rw [hrun] at hx'
  rw [hlast]
  exact ⟨hx'.1.trans (h e₁ hx'.1.admits), hx'.2⟩

/-- A failure that is noted. -/
theorem reporting {x : Run Empty σ Unit} (h₀ : b.Leads e₀ e)
    (hx : BeyondFrom b e (fun _ => True) x e) :
    BeyondFrom b e₀ (fun _ => True) (Run.reporting x) e := by
  refine .bind h₀ hx.attempt fun outcome e₁ h₁ _ => ?_
  have hall := h₀.trans h₁
  split
  · exact .ofOk rfl hall trivial
  · exact .ofOk rfl (hall.trans (.still h₁.admits (.of_eq rfl) rfl)) trivial

theorem mono {P' : α → Prop} {x : Run Empty σ α} (hx : BeyondFrom b e₀ P x e)
    (h : ∀ a, P a → P' a) : BeyondFrom b e₀ P' x e :=
  fun hr => ⟨(hx hr).1, fun a ha => h a ((hx hr).2 a ha)⟩

end BeyondFrom

namespace BeyondTo

/-- Work that is started after other work. -/
theorem after {x : Run Empty σ α} (hx : BeyondTo b P x) (h : b.Leads e₀ e) :
    BeyondFrom b e₀ P x e :=
  fun hr => ⟨h.trans (hx e h.admits hr).1, (hx e h.admits hr).2⟩

theorem mono {P' : α → Prop} {x : Run Empty σ α} (hx : BeyondTo b P x) (h : ∀ a, P a → P' a) :
    BeyondTo b P' x :=
  fun e he => (hx e he).mono h

/-- Forget what is known about the result. -/
theorem forget {x : Run Empty σ α} (hx : BeyondTo b P x) : Beyond b x :=
  hx.mono fun _ _ => trivial

theorem pure {a : α} (h : P a) : BeyondTo b P (Pure.pure a : Run Empty σ α) :=
  fun _ he => .ofOk rfl (.refl he) h

theorem fail (f : Failure) : BeyondTo b P (Run.fail f : Run Empty σ α) :=
  fun _ he _ => ⟨.refl he, nofun⟩

theorem outOfFuel : BeyondTo b P (throw .outOfFuel : Run Empty σ α) :=
  fun _ _ hr => (hr rfl).elim

theorem bind {x : Run Empty σ α} {f : α → Run Empty σ β} (hx : BeyondTo b P x)
    (hf : ∀ a, P a → BeyondTo b Q (f a)) : BeyondTo b Q (x >>= f) :=
  fun e he => (hx e he).bind (.refl he) fun a _ h hP => (hf a hP).after h

/-- Nothing is known about the result of what is done first. -/
theorem seq {x : Run Empty σ α} {f : α → Run Empty σ β} (hx : Beyond b x)
    (hf : ∀ a, BeyondTo b Q (f a)) : BeyondTo b Q (x >>= f) :=
  hx.bind fun a _ => hf a

/-- What depends on the engine stays beyond the border if it does so for every engine. -/
theorem get {f : Engine Empty σ → Run Empty σ β} (hf : ∀ e, b.Admits e → BeyondTo b Q (f e)) :
    BeyondTo b Q (MonadState.get >>= f) :=
  fun e he => .next rfl (hf e he e he)

/-- Work that is done on a condition only, before other work. -/
theorem bindUnless {c : Prop} [Decidable c] {x : Run Empty σ Unit} {f : Unit → Run Empty σ β}
    (hx : Beyond b x) (hf : BeyondTo b Q (f ())) :
    BeyondTo b Q (if c then f () else x >>= f) := by
  split
  · exact hf
  · exact bind hx fun _ _ => hf

theorem bindWhen {c : Prop} [Decidable c] {x : Run Empty σ Unit} {f : Unit → Run Empty σ β}
    (hx : Beyond b x) (hf : BeyondTo b Q (f ())) :
    BeyondTo b Q (if c then x >>= f else f ()) := by
  split
  · exact bind hx fun _ _ => hf
  · exact hf

theorem attempt {x : Run Empty σ α} (hx : BeyondTo b P x) :
    BeyondTo b (fun r => ∀ a, r = .ok a → P a) (Run.attempt x) :=
  fun e he => (hx e he).attempt

/-- A computation and a closing change of the engine. -/
theorem andFinally {x : Run Empty σ α} {change : Engine Empty σ → Engine Empty σ}
    (hx : BeyondTo b P x) (h : ∀ e, b.Admits e → b.Leads e (change e)) :
    BeyondTo b P (Run.andFinally x change) :=
  fun e he => (hx e he).andFinally h

/-! ### What computations are built from -/

theorem withTree {change : Tree → α × Tree}
    (h : ∀ t : Tree, t.Settled b.extent → t.ChangesBeyond b.extent (change t).2 ∧ P (change t).1) :
    BeyondTo b P (Run.withTree change : Run Empty σ α) :=
  fun e he => .ofOk rfl (.display_tree he (h e.tree he.tree).1) (h e.tree he.tree).2

theorem fromTree {read : Tree → α} (h : ∀ t : Tree, t.Settled b.extent → P (read t)) :
    BeyondTo b P (Run.fromTree read : Run Empty σ α) :=
  fun e he => .ofOk rfl (.refl he) (h e.tree he.tree)

theorem andThen {x : Run Empty σ α} {change : Engine Empty σ → Engine Empty σ}
    (hx : BeyondTo b P x)
    (h : ∀ e, (change e).handlers = e.handlers ∧ (change e).outward = e.outward) :
    BeyondTo b P (Run.andFinally x change) :=
  hx.andFinally fun e he => .still he (.of_eq (h e).1) (h e).2

/-- A change of the engine that the border is not about. -/
theorem still {change : Engine Empty σ → Engine Empty σ}
    (h : ∀ e, (change e).handlers = e.handlers ∧ (change e).outward = e.outward) :
    Beyond b (modify change : Run Empty σ Unit) :=
  fun e he => .ofOk rfl (.still he (.of_eq (h e).1) (h e).2) trivial

theorem modify {change : Engine Empty σ → Engine Empty σ}
    (h : ∀ e, b.Admits e → b.Leads e (change e)) :
    Beyond b (modify change : Run Empty σ Unit) :=
  fun e he => .ofOk rfl (h e he) trivial

theorem changeTree {change : Tree → Tree}
    (h : ∀ t : Tree, t.Settled b.extent → t.ChangesBeyond b.extent (change t)) :
    Beyond b (Run.changeTree change : Run Empty σ Unit) :=
  modify fun e he => .display_tree he (h e.tree he.tree)

theorem evaluating {x : Evaluation α} (hx : Reassigns x) :
    Beyond b (Run.evaluating x : Run Empty σ (Except ExprError α)) :=
  fun e he => .ofOk rfl (.state he (hx e.state).journey_eq) trivial

theorem reading {x : ArgumentReading α} (hx : Reassigns x) :
    Beyond b (Run.reading x : Run Empty σ (Except ArgumentError α)) :=
  fun e he => .ofOk rfl (.state he (hx e.state).journey_eq) trivial

theorem changingState {change : State → Except InvalidVariable State}
    (h : ∀ s t, change s = .ok t → s.Reassigned t) :
    Beyond b (Run.changingState change : Run Empty σ Unit) := by
  intro e he
  unfold BeyondFrom
  rw [Run.changingState, Run.get_bind_apply]
  cases hs : change e.state with
  | ok t =>
      have hstate : t.journey = e.state.journey := (h _ _ hs).journey_eq
      exact BeyondFrom.ofOk (P := fun _ => True) rfl (.state he hstate) trivial
  | error error => exact BeyondTo.fail _ e he

theorem changeClock {change : Clock (TimerAction Empty) → Clock (TimerAction Empty)}
    (h : ∀ c : Clock (TimerAction Empty), c.Lasts (change c)) :
    Beyond b (Run.changeClock change : Run Empty σ Unit) :=
  modify fun e he => .lasts he (h e.clock)

/-- A timer is set that is not for a body to be rendered again and again. -/
theorem setTimeout (delay : Nat) {action : TimerAction Empty}
    (h : ∀ id m, action ≠ .repeatTick id m) :
    Beyond b (Run.withClock fun c => c.setTimeout delay action : Run Empty σ TimerId) :=
  fun _ he => .ofOk rfl (.timer he delay none action fun id m haction => (h id m haction).elim)
    trivial

theorem setInterval (delay : Nat) {action : TimerAction Empty}
    (h : ∀ id m, action ≠ .repeatTick id m) :
    Beyond b (Run.withClock fun c => c.setInterval delay action : Run Empty σ TimerId) :=
  fun _ he => .ofOk rfl (.timer he _ _ action fun id m haction => (h id m haction).elim) trivial

theorem listen {l : Listener (ListenerAction Empty)} (h : l.Fits) :
    Beyond b (Run.listen l : Run Empty σ Unit) := by
  refine modify fun e he => .listening he fun other hother => ?_
  rcases List.mem_append.mp hother with hold | hnew
  · exact .inl hold
  · rw [List.mem_singleton.mp hnew]
    exact .inr h

theorem unlisten (event : Option Event) (name : String) :
    Beyond b (Run.unlisten event name : Run Empty σ Unit) :=
  modify fun _ he => .listening he fun _ hl => .inl (List.mem_filter.mp hl).1

theorem moment : Beyond b (Run.moment : Run Empty σ Moment) :=
  fun _ he => .ofOk rfl (.refl he) trivial

theorem isStale (m : Moment) : Beyond b (Run.isStale m : Run Empty σ Bool) :=
  fun _ he => .ofOk rfl (.refl he) trivial

/-- A failure that is noted. -/
theorem reporting {x : Run Empty σ Unit} (hx : Beyond b x) : Beyond b (Run.reporting x) :=
  fun e he => .reporting (.refl he) (hx e he)

end BeyondTo

end StoryEngine
