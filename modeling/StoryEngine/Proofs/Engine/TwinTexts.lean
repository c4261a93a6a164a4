import StoryEngine.Proofs.Engine.TwinWork
/-!
# StoryEngine.Proofs.Engine.TwinTexts

A text whose turn has come, in twins. It is the first that waits, and the element that keeps its
place is known (`Engine.Twin.waiting`). Its element takes that place (`Engine.TwinPlaced`); then either it
leaves the queue, or its content is set aside to be typed out, and no other text has its turn before
that is done (`Engine.TwinPlaced.busy`). A content without letters is put back at once, and all places are
kept again (`Engine.TwinPlaced.ending`).
-/

namespace StoryEngine

variable {σ : Type} {g : Progress} {slots : List Slot} {slot : Slot} {rest : List Spot} {job : TypeJob}
  {wrapper : ElementId} {o w : OutputId}

open Run

/-- The same work while the first text that waits has its turn. -/
def Progress.turn (g : Progress) (job : TypeJob) (slot : Slot) : Progress :=
  { g with queued := [(job, slot)] }

/-- The same work in an element that is filled. Its content is a new spot. -/
def Progress.filled (g : Progress) (id : ElementId) (plain wrapped : OutputId) : Progress :=
  { g with
    spots := ⟨plain, wrapped, []⟩ :: g.spots
    contents := (id, wrapped) :: g.contents }

theorem Progress.le_filled (g : Progress) (id : ElementId) (plain wrapped : OutputId) :
    g.Le (g.filled id plain wrapped) :=
  ⟨List.sublist_cons_self _ _, .refl _, List.subset_cons_self _ _, .refl _, .refl _,
    List.prefix_refl _⟩

theorem Progress.le_turn {g : Progress} (hqueued : g.queued = []) (job : TypeJob) (slot : Slot) :
    g.Le (g.turn job slot) :=
  ⟨.refl _, .refl _, List.Subset.refl _, .refl _, .refl _, hqueued ▸ List.nil_prefix⟩

namespace Engine

variable {e d : Engine Empty σ}

/-! ### Before its turn -/

theorem TwinEnding.of_le {g' : Progress} (h : TwinEnding g' e d) (hle : g.Le g') :
    TwinEnding g e d := by
  obtain ⟨slots, hpair, hrest⟩ := h
  exact ⟨slots, hpair.of_le hle, hrest⟩

theorem TwinCalm.of_le {g' : Progress} (h : TwinCalm g' e d) (hle : g.Le g') : TwinCalm g e d := by
  obtain ⟨slots, hpair, hcalm⟩ := h
  exact ⟨slots, hpair.of_le hle, hcalm.of_le hle⟩

/-- The first text that waits has a handler in both engines, and its place is kept. -/
theorem TwinCalm.waiting (h : TwinCalm g e d) (hjob : e.texts.head? = some job) :
    ∃ slot, WaitsAt e d job slot ∧ TwinCalm (g.turn job slot) e d := by
  obtain ⟨slots, hpair, hcalm⟩ := h
  obtain ⟨rest, htexts⟩ := List.head?_eq_some_iff.mp hjob
  have hwaits := hcalm.waits
  rw [htexts] at hwaits
  cases hwaits with
  | cons hwaits hrest =>
      rename_i slot slots
      refine ⟨slot, hwaits, slot :: slots, { hpair with }, { hcalm with queued := ?_ }⟩
      rw [htexts]
      exact List.prefix_append [(job, slot)] _

/-- As long as it has its turn, no text is being typed out. -/
theorem Twin.turn (h : Twin g e d) (hqueued : g.queued = [(job, slot)]) :
    ∃ rest slots, e.texts = job :: rest ∧ Pair g (slot :: slots) e d ∧
      List.Forall₂ (WaitsAt e d) rest slots ∧ Listener.of e.listeners .typingStop = [] := by
  obtain ⟨slots, hpair, hcalm | hbusy⟩ := h
  · have hprefix := hcalm.queued
    have hwaits := hcalm.waits
    rw [hqueued] at hprefix
    cases htexts : e.texts with
    | nil =>
        rw [htexts] at hprefix
        cases List.prefix_nil.mp hprefix
    | cons first rest =>
        rw [htexts] at hprefix hwaits
        cases hwaits with
        | cons hfirst hrest =>
            rw [List.zip_cons_cons, List.cons_prefix_cons] at hprefix
            cases hprefix.1
            exact ⟨rest, _, rfl, hpair, hrest, hcalm.silent⟩
  · rw [hbusy.queued] at hqueued
    cases hqueued

/-! ### In its place -/

/-- The element of the first text that waits has taken its place. The other texts wait on. -/
def TwinPlaced (g : Progress) (job : TypeJob) (e d : Engine Empty σ) : Prop :=
  ∃ rest slots, e.texts = job :: rest ∧ Pair g slots e d ∧ List.Forall₂ (WaitsAt e d) rest slots ∧
    Listener.of e.listeners .typingStop = []

theorem Twin.place (h : Twin ((g.turn job slot).filling wrapper o w slot.plain) e d) :
    TwinPlaced (g.filled wrapper o w) job
      { e with tree := (e.tree.replaceElement slot.plain slot.target (.element wrapper)).2 }
      { d with tree := (d.tree.replaceElement slot.wrapped slot.target (.element wrapper)).2 } := by
  obtain ⟨rest, slots, htexts, hpair, hwaits, hsilent⟩ := h.turn rfl
  refine ⟨rest, slots, htexts, ?_, hwaits, hsilent⟩
  refine hpair.withTrees (.replaceElement _ _ _ _) rfl (fun _ hx => .inl hx) ?_
  have hslots : (slot :: (g.free ++ slots)).Perm (g.free ++ slot :: slots) := List.perm_middle.symm
  have hperm := hpair.scene.perm hslots
  exact hperm.replaceElement rfl rfl

/-- What is being typed out, what waits and who listens may change, in both engines alike. -/
theorem Pair.retype (h : Pair g slots e d) {typings typings' : Array Typing}
    (hsize : typings'.size = typings.size) {queue queue' : Option (List TypeJob)}
    {listeners listeners' : List (Listener (ListenerAction Empty))}
    (hqueue : queue' = queue) (hlisteners : listeners' = listeners) (hfits : ∀ l ∈ listeners, l.Fits) :
    Pair g slots { e with typings := typings, typeQueue := queue, listeners := listeners }
      { d with typings := typings', typeQueue := queue', listeners := listeners' } := by
  subst hqueue hlisteners
  exact { h with
    dressed := congrArg (fun d : Engine Empty σ => { d with
      typings := typings', typeQueue := queue', listeners := listeners' }) h.dressed
    fits := hfits
    typings := hsize }

theorem Pair.typeQueue_eq (h : Pair g slots e d) : d.typeQueue = e.typeQueue := by
  rw [h.dressed]
  rfl

theorem Pair.listeners_eq (h : Pair g slots e d) : d.listeners = e.listeners := by
  rw [h.dressed]
  rfl

theorem Twin.retype (h : Twin g e d) {typings typings' : Array Typing}
    (hsize : typings'.size = typings.size) :
    Twin g { e with typings := typings } { d with typings := typings' } :=
  h.same_queue rfl rfl rfl rfl rfl fun _ hpair =>
    hpair.retype hsize hpair.typeQueue_eq hpair.listeners_eq hpair.fits

/-- Elements are made to look different. -/
theorem TwinPlaced.decorate (h : TwinPlaced g job e d) {change : Tree → Tree}
    (hchange : Tree.Decorates change) :
    TwinPlaced g job { e with tree := change e.tree } { d with tree := change d.tree } := by
  obtain ⟨rest, slots, htexts, hpair, hwaits, hsilent⟩ := h
  refine ⟨rest, slots, htexts, ?_, hwaits, hsilent⟩
  exact hpair.withTrees (hchange.extend d.tree) rfl (fun _ hx => .inl hx) (hchange.scene hpair.scene)

/-- It has left the queue. -/
theorem TwinPlaced.leave (h : TwinPlaced g job e d) (hqueued : g.queued = []) :
    TwinCalm g { e with typeQueue := e.typeQueue.map List.tail }
      { d with typeQueue := d.typeQueue.map List.tail } := by
  obtain ⟨rest, slots, htexts, hpair, hwaits, hsilent⟩ := h
  have hleft : (e.typeQueue.map List.tail).getD [] = rest := by
    rw [typeQueue_of_texts htexts]
    rfl
  refine ⟨slots, hpair.retype hpair.typings ?_ hpair.listeners_eq hpair.fits, ?_, hsilent, ?_⟩
  · rw [hpair.typeQueue_eq]
  · unfold texts
    rw [hleft]
    exact hwaits
  · rw [hqueued]
    exact List.nil_prefix

/-! ### Being typed out -/

/-- A text whose content was set aside in a moment. -/
def typingOf (call : TypeCall) (moment : Moment) (typer : Typer) : Typing where
  id := call.id
  typer := typer
  cursorClass := call.className ++ "-cursor"
  doneClass := call.className ++ "-done"
  cursor := call.options.cursor
  speed := call.speed
  skipKey := call.options.skipKey
  moment := moment

/-- The engine in which the content of a wrapper is set aside to be typed out. -/
def setTyping (e : Engine Empty σ) (call : TypeCall) (wrapper : ElementId) (moment : Moment) :
    Engine Empty σ :=
  { e with
    tree := (Typer.ofElement e.tree wrapper).2
    typings := e.typings.push (typingOf call moment (Typer.ofElement e.tree wrapper).1)
    listeners := Listener.off e.listeners (some .keydown) Builtin.typingNamespace ++
      [⟨.keydown, some Builtin.typingNamespace, false, .skipTyping e.typings.size⟩] ++
      [⟨.typingStop, some Builtin.typingNamespace, true, .nextTyping⟩] }

end Engine

/-- The element around a text that is typed out shows its cursor. -/
def Builtin.markCursor (call : TypeCall) (wrapper : ElementId) (t : Tree) : Tree :=
  if call.options.cursor ≠ .hidden then t.addClass wrapper (call.className ++ "-cursor") else t

theorem Builtin.decorates_markCursor (call : TypeCall) (wrapper : ElementId) :
    Tree.Decorates (markCursor call wrapper) := by
  unfold markCursor
  split
  · exact .addClass _ _
  · exact .id

theorem Builtin.makeTyping_setTyping (call : TypeCall) (wrapper : ElementId) (moment : Moment)
    (e : Engine Empty σ) :
    makeTyping call wrapper moment e = (.ok e.typings.size,
      Engine.setTyping { e with tree := markCursor call wrapper e.tree } call wrapper moment) := by
  unfold makeTyping markCursor
  dsimp only
  split <;> rfl

namespace Engine

variable {e d : Engine Empty σ}

theorem fits_setTyping (hfits : ∀ l ∈ e.listeners, l.Fits) (call : TypeCall) (wrapper : ElementId)
    (moment : Moment) :
    ∀ l ∈ (e.setTyping call wrapper moment).listeners, l.Fits := by
  intro l hl
  rcases List.mem_append.mp hl with hl | hstop
  · rcases List.mem_append.mp hl with hold | hkey
    · exact hfits l (List.mem_filter.mp hold).1
    · exact List.mem_singleton.mp hkey ▸ rfl
  · exact List.mem_singleton.mp hstop ▸ rfl

theorem Pair.listeners_setTyping (h : Pair g slots e d) (call : TypeCall) (wrapper : ElementId)
    (moment : Moment) :
    (d.setTyping call wrapper moment).listeners = (e.setTyping call wrapper moment).listeners := by
  unfold setTyping
  rw [h.listeners_eq, h.typings]

theorem getElem?_setTyping (e : Engine Empty σ) (call : TypeCall) (wrapper : ElementId)
    (moment : Moment) :
    (e.setTyping call wrapper moment).typings[e.typings.size]? =
      some (typingOf call moment (Typer.ofElement e.tree wrapper).1) :=
  Array.getElem?_push_size

/-- It is known by the same index in both engines. -/
theorem Pair.getElem?_setTyping (h : Pair g slots e d) (call : TypeCall) (wrapper : ElementId)
    (moment : Moment) :
    (d.setTyping call wrapper moment).typings[e.typings.size]? =
      some (typingOf call moment (Typer.ofElement d.tree wrapper).1) := by
  rw [← h.typings]
  exact d.getElem?_setTyping call wrapper moment

/-- The text is the only one whose end is waited for. -/
theorem of_setTyping (hsilent : Listener.of e.listeners .typingStop = []) (call : TypeCall)
    (wrapper : ElementId) (moment : Moment) :
    Listener.of (e.setTyping call wrapper moment).listeners .typingStop =
      [⟨.typingStop, some Builtin.typingNamespace, true, .nextTyping⟩] := by
  have hkept : Listener.of (Listener.off e.listeners (some .keydown) Builtin.typingNamespace)
      .typingStop = [] :=
    (Listener.of_off_of_ne e.listeners _ _ _ (by decide)).trans hsilent
  unfold setTyping
  rw [Listener.of_append, Listener.of_append, hkept]
  rfl

/-- The places in the content of an element are not kept when it is set aside. -/
theorem TwinPlaced.scene (h : TwinPlaced g job e d) (hspots : g.spots = ⟨o, w, []⟩ :: rest)
    (hcontent : (wrapper, w) ∈ g.contents) (hfree : ∀ slot ∈ g.free, slot.plain ≠ o) :
    (g.scene []).In e.tree d.tree ∧
      (g.scene []).spots = ⟨e.tree.content wrapper, d.tree.content wrapper, []⟩ :: rest ∧
      ∀ slot ∈ (g.scene []).slots, slot.plain ≠ e.tree.content wrapper := by
  obtain ⟨others, slots, -, hpair, -⟩ := h
  obtain ⟨ho, hw⟩ := hpair.content_eq (by rw [hspots]; exact List.mem_cons_self) hcontent
  refine ⟨?_, ?_, fun slot hslot => ?_⟩
  · exact hpair.scene.mono (.refl _) (.refl _) ((List.Sublist.refl _).append (List.nil_sublist _))
  · rw [ho, hw]
    exact hspots
  · rw [Progress.scene, List.append_nil] at hslot
    exact ho.symm ▸ hfree slot hslot

/-- The text is typed out. No other text has its turn before that is done. -/
theorem TwinPlaced.busy (h : TwinPlaced g job e d) (call : TypeCall) (moment : Moment)
    (hqueued : g.queued = [])
    (hspots : g.spots = ⟨o, w, []⟩ :: rest) (hcontent : (wrapper, w) ∈ g.contents)
    (hfree : ∀ slot ∈ g.free, slot.plain ≠ o) :
    Twin g (e.setTyping call wrapper moment) (d.setTyping call wrapper moment) := by
  obtain ⟨hscene, hspots, hslots⟩ := h.scene hspots hcontent hfree
  obtain ⟨others, slots, htexts, hpair, -, -⟩ := h
  have htrees := hpair.withTrees (.ofElement d.tree wrapper) rfl (fun _ hx => .inl hx)
    (hscene.setAside hspots hslots)
  refine ⟨[], htrees.retype ?_ hpair.typeQueue_eq (hpair.listeners_setTyping call wrapper moment)
    (fits_setTyping hpair.fits call wrapper moment), .inr ⟨?_, hqueued⟩⟩
  · simp [hpair.typings]
  · have hsame : (e.setTyping call wrapper moment).texts = e.texts := rfl
    rw [hsame, htexts]
    exact List.cons_ne_nil _ _

/-- A letter is typed in an element that both engines know, and timers are set. -/
theorem Twin.typeLetter (h : Twin g e d) (hspots : g.spots = ⟨o, w, []⟩ :: rest)
    (hcontent : (wrapper, w) ∈ g.contents) (letter : String) {typings typings' : Array Typing}
    (hsize : typings'.size = typings.size)
    (set : Clock (TimerAction Empty) → Clock (TimerAction Empty)) :
    Twin g
      { e with
        tree := e.tree.pushText (e.tree.content wrapper) letter
        typings := typings
        clock := set e.clock }
      { d with
        tree := d.tree.pushText (d.tree.content wrapper) letter
        typings := typings'
        clock := set d.clock } := by
  obtain ⟨ho, hw⟩ := h.content_eq (hspots ▸ List.mem_cons_self) hcontent
  rw [ho, hw]
  have hpushed : Twin g { e with tree := e.tree.pushText o letter }
      { d with tree := d.tree.pushText w letter } :=
    h.withTrees (.pushText _ _ _) rfl rfl (fun _ hx => .inl hx)
      fun _ hscene => hscene.pushText hspots letter
  have htimed := hpushed.change (f := fun e => { e with clock := set e.clock }) (fun _ _ => rfl)
    fun _ => ⟨rfl, rfl⟩
  exact htimed.retype hsize

/-- The text has no letters: its content is back, and it has left the queue. -/
theorem TwinPlaced.ending (h : TwinPlaced g job e d) {call : TypeCall} (hid : call.id = job.id)
    (wrapper : ElementId) (moment : Moment) {typings typings' : Array Typing} (hsize : typings'.size = typings.size) :
    TwinEnding g
      { e.setTyping call wrapper moment with
        tree := e.tree.newOutput.2
        typings := typings
        typeQueue := e.typeQueue.map (Builtin.textsAfter call.id) }
      { d.setTyping call wrapper moment with
        tree := d.tree.newOutput.2
        typings := typings'
        typeQueue := d.typeQueue.map (Builtin.textsAfter call.id) } := by
  obtain ⟨others, slots, htexts, hpair, hwaits, hsilent⟩ := h
  have htrees : Pair g slots { e with tree := e.tree.newOutput.2 } { d with tree := d.tree.newOutput.2 } :=
    hpair.withTrees (.newOutput d.tree) rfl (fun _ hx => .inl hx) hpair.scene.newOutput
  have hleft : (e.typeQueue.map (Builtin.textsAfter call.id)).getD [] = others := by
    rw [typeQueue_of_texts htexts]
    exact if_pos hid.symm
  refine ⟨slots, htrees.retype hsize ?_ (hpair.listeners_setTyping call wrapper moment)
    (fits_setTyping hpair.fits call wrapper moment), ?_, of_setTyping hsilent call wrapper moment⟩
  · rw [hpair.typeQueue_eq]
  · unfold texts
    rw [hleft]
    exact hwaits

end Engine

end StoryEngine
