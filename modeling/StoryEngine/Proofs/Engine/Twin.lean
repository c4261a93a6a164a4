import StoryEngine.Proofs.Display.Opened
import StoryEngine.Proofs.Engine.Call
import StoryEngine.Proofs.Engine.Carried
import StoryEngine.Proofs.Engine.Dressed
import StoryEngine.Proofs.Engine.Mirror
/-!
# StoryEngine.Proofs.Engine.Twin

An engine beside one that shows debug views, both at the same work. They are equal but for what is
displayed and what knows where it is; the display of the one wraps that of the other. `Engine.Twin`
says so for work that is in progress: what this relies on, `Progress` lists.

Texts that wait to be typed out need their places kept in both displays. As long as no text is being
typed out they do (`Engine.Calm`); from then on none of them will have its turn before time passes
(`Engine.Busy`).
-/

namespace StoryEngine

variable {σ α β : Type}

/-! ### What twins have in common -/

/-- What tells calls apart, and what they are called. -/
def MacroCall.ident (call : MacroCall Empty) : Nat × String :=
  (call.id, call.name)

/-- The call, standing in another output. -/
def MacroCall.moved (call : MacroCall Empty) (out : OutputId) : MacroCall Empty :=
  { call with output := out }

namespace MacroCall

variable (call : MacroCall Empty) (out : OutputId)

@[simp] theorem moved_id : (call.moved out).id = call.id := rfl

@[simp] theorem moved_name : (call.moved out).name = call.name := rfl

@[simp] theorem moved_displayName : (call.moved out).displayName = call.displayName := rfl

@[simp] theorem moved_args : (call.moved out).args = call.args := rfl

@[simp] theorem moved_payload : (call.moved out).payload = call.payload := rfl

@[simp] theorem moved_source : (call.moved out).source = call.source := rfl

@[simp] theorem moved_contents : (call.moved out).contents = call.contents := rfl

end MacroCall

/-- What work in progress relies on. -/
structure Progress where
  /-- Where it writes, the innermost spot first. -/
  spots : List Spot := []
  /-- Elements that stand nowhere yet, and the outputs that they are meant for. -/
  held : List (ElementId × OutputId) := []
  /-- Elements with their contents in the display with debug views. -/
  contents : List (ElementId × OutputId) := []
  /-- The calls that are executed, with their debug views and what these wrap. -/
  views : List (Nat × Option (ViewId × OutputId)) := []
  /-- Places that are kept for texts that do not wait yet. -/
  free : List Slot := []
  /-- The first texts that wait, and what keeps their places. -/
  queued : List (TypeJob × Slot) := []

namespace Progress

/-- What is relied on in the displays. -/
def scene (g : Progress) (slots : List Slot) : Scene :=
  ⟨g.spots, g.held, g.free ++ slots⟩

/-- The second one relies on all that the first one relies on. -/
structure Le (g g' : Progress) : Prop where
  spots : g.spots.Sublist g'.spots
  held : g.held.Sublist g'.held
  contents : g.contents ⊆ g'.contents
  views : g.views.Sublist g'.views
  free : g.free.Sublist g'.free
  queued : g.queued <+: g'.queued

theorem Le.refl (g : Progress) : g.Le g :=
  ⟨.refl _, .refl _, List.Subset.refl _, .refl _, .refl _, List.prefix_refl _⟩

theorem Le.trans {g g₁ g' : Progress} (h : g.Le g₁) (h₁ : g₁.Le g') : g.Le g' :=
  ⟨h.spots.trans h₁.spots, h.held.trans h₁.held, List.Subset.trans h.contents h₁.contents,
    h.views.trans h₁.views, h.free.trans h₁.free, h.queued.trans h₁.queued⟩

end Progress

namespace Engine

/-- The call has the debug view. -/
def HasView (d : Engine Empty σ) (x : Nat × Option (ViewId × OutputId)) : Prop :=
  ∃ c, d.calls[x.1]? = some c ∧ c.isDebug = true ∧ c.view = x.2.map Prod.fst ∧
    ∀ v inside, x.2 = some (v, inside) → ∃ view, d.tree.view? v = some view ∧ view.inside = inside

/-- The text has a handler in both engines, and its place is kept. -/
def WaitsAt (e d : Engine Empty σ) (job : TypeJob) (slot : Slot) : Prop :=
  ∃ (context context' : Context Empty) (store : Overlay) (call : TypeCall),
    e.handlers[job.handler.index]? =
      some { context := context, store := store, callback := some (.typeBody call) } ∧
    d.handlers[job.handler.index]? = some
      { context := context', store := store
        callback := some (.typeBody { call with parent := slot.wrapped }) } ∧
    context'.calls.map MacroCall.ident = context.calls.map MacroCall.ident ∧
    call.id = job.id ∧ call.parent = slot.plain ∧ call.target = slot.target

/-- The two engines are at the same work, the second one with debug views. -/
structure Pair (g : Progress) (slots : List Slot) (e d : Engine Empty σ) : Prop where
  dressed : d = e.dress d
  plain : e.config.debug = false
  wrapped : d.config.debug = true
  fits : ∀ l ∈ e.listeners, l.Fits
  current : (callsOf d.current).map MacroCall.ident = (callsOf e.current).map MacroCall.ident
  shadows : d.calls.map CallState.shadows = e.calls.map CallState.shadows
  noViews : ∀ c ∈ e.calls, c.isDebug = false
  views : ∀ x ∈ g.views, d.HasView x
  apart : (g.views.map Prod.fst).Nodup
  contents : ∀ x ∈ g.contents, x.1.index < d.tree.elements.size ∧ d.tree.content x.1 = x.2
  handlers : d.handlers.size = e.handlers.size
  typings : d.typings.size = e.typings.size
  scene : (g.scene slots).In e.tree d.tree

/-- No text is being typed out, and those that wait have their places. -/
structure Calm (g : Progress) (slots : List Slot) (e d : Engine Empty σ) : Prop where
  waits : List.Forall₂ (WaitsAt e d) e.texts slots
  silent : Listener.of e.listeners .typingStop = []
  queued : g.queued <+: e.texts.zip slots

/-- A text is being typed out. -/
structure Busy (g : Progress) (e : Engine Empty σ) : Prop where
  waits : e.texts ≠ []
  queued : g.queued = []

/-- The two engines are at the same work, the second one with debug views, and the texts that wait
have their places if their turn may come. -/
def Twin (g : Progress) (e d : Engine Empty σ) : Prop :=
  ∃ slots, Pair g slots e d ∧ (Calm g slots e d ∨ Busy g e)

/-- The two engines are at the same work, and no text is being typed out. -/
def TwinCalm (g : Progress) (e d : Engine Empty σ) : Prop :=
  ∃ slots, Pair g slots e d ∧ Calm g slots e d

variable {g g' : Progress} {slots slots' : List Slot} {e e' d d' : Engine Empty σ}

/-! ### Less is relied on -/

theorem HasView.congr {x : Nat × Option (ViewId × OutputId)} (h : d.HasView x)
    (hcalls : d'.calls[x.1]? = d.calls[x.1]?) (hviews : d.tree.KeepsViews d'.tree) :
    d'.HasView x := by
  obtain ⟨c, hc, hdebug, hview, hinside⟩ := h
  refine ⟨c, hcalls.trans hc, hdebug, hview, fun v inside hx => ?_⟩
  obtain ⟨view, hv, heq⟩ := hinside v inside hx
  obtain ⟨view', hv', heq'⟩ := hviews v view hv
  exact ⟨view', hv', heq'.trans heq⟩

theorem Pair.of_le (h : Pair g' slots e d) (hle : g.Le g') : Pair g slots e d :=
  { h with
    views := fun x hx => h.views x (hle.views.subset hx)
    apart := h.apart.sublist (hle.views.map _)
    contents := fun x hx => h.contents x (hle.contents hx)
    scene := h.scene.mono hle.spots hle.held (hle.free.append (.refl _)) }

theorem Calm.of_le (h : Calm g' slots e d) (hle : g.Le g') : Calm g slots e d :=
  { h with queued := hle.queued.trans h.queued }

theorem Busy.of_le (h : Busy g' e) (hle : g.Le g') : Busy g e :=
  { h with queued := List.prefix_nil.mp (h.queued ▸ hle.queued) }

theorem Twin.of_le (h : Twin g' e d) (hle : g.Le g') : Twin g e d := by
  obtain ⟨slots, hpair, hqueue⟩ := h
  exact ⟨slots, hpair.of_le hle, hqueue.imp (·.of_le hle) (·.of_le hle)⟩

theorem TwinCalm.twin (h : TwinCalm g e d) : Twin g e d := by
  obtain ⟨slots, hpair, hcalm⟩ := h
  exact ⟨slots, hpair, .inl hcalm⟩

/-! ### The queue -/

theorem WaitsAt.congr {job : TypeJob} {slot : Slot} (h : WaitsAt e d job slot)
    (he : e'.handlers[job.handler.index]? = e.handlers[job.handler.index]?)
    (hd : d'.handlers[job.handler.index]? = d.handlers[job.handler.index]?) :
    WaitsAt e' d' job slot := by
  obtain ⟨context, context', store, call, hplain, hwrapped, hrest⟩ := h
  exact ⟨context, context', store, call, he.trans hplain, hd.trans hwrapped, hrest⟩

/-- The queue and those who wait for the end of a text matter, and the handlers of texts. -/
theorem Calm.congr (h : Calm g slots e d) (htexts : e'.texts = e.texts)
    (hsilent : Listener.of e.listeners .typingStop = [] →
      Listener.of e'.listeners .typingStop = [])
    (hwaits : ∀ job slot, WaitsAt e d job slot → WaitsAt e' d' job slot) :
    Calm g slots e' d' where
  waits := by
    rw [htexts]
    exact h.waits.imp fun job slot => hwaits job slot
  silent := hsilent h.silent
  queued := by
    rw [htexts]
    exact h.queued

/-- Neither the queue nor the handlers of texts change, and what work relies on is there still. -/
theorem Twin.congr (h : Twin g e d) (htexts : e'.texts = e.texts)
    (hsilent : Listener.of e.listeners .typingStop = [] →
      Listener.of e'.listeners .typingStop = [])
    (hwaits : ∀ job slot, WaitsAt e d job slot → WaitsAt e' d' job slot)
    (hqueued : g'.queued = g.queued) (hpair : ∀ slots, Pair g slots e d → Pair g' slots e' d') :
    Twin g' e' d' := by
  obtain ⟨slots, hold, hqueue⟩ := h
  refine ⟨slots, hpair slots hold, hqueue.imp (fun hcalm => ?_) fun hbusy => ?_⟩
  · exact { hcalm.congr htexts hsilent hwaits with
      queued := by
        rw [hqueued, htexts]
        exact hcalm.queued }
  · exact ⟨htexts ▸ hbusy.waits, hqueued.trans hbusy.queued⟩

/-- The handlers and the queue are what they were. -/
theorem Twin.same_queue (h : Twin g e d) (htexts : e'.typeQueue = e.typeQueue)
    (hlisteners : e'.listeners = e.listeners) (hplain : e'.handlers = e.handlers)
    (hwrapped : d'.handlers = d.handlers) (hqueued : g'.queued = g.queued)
    (hpair : ∀ slots, Pair g slots e d → Pair g' slots e' d') : Twin g' e' d' := by
  refine h.congr ?_ (fun hsilent => hlisteners ▸ hsilent) (fun job slot hwaits => ?_) hqueued hpair
  · unfold Engine.texts
    rw [htexts]
  · exact hwaits.congr (by rw [hplain]) (by rw [hwrapped])

/-! ### Shared work -/

theorem Pair.shared (h : Pair g slots e d) {x : Run Empty σ α} (hx : x.Shared) :
    x d = ((x e).1, (x e).2.dress d) ∧ Pair g slots (x e).2 ((x e).2.dress d) := by
  obtain ⟨hdebug, htree, hcurrent, hcalls, hhandlers, htypings⟩ := hx.undressed e
  have hd : x d = x (e.dress d) := congrArg x h.dressed
  refine ⟨hd.trans (hx.dressed e d), ?_⟩
  exact {
    dressed := rfl
    plain := hdebug.trans h.plain
    wrapped := h.wrapped
    fits := hx.fits e h.fits
    current := hcurrent ▸ h.current
    shadows := hcalls ▸ h.shadows
    noViews := hcalls ▸ h.noViews
    views := h.views
    apart := h.apart
    contents := h.contents
    handlers := hhandlers ▸ h.handlers
    typings := htypings ▸ h.typings
    scene := htree ▸ h.scene }

theorem Twin.shared (h : Twin g e d) {x : Run Empty σ α} (hx : x.Shared) :
    x d = ((x e).1, (x e).2.dress d) ∧ Twin g (x e).2 ((x e).2.dress d) := by
  obtain ⟨-, -, -, -, hhandlers, -⟩ := hx.undressed e
  refine ⟨?_, h.congr (hx.texts e) (hx.silent e) (fun job slot hwaits => ?_) rfl fun slots hpair =>
    (hpair.shared hx).2⟩
  · obtain ⟨slots, hpair, -⟩ := h
    exact (hpair.shared hx).1
  · exact hwaits.congr (by rw [hhandlers]) rfl

/-! ### What is displayed -/

theorem Pair.withTrees (h : Pair g slots e d) {t u : Tree} (hextend : d.tree.Extends u)
    (hviews : g'.views = g.views)
    (hcontents : ∀ x ∈ g'.contents, x ∈ g.contents ∨ x.1.index < u.elements.size ∧ u.content x.1 = x.2)
    (hscene : (g'.scene slots').In t u) :
    Pair g' slots' { e with tree := t } { d with tree := u } where
  dressed := congrArg (fun d : Engine Empty σ => { d with tree := u }) h.dressed
  plain := h.plain
  wrapped := h.wrapped
  fits := h.fits
  current := h.current
  shadows := h.shadows
  noViews := h.noViews
  views x hx := (h.views x (hviews ▸ hx)).congr rfl hextend.views
  apart := hviews ▸ h.apart
  contents x hx := by
    rcases hcontents x hx with hold | hnew
    · obtain ⟨hlt, hcontent⟩ := h.contents x hold
      exact ⟨Nat.lt_of_lt_of_le hlt hextend.elements_size, (hextend.content_eq hlt).trans hcontent⟩
    · exact hnew
  handlers := h.handlers
  typings := h.typings
  scene := hscene

theorem Twin.withTrees (h : Twin g e d) {t u : Tree} (hextend : d.tree.Extends u)
    (hviews : g'.views = g.views)
    (hqueued : g'.queued = g.queued)
    (hcontents : ∀ x ∈ g'.contents, x ∈ g.contents ∨ x.1.index < u.elements.size ∧ u.content x.1 = x.2)
    (hscene : ∀ slots, (g.scene slots).In e.tree d.tree → (g'.scene slots).In t u) :
    Twin g' { e with tree := t } { d with tree := u } :=
  h.same_queue rfl rfl rfl rfl hqueued fun slots hpair =>
    hpair.withTrees hextend hviews hcontents (hscene slots hpair.scene)

/-- The content of an element is known in both displays. -/
theorem Pair.content_eq (h : Pair g slots e d) {id : ElementId} {o w : OutputId}
    (hspot : ⟨o, w, []⟩ ∈ g.spots) (hcontent : (id, w) ∈ g.contents) :
    e.tree.content id = o ∧ d.tree.content id = w := by
  obtain ⟨hlt, hw⟩ := h.contents _ hcontent
  exact ⟨h.scene.content_eq hspot (h.scene.elements_size ▸ hlt) hw, hw⟩

theorem Twin.content_eq (h : Twin g e d) {id : ElementId} {o w : OutputId}
    (hspot : ⟨o, w, []⟩ ∈ g.spots) (hcontent : (id, w) ∈ g.contents) :
    e.tree.content id = o ∧ d.tree.content id = w := by
  obtain ⟨slots, hpair, -⟩ := h
  exact hpair.content_eq hspot hcontent

theorem Twin.made (h : Twin g e d) {s : Spot} (hs : s ∈ g.spots) :
    s.plain.index < e.tree.outputs.size := by
  obtain ⟨slots, hpair, -⟩ := h
  exact (hpair.scene.made hs).1

/-! ### Calls -/

/-- Another call is executed, or none. -/
theorem Twin.withCurrent (h : Twin g e d) {current current' : Option (Context Empty)}
    (hidents : (callsOf current').map MacroCall.ident = (callsOf current).map MacroCall.ident) :
    Twin g { e with current := current } { d with current := current' } := by
  refine h.same_queue rfl rfl rfl rfl rfl fun slots hpair => ?_
  exact { hpair with
    dressed := congrArg (fun d : Engine Empty σ => { d with current := current' }) hpair.dressed
    current := hidents }

theorem Twin.current_eq (h : Twin g e d) :
    (callsOf d.current).map MacroCall.ident = (callsOf e.current).map MacroCall.ident := by
  obtain ⟨slots, hpair, -⟩ := h
  exact hpair.current

theorem Twin.calls_size (h : Twin g e d) : d.calls.size = e.calls.size := by
  obtain ⟨slots, hpair, -⟩ := h
  have hsize := congrArg Array.size hpair.shadows
  rwa [Array.size_map, Array.size_map] at hsize

/-- Both engines get a call, which has no debug view yet. -/
theorem Twin.addCall (h : Twin g e d) :
    Twin { g with views := (e.calls.size, none) :: g.views } e.addCall d.addCall := by
  have hsize := h.calls_size
  refine h.same_queue rfl rfl rfl rfl rfl fun slots hpair => ?_
  have hnew : d.addCall.calls[d.calls.size]? = some { isDebug := d.config.debug } :=
    Array.getElem?_push_size
  exact { hpair with
    dressed := congrArg Engine.addCall hpair.dressed
    shadows := by
      rw [Engine.addCall, Engine.addCall, Array.map_push, Array.map_push, hpair.shadows]
    noViews := by
      intro c hc
      rcases Array.mem_push.mp hc with hold | hnew
      · exact hpair.noViews c hold
      · rw [hnew]
        exact hpair.plain
    views := by
      intro x hx
      rcases List.mem_cons.mp hx with rfl | hx
      · exact ⟨_, hsize ▸ hnew, hpair.wrapped, rfl, nofun⟩
      · obtain ⟨c, hc, -⟩ := hpair.views x hx
        have hlt : x.1 < d.calls.size := (Array.getElem?_eq_some_iff.mp hc).1
        refine (hpair.views x hx).congr ?_ fun _ v hview => ⟨v, hview, rfl⟩
        rw [Engine.addCall, Array.getElem?_push, if_neg (Nat.ne_of_lt hlt)]
    apart := by
      refine List.nodup_cons.mpr ⟨fun hmem => ?_, hpair.apart⟩
      obtain ⟨x, hx, hid⟩ := List.mem_map.mp hmem
      obtain ⟨c, hc, -⟩ := hpair.views x hx
      have hlt : x.1 < d.calls.size := (Array.getElem?_eq_some_iff.mp hc).1
      omega }

/-- Both engines change what their calls shadow. -/
theorem Twin.modifyShadows (h : Twin g e d) (id : Nat) (change : List String → List String) :
    Twin g
      { e with calls := e.calls.modify id fun s => { s with shadows := change s.shadows } }
      { d with calls := d.calls.modify id fun s => { s with shadows := change s.shadows } } := by
  have hmap (calls : Array CallState) :
      (calls.modify id fun s => { s with shadows := change s.shadows }).map CallState.shadows =
        (calls.map CallState.shadows).modify id change := by
    refine Array.ext_getElem? fun i => ?_
    simp only [Array.getElem?_map, Array.getElem?_modify]
    split <;> simp [Option.map_map, Function.comp_def]
  refine h.same_queue rfl rfl rfl rfl rfl fun slots hpair => ?_
  exact { hpair with
    dressed := congrArg (fun d : Engine Empty σ => { d with
      calls := d.calls.modify id fun s => { s with shadows := change s.shadows } }) hpair.dressed
    shadows := by rw [hmap, hmap, hpair.shadows]
    noViews := by
      intro c hc
      obtain ⟨i, hi, rfl⟩ := Array.mem_iff_getElem.mp hc
      rw [Array.size_modify] at hi
      have hmem := hpair.noViews _ (Array.getElem_mem hi)
      rw [Array.getElem_modify]
      split <;> exact hmem
    views := by
      intro x hx
      obtain ⟨c, hc, hdebug, hview, hinside⟩ := hpair.views x hx
      simp only [HasView, Array.getElem?_modify, hc]
      split
      · exact ⟨_, rfl, hdebug, hview, hinside⟩
      · exact ⟨c, rfl, hdebug, hview, hinside⟩ }

/-- A debug view is made for the call that is executed. -/
theorem Twin.setView {id : Nat} {view? : Option (ViewId × OutputId)}
    (h : Twin { g with views := (id, view?) :: g.views } e d) {u : Tree} {view : ViewId}
    {inside : OutputId} {spots : List Spot} (hextend : d.tree.Extends u)
    (hview : ∃ v, u.view? view = some v ∧ v.inside = inside)
    (hscene : ∀ slots, (g.scene slots).In e.tree d.tree →
      (Progress.scene { g with spots := spots } slots).In e.tree u) :
    Twin { g with spots := spots, views := (id, some (view, inside)) :: g.views } e { d with
      tree := u
      calls := d.calls.modify id fun s => { s with view := some view, isDebug := true } } := by
  refine h.same_queue rfl rfl rfl rfl rfl fun slots hpair => ?_
  have htree : Pair { g with spots := spots, views := (id, view?) :: g.views } slots e
      { d with tree := u } :=
    hpair.withTrees hextend rfl (fun x hx => .inl hx) (hscene slots hpair.scene)
  exact { htree with
    dressed := congrArg (fun d : Engine Empty σ => { d with
      tree := u
      calls := d.calls.modify id fun s => { s with view := some view, isDebug := true } })
      hpair.dressed
    shadows := by
      rw [← hpair.shadows]
      refine Array.ext_getElem? fun i => ?_
      simp only [Array.getElem?_map, Array.getElem?_modify]
      split <;> simp [Option.map_map, Function.comp_def]
    views := by
      intro x hx
      rcases List.mem_cons.mp hx with rfl | hx
      · obtain ⟨c, hc, -⟩ := hpair.views _ List.mem_cons_self
        have hc : d.calls[id]? = some c := hc
        simp only [HasView, Array.getElem?_modify, hc]
        refine ⟨_, rfl, rfl, rfl, fun v inside' hsome => ?_⟩
        cases hsome
        exact hview
      · have hne : id ≠ x.1 := fun heq =>
          (List.nodup_cons.mp hpair.apart).1 (List.mem_map.mpr ⟨x, hx, heq.symm⟩)
        refine (htree.views x (List.mem_cons_of_mem _ hx)).congr ?_ fun _ v hv => ⟨v, hv, rfl⟩
        simp only [Array.getElem?_modify, if_neg hne]
    apart := hpair.apart }

/-! ### Handlers -/

/-- Both engines get a handler. -/
theorem Twin.addHandler (h : Twin g e d) (handler handler' : ShadowHandler Empty) :
    Twin g { e with handlers := e.handlers.push handler }
      { d with handlers := d.handlers.push handler' } := by
  refine h.congr rfl (fun hsilent => hsilent) (fun job slot hwaits => ?_) rfl fun slots hpair => ?_
  · obtain ⟨context, context', store, call, hplain, hwrapped, hrest⟩ := hwaits
    have hlt : job.handler.index < e.handlers.size := (Array.getElem?_eq_some_iff.mp hplain).1
    have hlt' : job.handler.index < d.handlers.size := (Array.getElem?_eq_some_iff.mp hwrapped).1
    refine ⟨context, context', store, call, ?_, ?_, hrest⟩
    · rw [Array.getElem?_push, if_neg (Nat.ne_of_lt hlt), hplain]
    · rw [Array.getElem?_push, if_neg (Nat.ne_of_lt hlt'), hwrapped]
  · exact { hpair with
      dressed := congrArg (fun d : Engine Empty σ => { d with handlers := d.handlers.push handler' })
        hpair.dressed
      handlers := by simp [hpair.handlers] }

/-- The values that a handler remembers become others in both engines, or stay what they are. -/
theorem Twin.modifyStore (h : Twin g e d) (index : Nat) (change : Overlay → Overlay) :
    Twin g
      { e with handlers := e.handlers.modify index fun h => { h with store := change h.store } }
      { d with handlers := d.handlers.modify index fun h => { h with store := change h.store } } := by
  refine h.congr rfl (fun hsilent => hsilent) (fun job slot hwaits => ?_) rfl fun slots hpair => ?_
  · obtain ⟨context, context', store, call, hplain, hwrapped, hrest⟩ := hwaits
    simp only [WaitsAt, Array.getElem?_modify, hplain, hwrapped]
    split
    · exact ⟨context, context', change store, call, rfl, rfl, hrest⟩
    · exact ⟨context, context', store, call, rfl, rfl, hrest⟩
  · exact { hpair with
      dressed := congrArg (fun d : Engine Empty σ => { d with
        handlers := d.handlers.modify index fun h => { h with store := change h.store } })
        hpair.dressed
      handlers := by simp [hpair.handlers] }

/-- How a handler's callback is left depends on the variables only. -/
theorem leaveShadow_eq_modify (s : State) (id : HandlerId) (depth : Nat) :
    ∃ (state : State) (change : Overlay → Overlay), ∀ (e : Engine Empty σ) previous, e.state = s →
      e.leaveShadow id depth previous =
        { e with
          current := previous
          state := state
          handlers := e.handlers.modify id.index fun h => { h with store := change h.store } } := by
  have hkept (e : Engine Empty σ) : e.handlers.modify id.index (fun h => { h with store := h.store }) =
      e.handlers := by
    refine Array.ext_getElem? fun i => ?_
    rw [Array.getElem?_modify]
    split <;> simp
  by_cases hdepth : depth < (s.dropOverlays (depth + 1)).overlays.length
  · rcases hpop : (s.dropOverlays (depth + 1)).pop with ⟨_ | overlay, state⟩
    · refine ⟨state, fun store => store, fun e previous he => ?_⟩
      subst he
      unfold leaveShadow
      dsimp only
      rw [if_pos hdepth, hkept, hpop]
    · refine ⟨state, fun _ => overlay, fun e previous he => ?_⟩
      subst he
      unfold leaveShadow
      dsimp only
      rw [if_pos hdepth, hpop]
  · refine ⟨s.dropOverlays (depth + 1), fun store => store, fun e previous he => ?_⟩
    subst he
    unfold leaveShadow
    dsimp only
    rw [if_neg hdepth, hkept]

/-- Both engines change in a way that has nothing to do with what is displayed. -/
theorem Twin.change (h : Twin g e d) {f : Engine Empty σ → Engine Empty σ}
    (hdress : ∀ e d, f (e.dress d) = (f e).dress d)
    (hkeeps : ∀ e, (f e).typeQueue = e.typeQueue ∧ (f e).listeners = e.listeners) :
    Twin g (f e) (f d) := by
  obtain ⟨hd, htwin⟩ := h.shared (Run.Shared.modify hdress hkeeps)
  have heq : f d = (f e).dress d := congrArg Prod.snd hd
  rw [heq]
  exact htwin

theorem Twin.state_eq (h : Twin g e d) : d.state = e.state := by
  obtain ⟨slots, hpair, -⟩ := h
  rw [hpair.dressed]
  rfl

/-- The callbacks of the same handler are left. -/
theorem Twin.leaveShadow (h : Twin g e d) (id : HandlerId) (depth : Nat)
    {previous previous' : Option (Context Empty)}
    (hidents : (callsOf previous').map MacroCall.ident = (callsOf previous).map MacroCall.ident) :
    Twin g (e.leaveShadow id depth previous) (d.leaveShadow id depth previous') := by
  obtain ⟨state, change, hleave⟩ := leaveShadow_eq_modify (σ := σ) e.state id depth
  rw [hleave e previous rfl, hleave d previous' h.state_eq]
  have hstate : Twin g { e with state := state } { d with state := state } :=
    h.change (f := fun e => { e with state := state }) (fun _ _ => rfl) fun _ => ⟨rfl, rfl⟩
  exact (hstate.withCurrent hidents).modifyStore id.index change

/-! ### Texts -/

/-- If no text waits, none is being typed out. -/
theorem Twin.calm (h : Twin g e d) (htexts : e.texts = []) : TwinCalm g e d := by
  obtain ⟨slots, hpair, hcalm | hbusy⟩ := h
  · exact ⟨slots, hpair, hcalm⟩
  · exact (hbusy.waits htexts).elim

/-- The engine with a text at the end of the queue. -/
def enqueue (e : Engine Empty σ) (context : Context Empty) (store : Overlay) (call : TypeCall) :
    Engine Empty σ :=
  { e with
    nextTypeId := e.nextTypeId + 1
    handlers := e.handlers.push
      { context := context, store := store, callback := some (.typeBody call) }
    typeQueue := some (e.texts ++ [⟨e.nextTypeId, ⟨e.handlers.size⟩⟩]) }

section Enqueue

variable {slot : Slot} {context context' : Context Empty} {call : TypeCall}

theorem Pair.enqueue (h : Pair { g with free := slot :: g.free } slots e d)
    (context context' : Context Empty) (store : Overlay) (call call' : TypeCall) :
    Pair g (slots ++ [slot]) (e.enqueue context store call) (d.enqueue context' store call') := by
  have hqueue : d.typeQueue = e.typeQueue := by
    rw [h.dressed]
    rfl
  have hnext : d.nextTypeId = e.nextTypeId := by
    rw [h.dressed]
    rfl
  have hdressed : d.enqueue context' store call' = { d with
      nextTypeId := e.nextTypeId + 1
      handlers := d.handlers.push
        { context := context', store := store, callback := some (.typeBody call') }
      typeQueue := some (e.texts ++ [⟨e.nextTypeId, ⟨e.handlers.size⟩⟩]) } := by
    unfold Engine.enqueue Engine.texts
    rw [hqueue, hnext, h.handlers]
  exact { h with
    dressed := hdressed.trans (congrArg (fun d' : Engine Empty σ => { d' with
      nextTypeId := e.nextTypeId + 1
      handlers := d.handlers.push
        { context := context', store := store, callback := some (.typeBody call') }
      typeQueue := some (e.texts ++ [TypeJob.mk e.nextTypeId ⟨e.handlers.size⟩]) }) h.dressed)
    handlers := by simp [Engine.enqueue, h.handlers]
    scene := by
      refine h.scene.perm ?_
      rw [← List.append_assoc]
      exact List.perm_append_singleton slot _ }

theorem Calm.enqueue (h : Calm g slots e d) (hsize : d.handlers.size = e.handlers.size)
    (store : Overlay)
    (hidents : context'.calls.map MacroCall.ident = context.calls.map MacroCall.ident)
    (hid : call.id = e.nextTypeId) (hparent : call.parent = slot.plain) (htarget : call.target = slot.target) :
    Calm g (slots ++ [slot]) (e.enqueue context store call)
      (d.enqueue context' store { call with parent := slot.wrapped }) where
  waits := by
    have hnew : WaitsAt (e.enqueue context store call)
        (d.enqueue context' store { call with parent := slot.wrapped })
        ⟨e.nextTypeId, ⟨e.handlers.size⟩⟩ slot := by
      refine ⟨context, context', store, call, Array.getElem?_push_size, ?_, hidents, hid, hparent,
        htarget⟩
      rw [← hsize]
      exact Array.getElem?_push_size
    refine List.rel_append (h.waits.imp fun job slot hwaits => ?_) (.cons hnew .nil)
    obtain ⟨context₁, context₁', store₁, call₁, hplain, hwrapped, hrest⟩ := hwaits
    have hlt : job.handler.index < e.handlers.size := (Array.getElem?_eq_some_iff.mp hplain).1
    have hlt' : job.handler.index < d.handlers.size := (Array.getElem?_eq_some_iff.mp hwrapped).1
    refine ⟨context₁, context₁', store₁, call₁, ?_, ?_, hrest⟩
    · rw [Engine.enqueue, Array.getElem?_push, if_neg (Nat.ne_of_lt hlt), hplain]
    · rw [Engine.enqueue, Array.getElem?_push, if_neg (Nat.ne_of_lt hlt'), hwrapped]
  silent := h.silent
  queued := by
    have htexts : (e.enqueue context store call).texts =
      e.texts ++ [⟨e.nextTypeId, ⟨e.handlers.size⟩⟩] := rfl
    rw [htexts, List.zip_append h.waits.length_eq]
    exact h.queued.trans (List.prefix_append _ _)

theorem TwinCalm.enqueue (h : TwinCalm { g with free := slot :: g.free } e d) (store : Overlay)
    (hidents : context'.calls.map MacroCall.ident = context.calls.map MacroCall.ident)
    (hid : call.id = e.nextTypeId) (hparent : call.parent = slot.plain) (htarget : call.target = slot.target) :
    TwinCalm g (e.enqueue context store call)
      (d.enqueue context' store { call with parent := slot.wrapped }) := by
  obtain ⟨slots, hpair, hcalm⟩ := h
  have hcalm : Calm g slots e d := { hcalm with }
  exact ⟨_, hpair.enqueue .., hcalm.enqueue hpair.handlers store hidents hid hparent htarget⟩

/-- A text whose place is kept is put at the end of the queue. -/
theorem Twin.enqueue (h : Twin { g with free := slot :: g.free } e d) (store : Overlay)
    (hidents : context'.calls.map MacroCall.ident = context.calls.map MacroCall.ident)
    (hid : call.id = e.nextTypeId) (hparent : call.parent = slot.plain) (htarget : call.target = slot.target) :
    Twin g (e.enqueue context store call)
      (d.enqueue context' store { call with parent := slot.wrapped }) := by
  obtain ⟨slots, hpair, hcalm | hbusy⟩ := h
  · exact (TwinCalm.enqueue ⟨slots, hpair, hcalm⟩ store hidents hid hparent htarget).twin
  · refine ⟨_, hpair.enqueue .., .inr ⟨fun hnil => ?_, hbusy.queued⟩⟩
    have htexts : (e.enqueue context store call).texts =
      e.texts ++ [⟨e.nextTypeId, ⟨e.handlers.size⟩⟩] := rfl
    rw [htexts] at hnil
    exact List.append_ne_nil_of_right_ne_nil _ (List.cons_ne_nil _ _) hnil

end Enqueue

end Engine

end StoryEngine
