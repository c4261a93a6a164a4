import StoryEngine.Proofs.Engine.Twin
/-!
# StoryEngine.Proofs.Engine.TwinWork

What twins do alike. Work that has nothing to do with what is displayed comes to the same, elements
are made and put in corresponding places, and a call writes into its debug view in the one engine
where it writes in the place of the call in the other (`Run.Mirror.target`). While a call is executed
it may have a debug view or not have one yet (`Engine.During`).
-/

namespace StoryEngine

variable {σ α β γ : Type} {g g₀ : Progress} {s : Spot} {rest : List Spot}
  {E : Engine Empty σ → Engine Empty σ → Prop}

open Engine Run

/-! ### Elements -/

/-- The same work while an element is filled that stands nowhere yet. Its content is a new spot. -/
def Progress.filling (g : Progress) (id : ElementId) (plain wrapped out : OutputId) : Progress :=
  { g with
    spots := ⟨plain, wrapped, []⟩ :: g.spots
    held := (id, out) :: g.held
    contents := (id, wrapped) :: g.contents }

/-- The same work while an element stands nowhere yet. -/
def Progress.holding (g : Progress) (id : ElementId) (out : OutputId) : Progress :=
  { g with held := (id, out) :: g.held }

namespace Progress

variable (g : Progress) (id : ElementId) (plain wrapped out : OutputId)

theorem le_holding : g.Le (g.holding id out) :=
  ⟨.refl _, List.sublist_cons_self _ _, List.Subset.refl _, .refl _, .refl _, List.prefix_refl _⟩

theorem holding_le_filling : (g.holding id out).Le (g.filling id plain wrapped out) :=
  ⟨List.sublist_cons_self _ _, .refl _, List.subset_cons_self _ _, .refl _, .refl _,
    List.prefix_refl _⟩

theorem le_filling : g.Le (g.filling id plain wrapped out) :=
  ⟨List.sublist_cons_self _ _, List.sublist_cons_self _ _, List.subset_cons_self _ _, .refl _,
    .refl _, List.prefix_refl _⟩

theorem le_free (slot : Slot) : g.Le { g with free := slot :: g.free } :=
  ⟨.refl _, .refl _, List.Subset.refl _, .refl _, List.sublist_cons_self _ _, List.prefix_refl _⟩

end Progress

namespace Engine

variable {e d : Engine Empty σ}

theorem Twin.elements_size (h : Twin g e d) : d.tree.elements.size = e.tree.elements.size := by
  obtain ⟨slots, hpair, -⟩ := h
  exact hpair.scene.elements_size

/-- Both engines get an element that stands nowhere yet. -/
theorem Twin.newElement (h : Twin g e d) {out : OutputId} (hmade : out.index < e.tree.outputs.size)
    (tag : String) :
    Twin (g.filling ⟨e.tree.elements.size⟩ ⟨e.tree.outputs.size⟩ ⟨d.tree.outputs.size⟩ out)
      { e with tree := (e.tree.newElement tag).2 } { d with tree := (d.tree.newElement tag).2 } := by
  have hsize := h.elements_size
  refine h.withTrees (.newElement d.tree tag) rfl rfl (fun x hx => ?_)
    fun slots hscene => hscene.newElement tag hmade
  rcases List.mem_cons.mp hx with rfl | hold
  · refine .inr ⟨?_, ?_⟩
    · rw [← hsize]
      exact Nat.lt_of_lt_of_eq (Nat.lt_succ_self _) (Array.size_push _).symm
    · have hnew : (d.tree.newElement tag).2.element? ⟨e.tree.elements.size⟩ =
          some { tag := tag, content := ⟨d.tree.outputs.size⟩ } := by
        rw [← hsize]
        exact Array.getElem?_push_size
      rw [Tree.content, hnew]
  · exact .inl hold

/-- An element that was held is put where both engines write. It may keep a place from then on. -/
theorem Twin.append {id : ElementId} (h : Twin (g.holding id s.plain) e d)
    (hspots : g.spots = s :: rest) :
    Twin { g with free := ⟨s.plain, s.wrapped, id⟩ :: g.free }
      { e with tree := e.tree.append s.plain (.element id) }
      { d with tree := d.tree.append s.wrapped (.element id) } :=
  h.withTrees (.append _ _ _) rfl rfl (fun _ hx => .inl hx)
    fun _ hscene => hscene.appendElement hspots rfl

/-- An element is made and put where both engines write. -/
theorem Twin.appendElement (h : Twin g e d) (hspots : g.spots = s :: rest) (tag : String) :
    Twin { g with free := ⟨s.plain, s.wrapped, ⟨e.tree.elements.size⟩⟩ :: g.free }
      { e with tree := (e.tree.appendElement s.plain tag).2 }
      { d with tree := (d.tree.appendElement s.wrapped tag).2 } := by
  have hsize := h.elements_size
  have hnew := h.newElement (h.made (s := s) (by simp [hspots])) tag
  have happend := (hnew.of_le (g.holding_le_filling _ _ _ _)).append hspots
  unfold Tree.appendElement
  dsimp only
  have hid : (d.tree.newElement tag).1 = ⟨e.tree.elements.size⟩ := congrArg ElementId.mk hsize
  rw [hid]
  exact happend

/-- Work that has nothing to do with what is displayed comes to the same. -/
theorem Twin.mirrorAt_shared (h : Twin g e d) {x : Run Empty σ α} (hx : x.Shared) (hle : g₀.Le g) :
    MirrorAt (Twin g₀) (fun a b e' d' => b = a ∧ x e = (.ok a, e') ∧ Twin g e' d') x x x e d := by
  obtain ⟨hd, htwin⟩ := h.shared hx
  have hreturned := hx.returned e
  rcases hxe : x e with ⟨r, e₁⟩
  rw [hxe] at hd htwin hreturned
  refine ⟨?_, .inl rfl, ?_⟩
  · rw [hxe, hd]
    match r, hreturned with
    | .ok a, _ => exact .ok ⟨rfl, rfl, htwin⟩
    | .error (.failure failure), _ => exact .fail failure (htwin.of_le hle)
    | .error .outOfFuel, hreturned => exact (hreturned rfl).elim
  · rw [hd]
    exact .refl _

end Engine

namespace Run.Mirror

/-! ### Work of any kind -/

/-- Work that has nothing to do with what is displayed comes to the same. -/
theorem shared {x : Run Empty σ α} (hx : x.Shared) (hle : g₀.Le g) :
    Mirror (Twin g₀) (Twin g) (Same (Twin g)) x x x :=
  fun _ _ h => (h.mirrorAt_shared hx hle).mono (fun _ _ hE => hE) fun _ _ _ _ hQ => ⟨hQ.1, hQ.2.2⟩

/-- Something is told of the engine that is the same in both. -/
theorem get {P : Engine Empty σ → Engine Empty σ → Prop} {Q : α → β → Engine Empty σ → Engine Empty σ → Prop}
    {f f' : Engine Empty σ → Run Empty σ α} {k : Engine Empty σ → Run Empty σ β}
    (hP : ∀ e d, P e d → d = e.dress d) (hk : ∀ e d, k (e.dress d) = k e)
    (h : ∀ e, Mirror E P Q (f e) (f' e) (k e)) :
    Mirror E P Q (MonadState.get >>= f) (MonadState.get >>= f') (MonadState.get >>= k) := by
  intro e d hPed
  refine .get ?_
  have hsame : k d = k e := (congrArg k (hP e d hPed)).trans (hk e d)
  rw [hsame]
  exact h e e d hPed

/-- A change is made in the end that has nothing to do with what is displayed. -/
theorem andFinally {P : Engine Empty σ → Engine Empty σ → Prop} {x x' y : Run Empty σ α}
    (h : Mirror (Twin g) P (Same (Twin g)) x x' y) {f : Engine Empty σ → Engine Empty σ}
    (hdress : ∀ e d, f (e.dress d) = (f e).dress d)
    (hkeeps : ∀ e, (f e).typeQueue = e.typeQueue ∧ (f e).listeners = e.listeners) :
    Mirror (Twin g) P (Same (Twin g)) (Run.andFinally x f) (Run.andFinally x' f)
      (Run.andFinally y f) := by
  intro e d hPed
  refine (h e d hPed).andFinally (fun d => ?_) (fun e d htwin => htwin.change hdress hkeeps)
    fun _ _ _ _ hQ => ⟨hQ.1, hQ.2.change hdress hkeeps⟩
  have htree := congrArg Engine.tree (hdress d d)
  exact htree

/-- Both displays change. -/
theorem withTree {change change' : Tree → α × Tree}
    {Q : α → α → Engine Empty σ → Engine Empty σ → Prop}
    (h : ∀ e d, Twin g e d → d.tree.Extends (change' d.tree).2 ∧
      Q (change e.tree).1 (change' d.tree).1 { e with tree := (change e.tree).2 }
        { d with tree := (change' d.tree).2 }) :
    Mirror E (Twin g) Q (Run.withTree change) (Run.withTree change) (Run.withTree change') := by
  intro e d htwin
  obtain ⟨hextend, hQ⟩ := h e d htwin
  exact ⟨.ok hQ, .inl rfl, hextend⟩

theorem changeTree {change change' : Tree → Tree} {P : Engine Empty σ → Engine Empty σ → Prop}
    (h : ∀ e d, Twin g e d → d.tree.Extends (change' d.tree) ∧
      P { e with tree := change e.tree } { d with tree := change' d.tree }) :
    Mirror E (Twin g) (Same P) (Run.changeTree change) (Run.changeTree change)
      (Run.changeTree change') := by
  intro e d htwin
  obtain ⟨hextend, hP⟩ := h e d htwin
  exact ⟨.ok ⟨rfl, hP⟩, .inl rfl, hextend⟩

/-- Elements are made to look different. -/
theorem decorate {change : Tree → Tree} (h : Tree.Decorates change) :
    Mirror E (Twin g) (Same (Twin g)) (Run.changeTree change) (Run.changeTree change)
      (Run.changeTree change) :=
  changeTree fun _ d htwin => ⟨h.extend d.tree, htwin.withTrees (h.extend d.tree)
    rfl rfl (fun _ hx => .inl hx) fun _ hscene => h.scene hscene⟩

theorem pushText (hspots : g.spots = s :: rest) (text : String) :
    Mirror E (Twin g) (Same (Twin g)) (Run.changeTree fun t => t.pushText s.plain text)
      (Run.changeTree fun t => t.pushText s.plain text)
      (Run.changeTree fun t => t.pushText s.wrapped text) :=
  changeTree fun _ d htwin => ⟨.pushText d.tree _ _, htwin.withTrees (.pushText d.tree _ _)
    rfl rfl (fun _ hx => .inl hx)
    fun _ hscene => hscene.pushText hspots text⟩

theorem showError (hspots : g.spots = s :: rest) (message source : String) :
    Mirror E (Twin g) (Same (Twin g)) (StoryEngine.showError s.plain message source)
      (StoryEngine.showError s.plain message source)
      (StoryEngine.showError s.wrapped message source) :=
  changeTree fun _ d htwin => ⟨.appendError d.tree _ _ _, htwin.withTrees
    (.appendError d.tree _ _ _) rfl rfl (fun _ hx => .inl hx)
    fun _ hscene => hscene.appendError hspots message source⟩

/-- An element is made that stands nowhere yet. -/
theorem newElement (hs : s ∈ g.spots) (tag : String) :
    Mirror E (Twin g) (fun a b e d => b = a ∧ ∃ o w, Twin (g.filling a o w s.plain) e d)
      (Run.withTree fun t => t.newElement tag) (Run.withTree fun t => t.newElement tag)
      (Run.withTree fun t => t.newElement tag) :=
  withTree fun _ d h => ⟨.newElement d.tree tag, congrArg ElementId.mk h.elements_size, _, _,
    h.newElement (h.made hs) tag⟩

/-- Something is done with the content of an element. -/
theorem content {o w : OutputId} {id : ElementId} (hspot : ⟨o, w, []⟩ ∈ g.spots)
    (hcontent : (id, w) ∈ g.contents) :
    Mirror E (Twin g) (fun a b e d => (a = o ∧ b = w) ∧ Twin g e d)
      (Run.fromTree fun t => t.content id) (Run.fromTree fun t => t.content id)
      (Run.fromTree fun t => t.content id) :=
  fun _ d h => ⟨.ok ⟨h.content_eq hspot hcontent, h⟩, .inl rfl, .refl d.tree⟩

/-- An element is made and put where both engines write. -/
theorem appendElement (hspots : g.spots = s :: rest) {out out' : Tree → OutputId}
    (hout : ∀ e d : Engine Empty σ, Twin g e d → out e.tree = s.plain ∧ out' d.tree = s.wrapped)
    (tag : String) :
    Mirror E (Twin g)
      (fun a b e d => b = a ∧ Twin { g with free := ⟨s.plain, s.wrapped, a⟩ :: g.free } e d)
      (Run.withTree fun t => t.appendElement (out t) tag)
      (Run.withTree fun t => t.appendElement (out t) tag)
      (Run.withTree fun t => t.appendElement (out' t) tag) := by
  refine withTree fun e d h => ?_
  obtain ⟨hplain, hwrapped⟩ := hout e d h
  rw [hplain, hwrapped]
  exact ⟨.appendElement d.tree _ tag, congrArg ElementId.mk h.elements_size,
    h.appendElement hspots tag⟩

/-- An element that was held is put where both engines write. It may keep a place from then on. -/
theorem append {id : ElementId} (hspots : g.spots = s :: rest) :
    Mirror E (Twin (g.holding id s.plain))
      (Same (Twin { g with free := ⟨s.plain, s.wrapped, id⟩ :: g.free }))
      (Run.changeTree fun t => t.append s.plain (.element id))
      (Run.changeTree fun t => t.append s.plain (.element id))
      (Run.changeTree fun t => t.append s.wrapped (.element id)) :=
  changeTree fun _ d h => ⟨.append d.tree _ _, h.append hspots⟩

end Run.Mirror

/-! ### Calls and their debug views -/

/-- The same work during a call, which stands at the innermost spot. If it has a debug view, what that
wraps is a new spot. -/
def Progress.within (g : Progress) (s : Spot) (id : Nat) (view? : Option (ViewId × OutputId)) :
    Progress :=
  { g with
    spots := (view?.map fun view => Spot.mk s.plain view.2 (s.wrapped :: s.up)).toList ++ g.spots
    views := (id, view?) :: g.views }

theorem Progress.le_within (g : Progress) (s : Spot) (id : Nat)
    (view? : Option (ViewId × OutputId)) : g.Le (g.within s id view?) :=
  ⟨List.sublist_append_right _ _, .refl _, List.Subset.refl _, List.sublist_cons_self _ _, .refl _,
    List.prefix_refl _⟩

namespace Engine

variable {call : MacroCall Empty} {e d : Engine Empty σ}

/-- The two engines are at the same work during a call, which may have a debug view by now. -/
def During (g : Progress) (s : Spot) (id : Nat) (e d : Engine Empty σ) : Prop :=
  ∃ view?, Twin (g.within s id view?) e d

theorem Twin.dressed (h : Twin g e d) : d = e.dress d := by
  obtain ⟨slots, hpair, -⟩ := h
  exact hpair.dressed

theorem During.dressed {id : Nat} (h : During g s id e d) : d = e.dress d := by
  obtain ⟨view?, h⟩ := h
  exact h.dressed

theorem During.twin {id : Nat} (h : During g s id e d) : Twin g e d := by
  obtain ⟨view?, h⟩ := h
  exact h.of_le (g.le_within s id view?)

/-- No call of the plain engine makes a debug view. -/
theorem Twin.isPlain (h : Twin g e d) (call : MacroCall Empty) : call.IsPlain e := by
  obtain ⟨slots, hpair, -⟩ := h
  unfold MacroCall.IsPlain
  cases hc : e.calls[call.id]? with
  | none => rfl
  | some c => exact hpair.noViews c (Array.mem_of_getElem? hc)

/-- The call gets a debug view, which may be another one than it has. -/
theorem During.createView_apply (h : During g s call.id e d) (hspots : g.spots = s :: rest)
    (name title : Option String) :
    ∃ d' view inside, (call.moved s.wrapped).createView name title d = (.ok view, d') ∧
      Twin (g.within s call.id (some (view, inside))) e d' ∧ d.tree.Extends d'.tree := by
  obtain ⟨view?, h⟩ := h
  have hbefore : Twin { g with views := (call.id, view?) :: g.views } e d :=
    h.of_le ⟨List.sublist_append_right _ _, .refl _, List.Subset.refl _, .refl _, .refl _,
      List.prefix_refl _⟩
  let made := d.tree.appendView s.wrapped "macro" (name.getD call.displayName)
    (title.getD call.source)
  have hmade : d.tree.Extends made.2 := .appendView d.tree _ _ _ _
  have hview : made.2.view? made.1 =
      some ⟨s.wrapped, ⟨d.tree.outputs.size⟩, "macro", _, _, []⟩ :=
    Tree.Written.view?_appendView d.tree s.wrapped _ _ _
  have hscene (slots : List Slot) (hscene : (g.scene slots).In e.tree d.tree) :=
    hscene.appendView hspots "macro" (name.getD call.displayName) (title.getD call.source)
  by_cases hvoid : call.payload.isEmpty
  · refine ⟨_, made.1, ⟨d.tree.outputs.size⟩, ?_, hbefore.setView hmade ⟨_, hview, rfl⟩ hscene, hmade⟩
    rw [MacroCall.createView]
    have hpayload : (call.moved s.wrapped).payload.isEmpty = true := hvoid
    simp only [hpayload]
    rfl
  · have hmodes := Tree.Extends.setModes made.2 made.1 [("nonvoid", true)]
    obtain ⟨v, hv, hinside⟩ := hmodes.views _ _ hview
    refine ⟨_, made.1, ⟨d.tree.outputs.size⟩, ?_, hbefore.setView (hmade.trans hmodes)
      ⟨v, hv, hinside⟩ fun slots hin => (hscene slots hin).setModes _ _, hmade.trans hmodes⟩
    rw [MacroCall.createView]
    have hpayload : (call.moved s.wrapped).payload.isEmpty = false := Bool.not_eq_true _ ▸ hvoid
    simp only [hpayload]
    rfl

/-- The call has a debug view by the time it needs one. -/
theorem During.view?_apply (h : During g s call.id e d) (hspots : g.spots = s :: rest) :
    ∃ d' view inside, (call.moved s.wrapped).view? d = (.ok (some view), d') ∧
      Twin (g.within s call.id (some (view, inside))) e d' ∧ d.tree.Extends d'.tree := by
  obtain ⟨view?, htwin⟩ := id h
  obtain ⟨slots, hpair, -⟩ := id htwin
  obtain ⟨c, hc, hdebug, hview, -⟩ := hpair.views _ List.mem_cons_self
  have hstate : (call.moved s.wrapped).state d = (.ok c, d) := by
    have happly : (call.moved s.wrapped).state d = (.ok (d.calls[call.id]?.getD {}), d) := rfl
    have hc : d.calls[call.id]? = some c := hc
    rw [happly, hc]
    rfl
  have hnot : ¬ (!c.isDebug) = true := by simp [hdebug]
  rw [MacroCall.view?, Run.bind_of_ok hstate, if_neg hnot, hview]
  cases view? with
  | some view => exact ⟨d, view.1, view.2, rfl, htwin, .refl _⟩
  | none =>
      obtain ⟨d', view, inside, hmake, htwin', hextend⟩ := h.createView_apply hspots none none
      exact ⟨d', view, inside, Run.bind_of_ok hmake, htwin', hextend⟩

end Engine

namespace Run.Mirror

variable {call : MacroCall Empty}

/-- Output goes to where the call stands, or into its debug view. -/
theorem target (hspots : g.spots = s :: rest) :
    Mirror E (During g s call.id)
      (fun a b e d => a = s.plain ∧ ∃ view, b = view.2 ∧ Twin (g.within s call.id (some view)) e d)
      (call.moved s.plain).target (call.moved s.plain).target (call.moved s.wrapped).target := by
  intro e d h
  obtain ⟨d', view, inside, hview, htwin, hextend⟩ := h.view?_apply hspots
  have hplain : (call.moved s.plain).target e = (.ok s.plain, e) := (h.twin.isPlain _).target_apply
  have hinside : d'.tree.inside view = inside := by
    obtain ⟨slots, hpair, -⟩ := id htwin
    obtain ⟨c, -, -, -, hinside⟩ := hpair.views _ List.mem_cons_self
    obtain ⟨v, hv, heq⟩ := hinside view inside rfl
    rw [Tree.inside, hv]
    exact heq
  have hwrapped : (call.moved s.wrapped).target d = (.ok inside, d') := by
    rw [MacroCall.target, bind_of_ok hview]
    exact congrArg (fun out => (Except.ok out, d')) hinside
  refine ⟨?_, .inl rfl, ?_⟩
  · rw [hplain, hwrapped]
    exact .ok ⟨rfl, (view, inside), rfl, htwin⟩
  · rw [hwrapped]
    exact hextend

/-- Modes of a debug view are seen in the one engine only. -/
theorem showModes (hspots : g.spots = s :: rest) (modes : List String) :
    Mirror E (During g s call.id) (Same (During g s call.id))
      ((call.moved s.plain).showModes modes) ((call.moved s.plain).showModes modes)
      ((call.moved s.wrapped).showModes modes) := by
  intro e d h
  obtain ⟨d', view, inside, hview, htwin, hextend⟩ := h.view?_apply hspots
  have hplain : (call.moved s.plain).showModes modes e = (.ok (), e) :=
    (h.twin.isPlain _).showModes_apply modes
  let switched := d'.tree.setModes view (modes.map fun mode => (mode, true))
  have hmodes : d'.tree.Extends switched := .setModes d'.tree view _
  have hwrapped : (call.moved s.wrapped).showModes modes d = (.ok (), { d' with tree := switched }) := by
    rw [MacroCall.showModes, bind_of_ok hview]
    rfl
  refine ⟨?_, .inl rfl, ?_⟩
  · rw [hplain, hwrapped]
    have hswitched : Twin (g.within s call.id (some (view, inside))) e { d' with tree := switched } :=
      htwin.withTrees hmodes rfl rfl (fun _ hx => .inl hx) fun _ hscene => hscene.setModes _ _
    exact .ok ⟨rfl, _, hswitched⟩
  · rw [hwrapped]
    exact hextend.trans hmodes

/-- An error is shown behind the debug view of the call, into which nothing is written any more. -/
theorem error (hspots : g.spots = s :: rest) (message : String) :
    Mirror E (During g s call.id) (Same (Twin g)) ((call.moved s.plain).error message)
      ((call.moved s.plain).error message) ((call.moved s.wrapped).error message) :=
  fun e d h => showError hspots _ _ e d h.twin

/-- What comes to the same at any work does so during a call. -/
theorem during {id : Nat} {x x' y : Run Empty σ α}
    (h : ∀ view?, Mirror E (Twin (g.within s id view?)) (Same (Twin (g.within s id view?))) x x' y) :
    Mirror E (During g s id) (Same (During g s id)) x x' y := by
  intro e d hduring
  obtain ⟨view?, htwin⟩ := hduring
  exact (h view? e d htwin).mono (fun _ _ hE => hE) fun _ _ _ _ hQ => ⟨hQ.1, view?, hQ.2⟩

/-- The call is left. -/
theorem leave {id : Nat} {P : Engine Empty σ → Engine Empty σ → Prop} {x x' y : Run Empty σ α}
    (h : Mirror E P (Same (During g s id)) x x' y) : Mirror E P (Same (Twin g)) x x' y :=
  h.mono fun _ _ _ _ hQ => ⟨hQ.1, hQ.2.twin⟩

/-- Less is relied on from then on. -/
theorem leave_le {P : Engine Empty σ → Engine Empty σ → Prop} {x x' y : Run Empty σ α}
    (hle : g₀.Le g) (h : Mirror E P (Same (Twin g)) x x' y) : Mirror E P (Same (Twin g₀)) x x' y :=
  h.mono fun _ _ _ _ hQ => ⟨hQ.1, hQ.2.of_le hle⟩

theorem sharedDuring {x : Run Empty σ α} (hx : x.Shared) (hle : g₀.Le g) (id : Nat) :
    Mirror (Twin g₀) (During g s id) (Same (During g s id)) x x x :=
  during fun view? => shared hx (hle.trans (g.le_within s id view?))

end Run.Mirror

/-- An element is made and put where the call writes. -/
theorem Run.Mirror.appendTarget {call : MacroCall Empty} (hspots : g.spots = s :: rest) (tag : String)
    {Q : α → β → Engine Empty σ → Engine Empty σ → Prop} {f f' : ElementId → Run Empty σ α}
    {k : ElementId → Run Empty σ β}
    (h : ∀ element, Mirror E (During g s call.id) Q (f element) (f' element) (k element)) :
    Mirror E (During g s call.id) Q
      ((call.moved s.plain).target >>= fun out =>
        Run.withTree (fun t => t.appendElement out tag) >>= f)
      ((call.moved s.plain).target >>= fun out =>
        Run.withTree (fun t => t.appendElement out tag) >>= f')
      ((call.moved s.wrapped).target >>= fun out =>
        Run.withTree (fun t => t.appendElement out tag) >>= k) := by
  refine (target hspots).bind fun a b e d htarget => ?_
  obtain ⟨rfl, view, rfl, htwin⟩ := htarget
  have hview : (g.within s call.id (some view)).spots =
    ⟨s.plain, view.2, s.wrapped :: s.up⟩ :: g.spots := rfl
  refine (appendElement hview (fun _ _ _ => ⟨rfl, rfl⟩) tag e d htwin).bind
    fun _ element e d htwin => ?_
  obtain ⟨rfl, htwin⟩ := htwin
  exact h element e d ⟨some view, htwin.of_le (Progress.le_free _ _)⟩

/-! ### Handlers -/

/-- The values that a handler remembers which is made in the context. -/
def Engine.captured (e : Engine Empty σ) (context : Context Empty) (hasCallback : Bool) : Overlay :=
  if hasCallback then
    let names := context.calls.foldl
      (fun names call => Names.insertAll names (e.calls[call.id]?.getD {}).shadows) []
    Entries.ofPairs (names.map fun name => (name, e.state.get? name))
  else []

theorem ShadowHandler.make_captured (context : Context Empty)
    (start callback done : Option (Callback Empty)) (e : Engine Empty σ) :
    ShadowHandler.make context start callback done e = (.ok ⟨e.handlers.size⟩, { e with
      handlers := e.handlers.push
        ⟨context, e.captured context callback.isSome, start, callback, done⟩ }) := by
  cases callback <;> rfl

/-- Calls shadow the same in both engines. -/
theorem Engine.Twin.shadows_eq {e d : Engine Empty σ} (h : Twin g e d) (id : Nat) :
    (d.calls[id]?.getD {}).shadows = (e.calls[id]?.getD {}).shadows := by
  obtain ⟨slots, hpair, -⟩ := h
  have hmap := congrArg (fun shadows : Array (List String) => shadows[id]?.getD []) hpair.shadows
  simp only [Array.getElem?_map] at hmap
  cases hd : d.calls[id]? <;> cases he : e.calls[id]? <;> simp_all

/-- Which values these are depends on what calls are called and shadow, not on where they stand. -/
theorem Engine.Twin.captured_eq {e d : Engine Empty σ} (h : Twin g e d)
    {context context' : Context Empty}
    (hidents : context'.calls.map MacroCall.ident = context.calls.map MacroCall.ident)
    (hasCallback : Bool) : d.captured context' hasCallback = e.captured context hasCallback := by
  have hnames (calls calls' : List (MacroCall Empty)) (names : List String)
      (hidents : calls'.map MacroCall.ident = calls.map MacroCall.ident) :
      calls'.foldl (fun names call =>
        Names.insertAll names (d.calls[call.id]?.getD {}).shadows) names =
      calls.foldl (fun names call =>
        Names.insertAll names (e.calls[call.id]?.getD {}).shadows) names := by
    induction calls generalizing calls' names with
    | nil =>
        rw [List.map_eq_nil_iff.mp hidents]
        rfl
    | cons call rest ih =>
        obtain ⟨call', rest', rfl, hcall, hrest⟩ := List.map_eq_cons_iff.mp hidents
        have hid : call'.id = call.id := congrArg Prod.fst hcall
        rw [List.foldl_cons, List.foldl_cons, hid, h.shadows_eq, ih rest' _ hrest]
  unfold Engine.captured
  rw [hnames _ _ [] hidents, h.state_eq]

/-- A handler is made in both engines. -/
theorem Run.Mirror.make (context context' : Context Empty)
    (start callback done : Option (Callback Empty)) :
    Mirror E (Twin g) (Same (Twin g)) (ShadowHandler.make context start callback done)
      (ShadowHandler.make context start callback done)
      (ShadowHandler.make context' start callback done) := by
  intro e d h
  obtain ⟨slots, hpair, -⟩ := id h
  refine ⟨?_, .inl rfl, ?_⟩
  · rw [ShadowHandler.make_captured, ShadowHandler.make_captured]
    exact .ok ⟨congrArg HandlerId.mk hpair.handlers, h.addHandler _ _⟩
  · rw [ShadowHandler.make_captured]
    exact .refl _

/-! ### Tasks -/

namespace Engine

/-- A text has come to its end, and the next one may have its turn. -/
def TwinEnding (g : Progress) (e d : Engine Empty σ) : Prop :=
  ∃ slots, Pair g slots e d ∧ List.Forall₂ (WaitsAt e d) e.texts slots ∧
    Listener.of e.listeners .typingStop =
      [⟨.typingStop, some Builtin.typingNamespace, true, .nextTyping⟩]

end Engine

/-- Twins do tasks alike. Only renders and the start of the queue are asked for by macros. -/
structure MirrorTasks (p p' q : Perform Empty σ) : Prop where
  render : ∀ {g : Progress} {s : Spot} {rest : List Spot} (source : String), g.spots = s :: rest →
    Mirror (Twin g) (Twin g) (Same (Twin g)) (p (.render s.plain source))
      (p' (.render s.plain source)) (q (.render s.wrapped source))
  start : ∀ {g : Progress}, g.queued = [] →
    Mirror (Twin g) (TwinCalm g) (Same (Twin g)) (p .startTyping) (p' .startTyping)
      (q .startTyping)
  invoke : ∀ {g : Progress} (job : TypeJob), g.queued = [] →
    Mirror (Twin g) (fun e d => TwinCalm g e d ∧ e.texts.head? = some job) (Same (Twin g))
      (p (.invoke job.handler .nothing)) (p' (.invoke job.handler .nothing))
      (q (.invoke job.handler .nothing))
  stop : ∀ {g : Progress}, g.queued = [] →
    Mirror (Twin g) (TwinEnding g) (Same (Twin g)) (p (.trigger .typingStop ""))
      (p' (.trigger .typingStop "")) (q (.trigger .typingStop ""))
  unheard : ∀ (event : Event) (e d : Engine Empty σ), event = .typingStart ∨ event = .typingComplete →
    (∀ l ∈ e.listeners, l.Fits) → (∀ l ∈ d.listeners, l.Fits) →
    MirrorAt (fun e' d' => e' = e ∧ d' = d) (fun _ _ e' d' => e' = e ∧ d' = d)
      (p (.trigger event "")) (p' (.trigger event "")) (q (.trigger event "")) e d

variable {p p' q : Perform Empty σ}

/-- Less may be relied on when a render fails. -/
theorem MirrorTasks.render_le (hp : MirrorTasks p p' q) (hle : g₀.Le g) (hspots : g.spots = s :: rest)
    (source : String) :
    Mirror (Twin g₀) (Twin g) (Same (Twin g)) (p (.render s.plain source))
      (p' (.render s.plain source)) (q (.render s.wrapped source)) :=
  fun e d h => (hp.render source hspots e d h).mono (fun _ _ hE => hE.of_le hle) fun _ _ _ _ hQ => hQ

/-- Something is rendered where the call writes. -/
theorem MirrorTasks.renderTarget (hp : MirrorTasks p p' q) (hspots : g.spots = s :: rest)
    (call : MacroCall Empty) (source : String) :
    Mirror (Twin g) (During g s call.id) (Same (During g s call.id))
      ((call.moved s.plain).target >>= fun out => p (.render out source))
      ((call.moved s.plain).target >>= fun out => p' (.render out source))
      ((call.moved s.wrapped).target >>= fun out => q (.render out source)) := by
  refine (Mirror.target hspots).bind fun a b e d h => ?_
  obtain ⟨rfl, view, rfl, htwin⟩ := h
  have hspots' : (g.within s call.id (some view)).spots =
      ⟨s.plain, view.2, s.wrapped :: s.up⟩ :: g.spots := rfl
  have hrender := hp.render_le (g.le_within s call.id (some view)) hspots' source
  exact (hrender e d htwin).mono (fun _ _ hE => hE) fun _ _ _ _ hQ => ⟨hQ.1, some view, hQ.2⟩

/-- The same, before other work. -/
theorem MirrorTasks.renderTarget_seq (hp : MirrorTasks p p' q) (hspots : g.spots = s :: rest)
    (call : MacroCall Empty) (source : String) {Q : α → β → Engine Empty σ → Engine Empty σ → Prop}
    {x x' : Run Empty σ α} {y : Run Empty σ β} (h : Mirror (Twin g) (During g s call.id) Q x x' y) :
    Mirror (Twin g) (During g s call.id) Q
      ((call.moved s.plain).target >>= fun out => p (.render out source) >>= fun _ => x)
      ((call.moved s.plain).target >>= fun out => p' (.render out source) >>= fun _ => x')
      ((call.moved s.wrapped).target >>= fun out => q (.render out source) >>= fun _ => y) := by
  have hboth := (hp.renderTarget hspots call source).seq fun _ => h
  rwa [bind_assoc, bind_assoc, bind_assoc] at hboth

end StoryEngine
