import StoryEngine.Proofs.Engine.Carried
/-!
# StoryEngine.Proofs.Engine.Lasting

What lasts of an engine, however it is played on (`Engine.Lasts`): chains and texts keep their
moments, texts also the places where their content is, and a timer that is pending later with an
identity of before was pending before, for the same action. Identities of timers are not used
twice.

What is put off is also *dated* (`Engine.Dated`): it belongs to the present turn or to an earlier
one, and what it is about is there. Both hold by the same induction as everything that work keeps.
-/

namespace StoryEngine

variable {σ : Type}

/-! ### What lasts -/

/-- What of an engine is still so later on. -/
structure Engine.Lasts (e e' : Engine Empty σ) : Prop where
  display : e'.display = e.display
  chains (index : Nat) (k : TimedChain) : e.chains[index]? = some k →
    ∃ k', e'.chains[index]? = some k' ∧ k'.moment = k.moment
  typings (index : Nat) (t : Typing) : e.typings[index]? = some t →
    ∃ t', e'.typings[index]? = some t' ∧ t'.origin = t.origin
  nextId : e.clock.nextId ≤ e'.clock.nextId
  timers : ∀ timer' ∈ e'.clock.timers, timer'.id < e.clock.nextId → ∃ timer ∈ e.clock.timers,
    timer'.id = timer.id ∧ timer'.period = timer.period ∧ timer'.action = timer.action

theorem getElem?_push_of_some {α : Type} {xs : Array α} {index : Nat} {a : α}
    (h : xs[index]? = some a) (b : α) : (xs.push b)[index]? = some a := by
  have hlt : index < xs.size := (Array.getElem?_eq_some_iff.mp h).1
  rw [Array.getElem?_push, if_neg (Nat.ne_of_lt hlt)]
  exact h

namespace Engine.Lasts

variable {e e₁ e' : Engine Empty σ} {place : Place}

/-- Only what is displayed and put off matters. -/
theorem of_dated (h : e'.dated = e.dated) : e.Lasts e' := by
  simp only [Engine.dated, Prod.mk.injEq] at h
  obtain ⟨⟨-, hdisplay⟩, -, -, -, -, hchains, htypings, hclock⟩ := h
  refine ⟨hdisplay, fun index k hk => ⟨k, hchains ▸ hk, rfl⟩,
    fun index t ht => ⟨t, htypings ▸ ht, rfl⟩, Nat.le_of_eq (by rw [hclock]), ?_⟩
  intro timer htimer _
  exact ⟨timer, hclock ▸ htimer, rfl, rfl, rfl⟩

theorem refl (e : Engine Empty σ) : e.Lasts e :=
  of_dated rfl

theorem trans (h : e.Lasts e₁) (h₁ : e₁.Lasts e') : e.Lasts e' where
  display := h₁.display.trans h.display
  chains index k hk := by
    obtain ⟨k₁, hk₁, hmoment₁⟩ := h.chains index k hk
    obtain ⟨k', hk', hmoment⟩ := h₁.chains index k₁ hk₁
    exact ⟨k', hk', hmoment.trans hmoment₁⟩
  typings index t ht := by
    obtain ⟨t₁, ht₁, horigin₁⟩ := h.typings index t ht
    obtain ⟨t', ht', horigin⟩ := h₁.typings index t₁ ht₁
    exact ⟨t', ht', horigin.trans horigin₁⟩
  nextId := Nat.le_trans h.nextId h₁.nextId
  timers timer' htimer' hlt := by
    obtain ⟨timer₁, htimer₁, hid₁, hperiod₁, haction₁⟩ :=
      h₁.timers timer' htimer' (Nat.lt_of_lt_of_le hlt h.nextId)
    obtain ⟨timer, htimer, hid, hperiod, haction⟩ := h.timers timer₁ htimer₁ (hid₁ ▸ hlt)
    exact ⟨timer, htimer, hid₁.trans hid, hperiod₁.trans hperiod, haction₁.trans haction⟩

/-- The clock only loses timers. -/
theorem of_clock {clock : Clock (TimerAction Empty)} (h : e.clock.Lasts clock) :
    e.Lasts { e with clock := clock } :=
  { refl e with
    nextId := Nat.le_of_eq h.nextId.symm
    timers := fun timer' htimer' _ => h.timers timer' htimer' }

theorem ofChange (h : Change place e e') : e.Lasts e' := by
  cases h with
  | chain k h hhandler hnow _ =>
      exact { refl e with chains := fun index old hold => ⟨old, getElem?_push_of_some hold k, rfl⟩ }
  | chainItems index items _ =>
      refine { refl e with chains := fun other k hk => ?_ }
      show ∃ k', (e.chains.modify index fun k => { k with items := items })[other]? = some k' ∧ _
      rw [Array.getElem?_modify, hk]
      split
      · exact ⟨_, rfl, rfl⟩
      · exact ⟨k, rfl, rfl⟩
  | typing tree t h hwrapper hfull hthere hnow =>
      exact { refl e with
        typings := fun index old hold => ⟨old, getElem?_push_of_some hold t, rfl⟩ }
  | retype index change h =>
      refine { refl e with typings := fun other t ht => ?_ }
      show ∃ t', (e.typings.modify index change)[other]? = some t' ∧ _
      rw [Array.getElem?_modify, ht]
      split
      · rename_i hindex
        exact ⟨_, rfl, h t (hindex ▸ ht)⟩
      · exact ⟨t, rfl, rfl⟩
  | timer delay period action h _ =>
      refine { refl e with nextId := Nat.le_succ _, timers := fun timer' htimer' hlt => ?_ }
      rcases List.mem_append.mp htimer' with hold | hnew
      · exact ⟨timer', hold, rfl, rfl, rfl⟩
      · rw [List.mem_singleton.mp hnew] at hlt
        exact (Nat.lt_irrefl _ hlt).elim
  | clock clock h => exact of_clock h
  | _ => exact { refl e with }

theorem ofMove (h : Move e e') : e.Lasts e' := by
  cases h <;> exact { refl e with }

theorem leaveShadow {h : ShadowHandler Empty} (hinner : (e.enterShadow h).Lasts e')
    (id : HandlerId) (depth : Nat) (previous : Option (Context Empty)) :
    e.Lasts (e'.leaveShadow id depth previous) :=
  trans { hinner with } (of_dated (e'.leaveShadow_dated id depth previous).2.2)

/-- All work leaves what lasts. -/
theorem carried : @Carried σ (fun _ => Engine.Lasts) (fun _ _ => True) where
  refl _ := refl
  trans := trans
  change := ofChange
  move := ofMove
  forget := id
  call _ _ h := { h with }
  overlay _ h := { h with }
  deeper _ h := { h with }
  tick _ h := { h with }
  shown h := { h with }
  shadow _ _ hfirst _ h := hfirst.trans (leaveShadow h _ _ _)
  due _ := trivial
  ticking _ := trivial

end Engine.Lasts

/-! ### What is dated -/

/-- What the timer is set for belongs to the present turn or to an earlier one, and is there. -/
def Engine.Knows (e : Engine Empty σ) : TimerAction Empty → Prop
  | .repeatTick _ moment => moment.turn ≤ e.state.turns
  | .timedStep chain => chain < e.chains.size
  | .settle element _ => element.index < e.tree.elements.size
  | .beginTyping typing => typing < e.typings.size
  | .typeLetter typing => typing < e.typings.size
  | .host procedure => procedure.elim

/-- The timer fires more than once. -/
def TimerAction.IsRepeated : TimerAction Empty → Prop
  | .repeatTick _ _ => True
  | .typeLetter _ => True
  | _ => False

/-- The output was made, and not for the passages. -/
def Engine.IsApart (e : Engine Empty σ) (out : OutputId) : Prop :=
  out.index < e.tree.outputs.size ∧ out ≠ e.display

/-- What is put off belongs to the present turn or to an earlier one, and what it is about is
there. Elements have their content apart from where the passages are. -/
structure Engine.Dated (e : Engine Empty σ) : Prop where
  display : e.display.index < e.tree.outputs.size
  content (id : ElementId) (el : Element) : e.tree.element? id = some el → e.IsApart el.content
  clickables : ∀ k ∈ e.clickables, k.element.index < e.tree.elements.size
  chains : ∀ k ∈ e.chains, k.moment.turn ≤ e.state.turns
  typings : ∀ t ∈ e.typings, t.moment.turn ≤ e.state.turns ∧
    t.typer.wrapper.index < e.tree.elements.size ∧ e.IsApart t.typer.full
  timers : ∀ timer ∈ e.clock.timers, timer.id < e.clock.nextId ∧ e.Knows timer.action ∧
    (timer.period = none ∨ timer.action.IsRepeated)

theorem Engine.Schedules.knows {e : Engine Empty σ} {mark : Mark} {period : Option Nat}
    {action : TimerAction Empty} (h : e.Schedules mark period action) :
    e.Knows action ∧ (period = none ∨ action.IsRepeated) := by
  cases action with
  | repeatTick handler moment => exact ⟨Nat.le_of_eq (congrArg Moment.turn h.2), .inr trivial⟩
  | timedStep chain => exact ⟨h.1, .inl h.2⟩
  | settle element className => exact ⟨h.1, .inl h.2⟩
  | beginTyping typing => exact ⟨h.1, .inl h.2⟩
  | typeLetter typing => exact ⟨h, .inr trivial⟩
  | host procedure => exact procedure.elim

/-- What an engine knows it still knows when there is more of everything. -/
theorem Engine.Knows.mono {e e' : Engine Empty σ} {action : TimerAction Empty}
    (h : e.Knows action) (hturn : e.state.turns ≤ e'.state.turns)
    (hchains : e.chains.size ≤ e'.chains.size)
    (helements : e.tree.elements.size ≤ e'.tree.elements.size)
    (htypings : e.typings.size ≤ e'.typings.size) : e'.Knows action := by
  cases action with
  | repeatTick handler moment => exact Nat.le_trans h hturn
  | timedStep chain => exact Nat.lt_of_lt_of_le h hchains
  | settle element className => exact Nat.lt_of_lt_of_le h helements
  | beginTyping typing => exact Nat.lt_of_lt_of_le h htypings
  | typeLetter typing => exact Nat.lt_of_lt_of_le h htypings
  | host procedure => exact procedure.elim

namespace Engine.Dated

variable {e e' : Engine Empty σ} {place : Place}

theorem congr (he : e.Dated) (h : e'.dated = e.dated) : e'.Dated := by
  simp only [Engine.dated, Prod.mk.injEq] at h
  obtain ⟨⟨htree, hdisplay⟩, -, hturn, hclickables, -, hchains, htypings, hclock⟩ := h
  have hknows {action : TimerAction Empty} (h : e.Knows action) : e'.Knows action :=
    h.mono (Nat.le_of_eq hturn.symm) (Nat.le_of_eq (by rw [hchains]))
      (Nat.le_of_eq (by rw [htree])) (Nat.le_of_eq (by rw [htypings]))
  have hapart {out : OutputId} (h : e.IsApart out) : e'.IsApart out := by
    unfold Engine.IsApart
    rw [htree, hdisplay]
    exact h
  refine ⟨by rw [htree, hdisplay]; exact he.display, ?_, ?_, ?_, ?_, ?_⟩
  · rw [htree]
    exact fun id el hel => hapart (he.content id el hel)
  · rw [hclickables, htree]
    exact he.clickables
  · rw [hchains, hturn]
    exact he.chains
  · rw [htypings, hturn, htree]
    exact fun t ht => ⟨(he.typings t ht).1, (he.typings t ht).2.1, hapart (he.typings t ht).2.2⟩
  · rw [hclock]
    exact fun timer htimer => ⟨(he.timers timer htimer).1, hknows (he.timers timer htimer).2.1,
      (he.timers timer htimer).2.2⟩

/-- The tree grows. -/
theorem ofGrows {x : Extent} {tree : Tree} (he : e.Dated) (h : e.tree.Grows x e.display tree) :
    Engine.Dated { e with tree := tree } := by
  have hapart {out : OutputId} (h' : e.IsApart out) :
      Engine.IsApart { e with tree := tree } out :=
    ⟨Nat.lt_of_lt_of_le h'.1 h.extent.outputs, h'.2⟩
  refine ⟨Nat.lt_of_lt_of_le he.display h.extent.outputs, fun id el' hel' => ?_, fun k hk => ?_,
    he.chains, fun t ht => ?_, fun timer htimer => ?_⟩
  · rcases h.content id el' hel' with ⟨el, hel, heq⟩ | ⟨-, hnew, hlt⟩
    · rw [heq]
      exact hapart (he.content id el hel)
    · refine ⟨hlt, fun heq => ?_⟩
      rw [heq] at hnew
      exact Nat.not_lt.mpr hnew he.display
  · exact Nat.lt_of_lt_of_le (he.clickables k hk) h.extent.elements
  · obtain ⟨hturn, hwrapper, hfull⟩ := he.typings t ht
    exact ⟨hturn, Nat.lt_of_lt_of_le hwrapper h.extent.elements, hapart hfull⟩
  · obtain ⟨hid, hknows, hperiod⟩ := he.timers timer htimer
    exact ⟨hid, hknows.mono (Nat.le_refl _) (Nat.le_refl _) h.extent.elements (Nat.le_refl _),
      hperiod⟩

/-- The engine knows its timers when there are more chains or texts, too. -/
theorem timers_mono (he : e.Dated) (hclock : e'.clock = e.clock)
    (hturn : e.state.turns ≤ e'.state.turns) (hchains : e.chains.size ≤ e'.chains.size)
    (helements : e.tree.elements.size ≤ e'.tree.elements.size)
    (htypings : e.typings.size ≤ e'.typings.size) (timer : Timer (TimerAction Empty))
    (htimer : timer ∈ e'.clock.timers) : timer.id < e'.clock.nextId ∧ e'.Knows timer.action ∧
      (timer.period = none ∨ timer.action.IsRepeated) := by
  rw [hclock] at htimer ⊢
  obtain ⟨hid, hknows, hperiod⟩ := he.timers timer htimer
  exact ⟨hid, hknows.mono hturn hchains helements htypings, hperiod⟩

/-- It may have got later. -/
theorem later {s : State} (he : e.Dated) (h : e.state.turns ≤ s.turns) :
    Engine.Dated { e with state := s } :=
  { he with
    chains := fun k hk => Nat.le_trans (he.chains k hk) h
    typings := fun t ht => ⟨Nat.le_trans (he.typings t ht).1 h, (he.typings t ht).2⟩
    timers := he.timers_mono rfl h (Nat.le_refl _) (Nat.le_refl _) (Nat.le_refl _) }

theorem ofChange (he : e.Dated) (h : Change place e e') : e'.Dated := by
  cases h with
  | display tree h => exact he.ofGrows h
  | reassign h => exact he.later (Nat.le_of_eq h.turns.symm)
  | clickable k h hhandler helement hthere =>
      refine { he with clickables := fun other hother => ?_ }
      rcases List.mem_append.mp hother with hold | hnew
      · exact he.clickables other hold
      · rw [List.mem_singleton.mp hnew]
        exact hthere
  | chain k h hhandler hnow _ =>
      refine { he with chains := fun other hother => ?_, timers := ?_ }
      · rcases Array.mem_push.mp hother with hold | rfl
        · exact he.chains other hold
        · exact Nat.le_of_eq (congrArg Moment.turn hnow)
      · exact he.timers_mono rfl (Nat.le_refl _) (Tree.size_le_push _ _) (Nat.le_refl _)
          (Nat.le_refl _)
  | chainItems index items _ =>
      refine { he with chains := fun other hother => ?_, timers := ?_ }
      · change other ∈ e.chains.modify index fun k => { k with items := items } at hother
        rcases exists_of_mem_modify hother with ⟨k, hk, rfl | ⟨-, rfl⟩⟩
        · exact he.chains other hk
        · exact he.chains k hk
      · exact he.timers_mono rfl (Nat.le_refl _) (Nat.le_of_eq Array.size_modify.symm)
          (Nat.le_refl _) (Nat.le_refl _)
  | typing tree t h hwrapper hfull hthere hnow =>
      have hgrown := he.ofGrows h
      refine { hgrown with typings := fun other hother => ?_, timers := ?_ }
      · rcases Array.mem_push.mp hother with hold | rfl
        · exact hgrown.typings other hold
        · refine ⟨Nat.le_of_eq (congrArg Moment.turn hnow),
            Nat.lt_of_lt_of_le hwrapper h.extent.elements, hthere, fun heq => ?_⟩
          rw [heq] at hfull
          exact Nat.not_lt.mpr hfull he.display
      · exact hgrown.timers_mono rfl (Nat.le_refl _) (Nat.le_refl _) (Nat.le_refl _)
          (Tree.size_le_push _ _)
  | retype index change h =>
      refine { he with typings := fun other hother => ?_, timers := ?_ }
      · obtain ⟨t, ht, rfl | ⟨hindex, rfl⟩⟩ := exists_of_mem_modify hother
        · exact he.typings other ht
        · have horigin := h t hindex
          simp only [Typing.origin, Prod.mk.injEq] at horigin
          rw [horigin.1, horigin.2.1, horigin.2.2]
          exact he.typings t ht
      · exact he.timers_mono rfl (Nat.le_refl _) (Nat.le_refl _) (Nat.le_refl _)
          (Nat.le_of_eq Array.size_modify.symm)
  | timer delay period action h _ =>
      refine { he with timers := fun other hother => ?_ }
      rcases List.mem_append.mp hother with hold | hnew
      · obtain ⟨hid, hrest⟩ := he.timers other hold
        exact ⟨Nat.lt_succ_of_lt hid, hrest⟩
      · rw [List.mem_singleton.mp hnew]
        exact ⟨Nat.lt_succ_self _, h.knows⟩
  | clock clock h =>
      refine { he with timers := fun timer' htimer' => ?_ }
      obtain ⟨timer, htimer, hid, hperiod, haction⟩ := h.timers timer' htimer'
      rw [hid, hperiod, haction, h.nextId]
      exact he.timers timer htimer
  | _ => exact { he with }

theorem ofMove (he : e.Dated) (h : Move e e') : e'.Dated := by
  cases h with
  | unclick h => exact { he with clickables := fun k hk => he.clickables k (h hk) }
  | turn title =>
      have hlater : Engine.Dated { e with state := e.state.advance title } :=
        he.later (Nat.le_succ _)
      exact { hlater with clickables := nofun }
  | _ => exact { he with }

theorem leaveShadow {h : ShadowHandler Empty} (he : e.Dated)
    (hinner : (e.enterShadow h).Dated → e'.Dated) (id : HandlerId) (depth : Nat)
    (previous : Option (Context Empty)) : (e'.leaveShadow id depth previous).Dated :=
  (hinner { he with }).congr (e'.leaveShadow_dated id depth previous).2.2

/-- All work leaves an engine dated. -/
theorem carried : @Carried σ (fun _ e e' => e.Dated → e'.Dated) (fun _ _ => True) where
  refl _ _ := id
  trans h h₁ he := h₁ (h he)
  change h he := he.ofChange h
  move h he := he.ofMove h
  forget := id
  call _ _ h he := { h { he with } with }
  overlay _ h he := { h { he with } with }
  deeper _ h he := { h { he with } with }
  tick _ h he := { h { he with } with }
  shown h he := { h { he.ofGrows (x := {}) (.clear _) with } with }
  shadow _ _ hfirst _ h he := leaveShadow (hfirst he) h _ _ _
  due _ := trivial
  ticking _ := trivial

end Engine.Dated

end StoryEngine
