import StoryEngine.Proofs.Engine.BorderTasks
import StoryEngine.Proofs.Engine.Sure
import StoryEngine.Proofs.Play.Isolation
/-!
# StoryEngine.Proofs.Play.Links

Elements that lead to passages. A click renders the contents of the element for what they do, and
its outcome depends on what came of that (`linkOutcome`): only when there are no errors in the
contents and the passage exists does the player go there. With the built-in macros the contents stay
beyond what there is when the element is clicked (`RunsPayload.leads`), so they neither move the
player nor change what is displayed. What can be clicked later was so before or is new
(`Engine.Later`), so that an element that was clicked once cannot be clicked again
(`links_lead_once`).
-/

namespace StoryEngine

variable {η σ : Type}

/-! ### What comes of a click -/

/-- The contents of an element that is clicked have been rendered for what they do, in an output
that nothing shows: with these errors in it, and then this engine. -/
inductive RunsPayload (p : Perform η σ) (id : HandlerId) (h : ShadowHandler η) (e : Engine η σ) :
    List String → Engine η σ → Prop
  | nothing (hnone : h.callback = none) : RunsPayload p id h e [] e
  | contents {contents : String} {e₁ : Engine η σ}
      (hcallback : h.callback = some (.payload contents))
      (hrender : p (.render ⟨e.tree.outputs.size⟩ contents)
        { e.enterShadow h with tree := e.tree.newOutput.2 } = (.ok (), e₁)) :
      RunsPayload p id h e (e₁.tree.errors ⟨e.tree.outputs.size⟩)
        (e₁.leaveShadow id e.state.overlays.length e.current)

/-- What comes of a click when the contents of the element were rendered: errors in them are its
failure, and so is a passage that does not exist; else the engine goes to the passage. -/
def linkOutcome (p : Perform η σ) (target? : Option String) (errors : List String)
    (e : Engine η σ) : Except Halt Bool × Engine η σ :=
  if errors.isEmpty then
    match target? with
    | none => (.ok true, e)
    | some title =>
      if e.hasPassage title then
        match p (.navigate title) e with
        | (.ok (), e') => (.ok true, e')
        | (.error halt, e') => (.error halt, e')
      else (.error (.failure (.message ("passage \"" ++ title ++ "\" does not exist"))), e)
  else (.error (.failure (.message (String.intercalate "; " errors))), e)

theorem linkOutcome_of_navigate {p : Perform η σ} {title : String} {e e' : Engine η σ}
    (hthere : e.hasPassage title = true) (h : p (.navigate title) e = (.ok (), e')) :
    linkOutcome p (some title) [] e = (.ok true, e') := by
  simp only [linkOutcome, List.isEmpty_nil, if_true, hthere, h]

/-- A passage that does not exist is not gone to. -/
theorem navigate_missing (host : Host η σ) (n : Nat) {title : String} {e : Engine η σ}
    (h : e.hasPassage title = false) :
    perform host (n + 1) (.navigate title) e =
      (.error (.failure (.message ("passage \"" ++ title ++ "\" does not exist"))), e) := by
  have hnone : Entries.find? title e.passages = none := by
    simpa [Engine.hasPassage, Entries.has] using h
  change navigate (perform host n) title e = _
  rw [navigate, Run.get_bind_apply, hnone]
  rfl

/-- What an element does when its contents are rendered: it goes to its passage, if it has one. -/
theorem runPart?_goTo (host : Host η σ) (n : Nat) (target? : Option String) (arg : HandlerArg)
    (e : Engine η σ) :
    (runPart? (runCallback host (perform host (n + 1))) arg (target?.map .goTo) >>= fun _ =>
        pure true) e = linkOutcome (perform host (n + 1)) target? [] e := by
  unfold linkOutcome
  rw [if_pos List.isEmpty_nil]
  cases target? with
  | none => rfl
  | some title =>
      dsimp only
      split
      · rcases hnavigate : perform host (n + 1) (.navigate title) e with ⟨halt | u, e'⟩
        · exact Run.bind_of_error hnavigate
        · exact Run.bind_of_ok hnavigate
      · rename_i hmissing
        exact Run.bind_of_error (navigate_missing host n (Bool.eq_false_of_not_eq_true hmissing))

/-- The errors in the contents are the failure of the callback. -/
theorem RunsPayload.callback_apply {p : Perform η σ} {id : HandlerId} {h : ShadowHandler η}
    {e e₂ : Engine η σ} {errors : List String} (hrun : RunsPayload p id h e errors e₂)
    (hh : e.handlers[id.index]? = some h) (host : Host η σ) :
    (if h.callback.isSome then runShadowed id (runPart? (runCallback host p) .nothing h.callback)
      else pure ()) e =
      (if errors.isEmpty then .ok ()
        else .error (.failure (.message (String.intercalate "; " errors))), e₂) := by
  cases hrun with
  | nothing hnone =>
      rw [hnone]
      rfl
  | @contents contents e₁ hcallback hrender =>
      have hnew : Run.withTree (fun t => t.newOutput) (e.enterShadow h) =
          (.ok ⟨e.tree.outputs.size⟩, { e.enterShadow h with tree := e.tree.newOutput.2 }) := rfl
      have hpayload : Builtin.runPayload p contents (e.enterShadow h) =
          (if (e₁.tree.errors ⟨e.tree.outputs.size⟩).isEmpty then .ok ()
            else .error (.failure (.message
              (String.intercalate "; " (e₁.tree.errors ⟨e.tree.outputs.size⟩)))), e₁) := by
        rw [Builtin.runPayload, Run.bind_of_ok hnew, Run.bind_of_ok hrender]
        refine (Run.bind_of_ok rfl).trans ?_
        split <;> rfl
      rw [hcallback, if_pos Option.isSome_some, runShadowed_apply, hh]
      refine Run.andFinally_of_returned _ hpayload ?_
      split
      · exact returned_ok ()
      · exact returned_failure _

/-- The engine in which an element that was clicked does what it does. One that can be clicked only
once cannot be any more. -/
def Engine.unclick (e : Engine η σ) (k : Clickable) (others : List Clickable) : Engine η σ :=
  { e with clickables := if k.once then others else e.clickables }

theorem click_of_some (p : Perform η σ) {element : ElementId} {e : Engine η σ} {k : Clickable}
    {others : List Clickable} (hclick : takeClickable? element e.clickables = some (k, others)) :
    click p element e =
      (p (.invoke k.handler .nothing) >>= fun _ => pure true) (e.unclick k others) := by
  rw [click, Run.get_bind_apply, hclick, Engine.unclick]
  cases honce : k.once with
  | true => simp only [honce, if_true, Run.modify_bind_apply]
  | false => simp only [honce, Bool.false_eq_true, if_false]

/-- What the handler of a call's element does. -/
theorem ShadowHandler.IsLink.invoke_apply {once : Bool} {h : ShadowHandler η}
    (hlink : h.IsLink once) {e : Engine η σ} {id : HandlerId} (hh : e.handlers[id.index]? = some h)
    (run : Callback η → HandlerArg → Run η σ Unit) (arg : HandlerArg) :
    invokeHandler run id arg e =
      ((if h.callback.isSome then runShadowed id (runPart? run arg h.callback) else pure ()) >>=
        fun _ => runPart? run arg (h.context.call.linkTarget?.map .goTo)) e := by
  have hnone : runPart? run arg none e = (.ok (), e) := rfl
  rw [invokeHandler_apply hh, hlink.start, hlink.done, Run.bind_of_ok hnone]

/-- A click of the element that a call has made does this, whatever macros there are: what the
contents do is done, and then their outcome decides. -/
theorem click_link (host : Host η σ) {e e₂ : Engine η σ} {k : Clickable} {others : List Clickable}
    {h : ShadowHandler η} {errors : List String} {n : Nat}
    (hclick : takeClickable? k.element e.clickables = some (k, others))
    (hh : e.handlers[k.handler.index]? = some h) (hlink : h.IsLink k.once)
    (hpayload : RunsPayload (perform host (n + 1)) k.handler h (e.unclick k others) errors e₂) :
    click (perform host (n + 2)) k.element e =
      linkOutcome (perform host (n + 1)) h.context.call.linkTarget? errors e₂ := by
  have hthere : (e.unclick k others).handlers[k.handler.index]? = some h := hh
  have hcallback := hpayload.callback_apply hthere host
  have hinvoke : perform host (n + 2) (.invoke k.handler .nothing) (e.unclick k others) = _ :=
    hlink.invoke_apply hthere (runCallback host (perform host (n + 1))) .nothing
  rw [click_of_some _ hclick, Run.bind_apply, hinvoke, ← Run.bind_apply, bind_assoc]
  cases errors with
  | nil => exact (Run.bind_of_ok hcallback).trans (runPart?_goTo host n _ _ e₂)
  | cons message rest => exact Run.bind_of_error hcallback

/-! ### What a call makes -/

/-- A call makes one element, with a handler of its own. -/
theorem runLink_registers {p : Perform Empty σ} {context : Context Empty} {e e' : Engine Empty σ}
    (h : Builtin.runLink p context e = (.ok (), e')) (hvalues : context.call.args.values ≠ []) :
    ∃ k ∈ e'.clickables, k.element = ⟨e.tree.elements.size⟩ ∧
      e'.Holds k.handler fun handler => handler.context = context ∧ handler.IsLink k.once := by
  obtain ⟨first, rest, hfirst⟩ := List.exists_cons_of_ne_nil hvalues
  simp only [Builtin.runLink, hfirst] at h
  obtain ⟨element, e₁, hnew, h⟩ := Run.bind_eq_ok h
  cases hnew
  obtain ⟨passage, e₂, hfill, h⟩ := Run.bind_eq_ok h
  obtain ⟨_, e₃, -, h⟩ := Run.bind_eq_ok h
  obtain ⟨_, e₄, -, h⟩ := Run.bind_eq_ok h
  obtain ⟨store, hmake⟩ := Builtin.makeClickable_apply context ⟨e.tree.elements.size⟩
    (trimText context.call.contents) passage e₄
  rw [Run.bind_of_ok hmake] at h
  obtain ⟨out, e₅, htarget, calls, tree, rfl⟩ := context.call.target_apply { e₄ with
    handlers := e₄.handlers.push ⟨context, store, none,
      if (trimText context.call.contents).isEmpty then none
      else some (.payload (trimText context.call.contents)), passage.map .goTo⟩
    clickables := e₄.clickables ++
      [⟨⟨e.tree.elements.size⟩, ⟨e₄.handlers.size⟩, passage.isSome⟩] }
  rw [Run.bind_of_ok htarget] at h
  cases h
  have hpassage := Builtin.fillLink_target hfirst hfill
  refine ⟨⟨⟨e.tree.elements.size⟩, ⟨e₄.handlers.size⟩, passage.isSome⟩,
    List.mem_append_right _ List.mem_cons_self, rfl, _, Array.getElem?_push_size, rfl, rfl, rfl,
    ?_, ?_⟩
  · rw [hpassage]
  · rw [hpassage]

/-! ### Elements that can be clicked -/

/-- What is taken is the first of those with the element, and the others stay in order. -/
theorem takeClickable?_eq_some {element : ElementId} {clickables others : List Clickable}
    {k : Clickable} (h : takeClickable? element clickables = some (k, others)) :
    ∃ front back, clickables = front ++ k :: back ∧ others = front ++ back ∧ k.element = element := by
  induction clickables generalizing others with
  | nil => cases h
  | cons first rest ih =>
      rw [takeClickable?] at h
      split at h
      · rename_i helement
        cases h
        exact ⟨[], rest, rfl, rfl, helement⟩
      · obtain ⟨⟨found, left⟩, hfound, heq⟩ := Option.map_eq_some_iff.mp h
        cases heq
        obtain ⟨front, back, rfl, rfl, helement⟩ := ih hfound
        exact ⟨first :: front, back, rfl, rfl, helement⟩

theorem takeClickable?_of_mem {clickables : List Clickable} {k : Clickable}
    (hnodup : (clickables.map (·.element)).Nodup) (hk : k ∈ clickables) :
    ∃ others, takeClickable? k.element clickables = some (k, others) := by
  induction clickables with
  | nil => cases hk
  | cons first rest ih =>
      rw [List.map_cons, List.nodup_cons] at hnodup
      rw [takeClickable?]
      rcases List.mem_cons.mp hk with rfl | hrest
      · exact ⟨rest, if_pos rfl⟩
      · have hne : first.element ≠ k.element := fun heq =>
          hnodup.1 (heq ▸ List.mem_map_of_mem hrest)
        obtain ⟨others, hothers⟩ := ih hnodup.2 hrest
        rw [if_neg hne, hothers]
        exact ⟨first :: others, rfl⟩

/-! ### Later engines -/

/-- What there was is there later, but for what a new turn drops, and all that can be clicked since is
new. -/
structure Engine.Later (e e' : Engine Empty σ) : Prop where
  admits : ({} : Border).Admits e'
  elements : e.tree.elements.size ≤ e'.tree.elements.size
  turns : e.state.turns ≤ e'.state.turns
  handlers : e.KeepsHandlers e'
  clickables : ∀ k ∈ e'.clickables, k ∈ e.clickables ∨ e.tree.elements.size ≤ k.element.index
  kept : e'.state.turns = e.state.turns → ∀ k ∈ e.clickables, k.once = false → k ∈ e'.clickables

namespace Engine.Later

variable {e e₁ e' : Engine Empty σ}

theorem refl (he : ({} : Border).Admits e) : e.Later e :=
  ⟨he, Nat.le_refl _, Nat.le_refl _, .of_eq rfl, fun _ hk => .inl hk, fun _ _ hk _ => hk⟩

theorem trans (h : e.Later e₁) (h₁ : e₁.Later e') : e.Later e' where
  admits := h₁.admits
  elements := Nat.le_trans h.elements h₁.elements
  turns := Nat.le_trans h.turns h₁.turns
  handlers := h.handlers.trans h₁.handlers
  clickables k hk := by
    rcases h₁.clickables k hk with hold | hnew
    · exact h.clickables k hold
    · exact .inr (Nat.le_trans h.elements hnew)
  kept hturns k hk honce := by
    have hfirst : e₁.state.turns = e.state.turns :=
      Nat.le_antisymm (Nat.le_trans h₁.turns (Nat.le_of_eq hturns)) h.turns
    exact h₁.kept (hturns.trans hfirst.symm) k (h.kept hfirst k hk honce) honce

theorem ofLeads (h : ({} : Border).Leads e e') : e.Later e' := by
  have hturns : e'.state.turns = e.state.turns := congrArg (·.2.1) h.journey
  obtain ⟨added, hadded, hnew⟩ := h.clickables
  refine ⟨h.admits, h.tree.extent.elements, Nat.le_of_eq hturns.symm, h.handlers, fun k hk => ?_,
    fun _ k hk _ => ?_⟩
  · rw [hadded] at hk
    exact (List.mem_append.mp hk).imp_right (hnew k)
  · rw [hadded]
    exact List.mem_append_left _ hk

theorem ofBeyond {α : Type} {x : Run Empty σ α} {r : Except Halt α} (hx : Beyond {} x)
    (he : ({} : Border).Admits e) (h : x e = (r, e')) (hr : Returned r) : e.Later e' := by
  have hleads := hx e he
  unfold BeyondFrom at hleads
  rw [h] at hleads
  exact ofLeads (hleads hr).1

/-- An element that could not be clicked cannot be clicked later. -/
theorem click_eq (h : e.Later e') {element : ElementId} (hold : element.index < e.tree.elements.size)
    (hnot : ∀ k ∈ e.clickables, k.element ≠ element) (p : Perform Empty σ) :
    click p element e' = (.ok false, e') := by
  have hnone : takeClickable? element e'.clickables = none := by
    refine takeClickable?_eq_none fun k hk heq => ?_
    rcases h.clickables k hk with hbefore | hnew
    · exact hnot k hbefore heq
    · rw [heq] at hnew
      exact Nat.not_lt.mpr hnew hold
  rw [click, Run.get_bind_apply, hnone]
  rfl

end Engine.Later

/-- An element is not one of those that can be clicked any more. -/
theorem Border.Admits.unclick {b : Border} {e : Engine Empty σ} (he : b.Admits e)
    {left : List Clickable} (h : left.Sublist e.clickables) :
    b.Admits { e with clickables := left } :=
  { he with
    nodup := he.nodup.sublist (h.map _)
    made := fun k hk => he.made k (h.subset hk)
    links := fun k hk => he.links k (h.subset hk) }

/-- What there is now. -/
def Engine.border (e : Engine Empty σ) : Border :=
  ⟨e.tree.extent, e.calls.size, e.typings.size, e.texts.isEmpty⟩

theorem Border.Admits.now {b : Border} {e : Engine Empty σ} (he : b.Admits e) :
    e.border.Admits e :=
  { he with
    tree := he.tree.now
    calls_le := Nat.le_refl _
    views := fun index s hindex hs => by
      have hlt : index < e.calls.size := (Array.getElem?_eq_some_iff.mp hs).1
      exact absurd hlt (Nat.not_lt_of_le hindex)
    typings_le := Nat.le_refl _
    typings := fun index t hindex ht => by
      have hlt : index < e.typings.size := (Array.getElem?_eq_some_iff.mp ht).1
      exact absurd hlt (Nat.not_lt_of_le hindex)
    queued := fun hstarts job hjob => by
      have hnil : e.texts = [] := List.isEmpty_iff.mp hstarts
      rw [hnil] at hjob
      cases hjob
    waiting := fun hstarts hnil => by
      have hempty : e.texts.isEmpty = true := List.isEmpty_iff.mpr hnil
      exact absurd hempty (Bool.eq_false_iff.mp hstarts) }

/-- The contents are rendered beyond what there is. -/
theorem RunsPayload.leads {b : Border} {e e₂ : Engine Empty σ} {n : Nat} {id : HandlerId}
    {h : ShadowHandler Empty} {errors : List String} (he : b.Admits e)
    (hrun : RunsPayload (perform Host.idle n) id h e errors e₂) : b.Leads e e₂ := by
  cases hrun with
  | nothing hnone => exact .refl he
  | @contents contents e₁ hcallback hrender =>
      have hentered : b.Leads e (e.enterShadow h) := .still he (.of_eq rfl) rfl
      have hnew : b.Leads e { e.enterShadow h with tree := e.tree.newOutput.2 } :=
        hentered.trans (.display_tree hentered.admits (.newOutput _ _))
      have hrendered := (b.bounds n).render contents he.tree.extent.outputs _ hnew.admits
      unfold BeyondFrom at hrendered
      rw [hrender] at hrendered
      have hleads := (hrendered (returned_ok ())).1
      exact (hnew.trans hleads).trans (.leaveShadow hleads.admits _ _ _)

/-- When the host goes to a passage, a turn begins, and all that follows belongs to it. -/
theorem navigate_leads {e e' : Engine Empty σ} {n : Nat} {title : String} {r : Except Halt Unit}
    (he : ({} : Border).Admits e) (hthere : e.hasPassage title = true)
    (h : perform Host.idle n (.navigate title) e = (r, e')) (hr : Returned r) :
    r = .ok () ∧ ({} : Border).Leads (e.beginTurn title) e' := by
  cases n with
  | zero => cases h; exact (hr rfl).elim
  | succ n =>
      have hp := ({} : Border).bounds (σ := σ) n
      obtain ⟨source, hsource⟩ : ∃ source, Entries.find? title e.passages = some source :=
        Option.isSome_iff_exists.mp hthere
      change navigate (perform Host.idle n) title e = (r, e') at h
      rw [navigate, Run.get_bind_apply, hsource] at h
      dsimp only at h
      rw [Run.modify_bind_apply] at h
      have hturn : Beyond ({} : Border) (do
          perform Host.idle n (.trigger .passageInit title)
          showPassage (perform Host.idle n) source
          perform Host.idle n (.trigger .passageEnd title) : Run Empty σ Unit) :=
        .seq (hp.trigger title rfl fun _ => rfl) fun _ => .seq (beyond_showPassage hp source)
          fun _ => hp.trigger title rfl fun _ => rfl
      have hsure : Sure (do
          perform Host.idle n (.trigger .passageInit title)
          showPassage (perform Host.idle n) source
          perform Host.idle n (.trigger .passageEnd title) : Run Empty σ Unit) :=
        .bind (sure_perform_trigger _ n _ _) fun _ => .bind (.bind (.modify _) fun _ => .bind .get
          fun _ => .bind (sure_perform_render _ n _ _) fun _ => .modify _)
          fun _ => sure_perform_trigger _ n _ _
      have hleads := hturn _ (he.beginTurn title)
      unfold BeyondFrom at hleads
      rw [h] at hleads
      refine ⟨?_, (hleads hr).1⟩
      cases r with
      | ok u => rfl
      | error halt =>
          cases halt with
          | failure f => exact (hsure _ f e' h).elim
          | outOfFuel => exact (hr rfl).elim

theorem Engine.Later.beginTurn {e : Engine Empty σ} (he : ({} : Border).Admits e) (title : String) :
    e.Later (e.beginTurn title) where
  admits := he.beginTurn title
  elements := Nat.le_refl _
  turns := Nat.le_succ _
  handlers := .of_eq rfl
  clickables := nofun
  kept hturns := absurd hturns (Nat.succ_ne_self _)

theorem navigate_later {e e' : Engine Empty σ} {n : Nat} {title : String} {r : Except Halt Unit}
    (he : ({} : Border).Admits e) (h : perform Host.idle n (.navigate title) e = (r, e'))
    (hr : Returned r) : e.Later e' := by
  cases hthere : e.hasPassage title with
  | true =>
      exact (Engine.Later.beginTurn he title).trans (.ofLeads (navigate_leads he hthere h hr).2)
  | false =>
      cases n with
      | zero => cases h; exact (hr rfl).elim
      | succ n =>
          rw [navigate_missing Host.idle n hthere] at h
          cases h
          exact .refl he

/-! ### Calls of the host -/

theorem linkPayload?_beyond {b : Border} {call : MacroCall Empty} {callback : Callback Empty}
    (h : call.linkPayload? = some callback) : callback.Beyond b := by
  unfold MacroCall.linkPayload? at h
  dsimp only at h
  split at h
  · cases h
  · cases h
    trivial

theorem Tree.settled_empty : ({} : Tree).Settled {} :=
  ⟨⟨Nat.zero_le _, Nat.zero_le _, Nat.zero_le _⟩, nofun, nofun, nofun⟩

theorem unclick_sublist {e : Engine Empty σ} {k : Clickable} {others : List Clickable}
    {element : ElementId} (hclick : takeClickable? element e.clickables = some (k, others)) :
    (e.unclick k others).clickables.Sublist e.clickables := by
  obtain ⟨front, back, hall, hothers, -⟩ := takeClickable?_eq_some hclick
  unfold Engine.unclick
  split
  · rw [hall, hothers]
    exact (List.sublist_cons_self k back).append_left front
  · exact List.Sublist.refl _

theorem Engine.Later.unclick {e : Engine Empty σ} {k : Clickable} {others : List Clickable}
    {element : ElementId} (he : ({} : Border).Admits e)
    (hclick : takeClickable? element e.clickables = some (k, others)) :
    e.Later (e.unclick k others) where
  admits := he.unclick (unclick_sublist hclick)
  elements := Nat.le_refl _
  turns := Nat.le_refl _
  handlers := .of_eq rfl
  clickables _ hother := .inl ((unclick_sublist hclick).subset hother)
  kept _ other hother honce := by
    unfold Engine.unclick
    split
    · rename_i hk
      obtain ⟨front, back, hall, hothers, -⟩ := takeClickable?_eq_some hclick
      have hne : other ≠ k := fun heq => by rw [heq, hk] at honce; cases honce
      rw [hall] at hother
      change other ∈ others
      rw [hothers]
      simpa [hne] using hother
    · exact hother

/-- What a click does is done when the element cannot be clicked any more, if it can be only
once. -/
theorem click_later {e e' : Engine Empty σ} {element : ElementId} {k : Clickable}
    {others : List Clickable} {n : Nat} {r : Except Halt Bool} (he : ({} : Border).Admits e)
    (hclick : takeClickable? element e.clickables = some (k, others))
    (h : click (perform Host.idle n) element e = (r, e')) (hr : Returned r) :
    (e.unclick k others).Later e' := by
  have htaken := (Engine.Later.unclick he hclick).admits
  rw [click_of_some _ hclick] at h
  have hinvoke {r₁ : Except Halt Unit} {e₁ : Engine Empty σ}
      (h₁ : perform Host.idle n (.invoke k.handler .nothing) (e.unclick k others) = (r₁, e₁))
      (hr₁ : Returned r₁) : (e.unclick k others).Later e₁ := by
    cases n with
    | zero => cases h₁; exact (hr₁ rfl).elim
    | succ n =>
        obtain ⟨handler, hh, hlink⟩ := he.links k (takeClickable?_mem hclick).1
        have hthere : (e.unclick k others).handlers[k.handler.index]? = some handler := hh
        change invokeHandler _ _ _ _ = _ at h₁
        rw [hlink.invoke_apply hthere] at h₁
        have hcontents := beyond_callback (({} : Border).bounds n) .nothing (.refl htaken) hthere
          fun callback hcallback => linkPayload?_beyond (hlink.callback.symm.trans hcallback)
        unfold BeyondFrom at hcontents
        rcases Run.bind_returned h₁ hr₁ with ⟨u, e₂, h₂, h₃⟩ | ⟨failure, h₂, -⟩
        · rw [h₂] at hcontents
          have hfirst := Engine.Later.ofLeads (hcontents (returned_ok u)).1
          refine hfirst.trans ?_
          cases htarget : handler.context.call.linkTarget? with
          | none =>
              rw [htarget] at h₃
              cases h₃
              exact .refl hfirst.admits
          | some title =>
              rw [htarget] at h₃
              exact navigate_later hfirst.admits h₃ hr₁
        · rw [h₂] at hcontents
          exact .ofLeads (hcontents (returned_failure failure)).1
  rcases Run.bind_returned h hr with ⟨u, e₁, h₁, h₂⟩ | ⟨failure, h₁, -⟩
  · cases h₂
    exact hinvoke h₁ (returned_ok u)
  · exact hinvoke h₁ (returned_failure failure)

/-- Whatever the host asks for, what there was is there later. -/
theorem HostCall.later {call : HostCall} {n : Nat} {e e' : Engine Empty σ} {r : Except Halt Unit}
    (he : ({} : Border).Admits e) (h : call.run (perform Host.idle n) e = (r, e'))
    (hr : Returned r) : e.Later e' := by
  have hp := ({} : Border).bounds (σ := σ) n
  cases call with
  | addPassage title source =>
      cases h
      exact { Engine.Later.refl he with admits := { he with } }
  | render out source => exact .ofBeyond (hp.render source (Nat.zero_le _)) he h hr
  | navigate title => exact navigate_later he h hr
  | click element =>
      have hclick {r₁ : Except Halt Bool} {e₁ : Engine Empty σ}
          (h₁ : StoryEngine.click (perform Host.idle n) element e = (r₁, e₁)) (hr₁ : Returned r₁) :
          e.Later e₁ := by
        cases hc : takeClickable? element e.clickables with
        | none =>
            rw [StoryEngine.click, Run.get_bind_apply, hc] at h₁
            cases h₁
            exact .refl he
        | some found =>
            obtain ⟨k, others⟩ := found
            exact (Engine.Later.unclick he hc).trans (click_later he hc h₁ hr₁)
      rcases Run.bind_returned h hr with ⟨u, e₁, h₁, h₂⟩ | ⟨failure, h₁, -⟩
      · cases h₂
        exact hclick h₁ (returned_ok u)
      · exact hclick h₁ (returned_failure failure)
  | pressKey key => exact .ofBeyond (hp.trigger key rfl fun _ => rfl) he h hr
  | advance ms =>
      cases n with
      | zero => cases h; exact (hr rfl).elim
      | succ n => exact .ofBeyond (beyond_advance (({} : Border).bounds n) n ms) he h hr
  | set name value =>
      exact .ofBeyond (.changingState fun _ _ => State.reassigned_of_set) he h hr
  | newOutput =>
      refine .ofBeyond (.seq (.withTree (P := fun _ => True) fun t _ => ⟨.newOutput _ t, trivial⟩)
        fun _ => .pure trivial) he h hr
  | takeErrors =>
      cases h
      exact .ofLeads (.still he (.of_eq rfl) rfl)

theorem Engine.tidy_ofConfig (config : Config) (host : σ) : (Engine.ofConfig config host).Tidy :=
  ⟨List.nodup_nil, nofun, nofun, nofun, nofun, nofun⟩

theorem Border.admits_ofConfig (config : Config) (host : σ) :
    ({} : Border).Admits (Engine.ofConfig config host) :=
  ⟨Engine.tidy_ofConfig config host, (Tree.ChangesBeyond.newOutput {} {}).settled Tree.settled_empty,
    Nat.le_refl _, nofun, Nat.le_refl _, nofun, nofun, nofun⟩

theorem Played.admits {config : Config} {host : σ} {e : Engine Empty σ}
    (h : Played config host e) : ({} : Border).Admits e := by
  induction h with
  | start => exact Border.admits_ofConfig config host
  | call before call hrun hr ih => exact (HostCall.later ih hrun hr).admits

theorem Continues.later {e e' : Engine Empty σ} {fired : List TimerId} (he : ({} : Border).Admits e)
    (h : Continues e fired e') : e.Later e' := by
  induction h with
  | start => exact .refl he
  | call before call hrun hr ih => exact ih.trans (HostCall.later ih.admits hrun hr)

/-! ### Where the player is -/

/-- The player stays where he is, and whatever could be displayed reads the same. -/
structure Engine.Unmoved (e e' : Engine Empty σ) : Prop where
  journey : e'.state.journey = e.state.journey
  passages : e'.passages = e.passages
  display : e'.display = e.display
  reads (out : OutputId) : out.index < e.tree.outputs.size → e.tree.ReadsSame e'.tree out

/-- The contents of an element do not move the player. -/
theorem RunsPayload.unmoved {e e₂ : Engine Empty σ} {k : Clickable} {others : List Clickable} {n : Nat}
    {h : ShadowHandler Empty} {errors : List String} (he : ({} : Border).Admits (e.unclick k others))
    (hrun : RunsPayload (perform Host.idle n) k.handler h (e.unclick k others) errors e₂) :
    e.Unmoved e₂ := by
  have hleads := hrun.leads he.now
  exact ⟨hleads.journey, hleads.passages, hleads.display,
    fun out hout => hleads.tree.readsSame he.tree hout⟩

/-- An element that was clicked and can be clicked only once cannot be clicked later. -/
theorem click_once {e e₁ e' : Engine Empty σ} {k : Clickable} {others : List Clickable} {n : Nat}
    {r : Except Halt Bool} {fired : List TimerId} (he : ({} : Border).Admits e) (honce : k.once = true)
    (hclick : takeClickable? k.element e.clickables = some (k, others))
    (h : click (perform Host.idle n) k.element e = (r, e₁)) (hr : Returned r)
    (hlater : Continues e₁ fired e') (p : Perform Empty σ) :
    click p k.element e' = (.ok false, e') := by
  have hfirst := click_later he hclick h hr
  refine (hfirst.trans (hlater.later hfirst.admits)).click_eq (he.made k (takeClickable?_mem hclick).1)
    (fun other hother heq => ?_) p
  obtain ⟨front, back, hall, hothers, -⟩ := takeClickable?_eq_some hclick
  have hnodup := he.nodup
  rw [hall, List.map_append, List.map_cons, List.perm_middle.nodup_iff, List.nodup_cons] at hnodup
  have hmem : other ∈ others := by
    unfold Engine.unclick at hother
    rw [if_pos honce] at hother
    exact hother
  rw [hothers] at hmem
  refine hnodup.1 ?_
  rw [← List.map_append, ← heq]
  exact List.mem_map_of_mem hmem

/-- An element that leads nowhere can be clicked as long as the turn lasts. -/
theorem clickable_lasts {e e' : Engine Empty σ} {k : Clickable} {handler : ShadowHandler Empty}
    {fired : List TimerId} (he : ({} : Border).Admits e) (hk : k ∈ e.clickables)
    (hh : e.handlers[k.handler.index]? = some handler) (hlink : handler.IsLink k.once)
    (honce : k.once = false) (hlater : Continues e fired e')
    (hturn : e'.state.turns = e.state.turns) :
    k ∈ e'.clickables ∧
      e'.Holds k.handler fun h => h.context = handler.context ∧ h.IsLink k.once := by
  have hsince := hlater.later he
  obtain ⟨store, hstore⟩ := hsince.handlers k.handler.index handler hh
  exact ⟨hsince.kept hturn k hk honce, _, hstore, rfl, hlink.withStore store⟩

/-- Every call makes one element to be clicked, with a handler of its own. Whatever macros there
are, a click of it renders the contents, and goes to the passage of the call, if there is one, only
if the contents have no errors and the passage exists (`linkOutcome`).

With the built-in macros, the contents leave the player where he is and all that is displayed as it
reads, so he only goes to the passage, and once. After a click of an element that leads to a passage
it cannot be clicked any more. One that leads nowhere can be, until a turn begins. -/
theorem links_lead_once (config : Config) (host : σ) :
    (∀ (n : Nat) (context : Context Empty) (e e' : Engine Empty σ),
      Builtin.runLink (perform Host.idle n) context e = (.ok (), e') →
      context.call.args.values ≠ [] →
      ∃ k ∈ e'.clickables, k.element = ⟨e.tree.elements.size⟩ ∧
        e'.Holds k.handler fun handler => handler.context = context ∧ handler.IsLink k.once) ∧
    (∀ {η τ : Type} (procedures : Host η τ) (e e₂ : Engine η τ) (k : Clickable)
      (others : List Clickable) (handler : ShadowHandler η) (errors : List String) (n : Nat),
      takeClickable? k.element e.clickables = some (k, others) →
      e.handlers[k.handler.index]? = some handler → handler.IsLink k.once →
      RunsPayload (perform procedures (n + 1)) k.handler handler (e.unclick k others) errors e₂ →
      click (perform procedures (n + 2)) k.element e =
        linkOutcome (perform procedures (n + 1)) handler.context.call.linkTarget? errors e₂) ∧
    ∀ e : Engine Empty σ, Played config host e → e.display.index < e.tree.outputs.size ∧
      ∀ k ∈ e.clickables, ∃ others handler,
        takeClickable? k.element e.clickables = some (k, others) ∧
        e.handlers[k.handler.index]? = some handler ∧ handler.IsLink k.once ∧
        (∀ (n : Nat) (errors : List String) (e₂ : Engine Empty σ),
          RunsPayload (perform Host.idle (n + 1)) k.handler handler (e.unclick k others) errors e₂ →
          click (perform Host.idle (n + 2)) k.element e =
            linkOutcome (perform Host.idle (n + 1)) handler.context.call.linkTarget? errors e₂ ∧
          e.Unmoved e₂ ∧
          ∀ (title : String) (r : Except Halt Unit) (e₃ : Engine Empty σ),
            e.hasPassage title = true →
            perform Host.idle (n + 1) (.navigate title) e₂ = (r, e₃) → Returned r →
            r = .ok () ∧ e₃.state.journey = (title, e.state.turns + 1, e.state.history ++ [title])) ∧
        (handler.context.call.linkTarget?.isSome = true →
          ∀ (n : Nat) (r : Except Halt Bool) (e₁ e' : Engine Empty σ) (fired : List TimerId),
            click (perform Host.idle n) k.element e = (r, e₁) → Returned r →
            Continues e₁ fired e' → ∀ p, click p k.element e' = (.ok false, e')) ∧
        (handler.context.call.linkTarget? = none →
          ∀ (e' : Engine Empty σ) (fired : List TimerId), Continues e fired e' →
            e'.state.turns = e.state.turns →
            k ∈ e'.clickables ∧
              e'.Holds k.handler fun h => h.context = handler.context ∧ h.IsLink k.once) := by
  refine ⟨fun n context e e' h hvalues => runLink_registers h hvalues,
    fun procedures e e₂ k others handler errors n hclick hh hlink hpayload =>
      click_link procedures hclick hh hlink hpayload,
    fun e h => ⟨h.dated.display, fun k hk => ?_⟩⟩
  have he := h.admits
  obtain ⟨others, hclick⟩ := takeClickable?_of_mem he.nodup hk
  obtain ⟨handler, hh, hlink⟩ := he.links k hk
  refine ⟨others, handler, hclick, hh, hlink, fun n errors e₂ hpayload => ?_, ?_, ?_⟩
  · have hunmoved := hpayload.unmoved (Engine.Later.unclick he hclick).admits
    have hleads := hpayload.leads (Engine.Later.unclick he hclick).admits
    refine ⟨click_link Host.idle hclick hh hlink hpayload, hunmoved, fun title r e₃ hthere h hr => ?_⟩
    have hpassage : e₂.hasPassage title = true := by
      rw [Engine.hasPassage, hunmoved.passages]
      exact hthere
    obtain ⟨rfl, hturn⟩ := navigate_leads hleads.admits hpassage h hr
    refine ⟨rfl, hturn.journey.trans ?_⟩
    have hjourney := hunmoved.journey
    simp only [State.journey, Prod.mk.injEq] at hjourney
    simp only [State.journey, Engine.beginTurn, State.advance, hjourney.2.1, hjourney.2.2]
  · intro htarget n r e₁ e' fired h hr hlater p
    exact click_once he (hlink.once.trans htarget) hclick h hr hlater p
  · intro htarget e' fired hlater hturn
    have honce : k.once = false := by
      rw [hlink.once, htarget]
      rfl
    exact clickable_lasts he hk hh hlink honce hlater hturn

/-- A link is clicked: its contents set a variable, and then it leads to its passage, once. The
button behind it leads nowhere, and could be clicked as long as the turn lasted. -/
theorem link_leads_on :
    (∃ (context : Context Empty) (e e' : Engine Empty Unit),
      Builtin.runLink (perform Host.idle 20) context e = (.ok (), e') ∧
        ∃ k ∈ e'.clickables, k.element = ⟨0⟩) ∧
    ∃ (e e₁ e₂ e₃ e' : Engine Empty Unit) (handler : ShadowHandler Empty)
      (waited fired : List TimerId), Played {} () e ∧
        (Continues e waited e₁ ∧ ⟨⟨1⟩, ⟨1⟩, false⟩ ∈ e₁.clickables) ∧
        RunsPayload (perform Host.idle 20) ⟨0⟩ handler
          (e.unclick ⟨⟨0⟩, ⟨0⟩, true⟩ [⟨⟨1⟩, ⟨1⟩, false⟩]) [] e₂ ∧ e.Unmoved e₂ ∧
        click (perform Host.idle 21) ⟨0⟩ e = (.ok true, e₃) ∧
        e₃.state.journey = ("cave", 2, ["home", "cave"]) ∧ Continues e₃ fired e' ∧
        click (perform Host.idle 21) ⟨0⟩ e' = (.ok false, e') := by
  let start : Engine Empty Unit := Engine.ofConfig {} ()
  let call : MacroCall Empty :=
    ⟨0, { handler := none }, "link", "link", { values := [.string "go"] }, [], "", ⟨0⟩⟩
  let made := Builtin.runLink (perform Host.idle 20) ⟨call, []⟩ start
  let home := (HostCall.addPassage "home" ("<<link 'go' 'cave'>><<set $gold to 3>><</link>>" ++
    "<<button 'dig'>><<set $gold to 4>><</button>>")).run (perform Host.idle 0) start
  let cave := (HostCall.addPassage "cave" "dark").run (perform Host.idle 0) home.2
  let first := (HostCall.navigate "home").run (perform Host.idle 20) cave.2
  let e := first.2
  let k : Clickable := ⟨⟨0⟩, ⟨0⟩, true⟩
  let other : Clickable := ⟨⟨1⟩, ⟨1⟩, false⟩
  let handler : ShadowHandler Empty := e.handlers[0]?.getD { context := ⟨call, []⟩, store := [] }
  let digger : ShadowHandler Empty := e.handlers[1]?.getD { context := ⟨call, []⟩, store := [] }
  let rendered := perform Host.idle 20 (.render ⟨e.tree.outputs.size⟩ "<<set $gold to 3>>")
    { (e.unclick k [other]).enterShadow handler with tree := e.tree.newOutput.2 }
  let e₂ := rendered.2.leaveShadow ⟨0⟩ e.state.overlays.length e.current
  let arrived := perform Host.idle 20 (.navigate "cave") e₂
  let waiting := (HostCall.advance 1000).run (perform Host.idle 20) e
  let later := (HostCall.advance 1000).run (perform Host.idle 20) arrived.2
  obtain ⟨hmade, hhome, hcave, hfirst, hk, hcontents, hrendered, herrors⟩ :
      made.1.toBool = true ∧ Returned home.1 ∧ Returned cave.1 ∧ Returned first.1 ∧
        e.clickables = [k, other] ∧
          trimText handler.context.call.contents = "<<set $gold to 3>>" ∧ rendered.1.toBool = true ∧
              rendered.2.tree.errors ⟨e.tree.outputs.size⟩ = [] := by
    decide +kernel
  obtain ⟨hjourney, hthere, htarget, hnowhere, harrived, hwaiting, hturns, hlater⟩ :
      e.state.journey = ("home", 1, ["home"]) ∧ e.hasPassage "cave" = true ∧
        handler.context.call.linkTarget? = some "cave" ∧
          digger.context.call.linkTarget? = none ∧ Returned arrived.1 ∧ Returned waiting.1 ∧
            waiting.2.state.turns = e.state.turns ∧ Returned later.1 := by
    decide +kernel
  have hok {r : Except Halt Unit} (h : r.toBool = true) : r = .ok () := by
    cases r with
    | ok u => rfl
    | error halt => cases h
  have hplayed : Played {} () e :=
    ((Played.start.next _ 0 hhome).next _ 0 hcave).next _ 20 hfirst
  have hrender : perform Host.idle 20 (.render ⟨e.tree.outputs.size⟩ "<<set $gold to 3>>")
      { (e.unclick k [other]).enterShadow handler with tree := e.tree.newOutput.2 } =
        (.ok (), rendered.2) := Prod.ext (hok hrendered) rfl
  have hmake : Builtin.runLink (perform Host.idle 20) ⟨call, []⟩ start = (.ok (), made.2) :=
    Prod.ext (hok hmade) rfl
  -- from here on it does not matter any more how these engines were computed
  clear_value first rendered made
  obtain ⟨hmakes, houtcome, hplay⟩ := links_lead_once {} ()
  have hall := (hplay e hplayed).2
  have hplayer : k ∈ e.clickables ∧ other ∈ e.clickables := by
    rw [hk]
    exact ⟨List.mem_cons_self, .tail _ List.mem_cons_self⟩
  obtain ⟨others, found, hclick, hh, hlink, hpayload, honce, -⟩ := hall k hplayer.1
  obtain ⟨_, digging, -, hdigs, -, -, -, hagain⟩ := hall other hplayer.2
  obtain rfl : others = [other] := by
    rw [hk] at hclick
    cases hclick
    rfl
  obtain rfl : handler = found := by
    change e.handlers[0]?.getD _ = found
    rw [show e.handlers[0]? = some found from hh]
    rfl
  obtain rfl : digger = digging := by
    change e.handlers[1]?.getD _ = digging
    rw [show e.handlers[1]? = some digging from hdigs]
    rfl
  have hcallback : handler.callback = some (.payload "<<set $gold to 3>>") := by
    rw [hlink.callback, MacroCall.linkPayload?, hcontents]
    rfl
  have hruns : RunsPayload (perform Host.idle 20) ⟨0⟩ handler (e.unclick k [other]) [] e₂ := by
    rw [← herrors]
    exact .contents hcallback hrender
  obtain ⟨-, hunmoved, harrives⟩ := hpayload 19 [] e₂ hruns
  obtain ⟨hgone, hthen⟩ := harrives "cave" arrived.1 arrived.2 hthere rfl harrived
  have hclicked : click (perform Host.idle 21) ⟨0⟩ e = (.ok true, arrived.2) := by
    have hstill : e₂.hasPassage "cave" = true := by
      rw [Engine.hasPassage, hunmoved.passages]
      exact hthere
    refine (houtcome Host.idle e e₂ k [other] handler [] 19 hclick hh hlink hruns).trans ?_
    rw [htarget]
    exact linkOutcome_of_navigate hstill (Prod.ext hgone rfl)
  have hwaits := Continues.start.next (.advance 1000) 20 hwaiting
  have hcontinues := Continues.start.next (.advance 1000) 20 hlater
  refine ⟨⟨⟨call, []⟩, start, made.2, hmake, ?_⟩, e, waiting.2, e₂, arrived.2, later.2, handler, _, _,
    hplayed, ⟨hwaits, (hagain hnowhere _ _ hwaits hturns).1⟩, hruns, hunmoved, hclicked, ?_, hcontinues,
    honce (by rw [htarget]; rfl) 21 _ _ _ _ hclicked (returned_ok true) hcontinues _⟩
  · obtain ⟨new, hnew, helement, -⟩ := hmakes 20 ⟨call, []⟩ start made.2 hmake (List.cons_ne_nil _ _)
    exact ⟨new, hnew, helement⟩
  · simp only [State.journey, Prod.mk.injEq] at hjourney
    rw [hthen, hjourney.2.1, hjourney.2.2]
    rfl

/-- A macro of the host may go to a passage itself. Then the contents of an element have moved the
player although the click fails. -/
theorem jump_in_contents_moves :
    let host : Host Unit Unit := fun p _ _ => p (.navigate "B")
    let macros := ((Registry.ofBuiltins .builtin).add ["jump"] { handler := some (.host ()) }).2
    let start : Engine Unit Unit := Engine.ofRegistry {} macros ()
    let story := ((start.addPassage "A" "<<link 'go' 'C'>><<jump>><<nope>><</link>>").addPassage
      "B" "b").addPassage "C" "c"
    let e := (perform host 20 (.navigate "A") story).2
    let clicked := click (perform host 20) ⟨0⟩ e
    e.state.journey = ("A", 1, ["A"]) ∧ e.clickables = [⟨⟨0⟩, ⟨0⟩, true⟩] ∧
      Returned clicked.1 ∧ clicked.1.toBool = false ∧
        clicked.2.state.journey = ("B", 2, ["A", "B"]) := by
  decide +kernel

end StoryEngine
