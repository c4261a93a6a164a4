import StoryEngine.Proofs.Engine.LoopControl
/-!
# StoryEngine.Proofs.Engine.Queue

How the queue of texts behaves. The identity of the next text says how many texts there have been.
That number never goes down, whether a run comes to its end or not (`performsCounting`). In a run
that returns the queue grows by as many texts as there are new ones at most (`Engine.Paced`). A
render does not take any text off the queue as long as one waits (`performsQueueing`): only the text
whose turn has come does, and none gets its turn in the render of another.
-/

namespace StoryEngine
variable {σ α β : Type} {place : Place}

/-! ### How many texts there have been -/

/-- The number of texts there have been does not go down, even if the computation does not come to
its end. -/
def CountsUp (x : Run Empty σ α) (e : Engine Empty σ) : Prop :=
  e.nextTypeId ≤ (x e).2.nextTypeId

namespace CountsUp

variable {x : Run Empty σ α} {e e' : Engine Empty σ}

theorem of_eq {r : Except Halt α} (h : x e = (r, e')) (hle : e.nextTypeId ≤ e'.nextTypeId) :
    CountsUp x e := by
  unfold CountsUp
  rw [h]
  exact hle

theorem bind {f : α → Run Empty σ β} (hx : CountsUp x e)
    (hf : ∀ {a e₁}, x e = (.ok a, e₁) → CountsUp (f a) e₁) : CountsUp (x >>= f) e := by
  rcases h : x e with ⟨halt | a, e₁⟩
  · unfold CountsUp at hx ⊢
    rw [Run.bind_of_error h]
    rw [h] at hx
    exact hx
  · have hfirst : e.nextTypeId ≤ e₁.nextTypeId := by
      unfold CountsUp at hx
      rw [h] at hx
      exact hx
    unfold CountsUp
    rw [Run.bind_of_ok h]
    exact Nat.le_trans hfirst (hf h)

theorem attempt (hx : CountsUp x e) : CountsUp (Run.attempt x) e := by
  unfold CountsUp
  rw [Run.attempt_snd]
  exact hx

/-- The closing change has nothing to do with texts. -/
theorem andFinally {change : Engine Empty σ → Engine Empty σ} (hx : CountsUp x e)
    (hchange : ∀ e', (change e').nextTypeId = e'.nextTypeId) :
    CountsUp (Run.andFinally x change) e := by
  refine bind hx.attempt fun {outcome e₁} _ => ?_
  unfold CountsUp
  cases outcome with
  | ok a => exact Nat.le_of_eq (hchange e₁).symm
  | error f => exact Nat.le_of_eq (hchange e₁).symm

end CountsUp

theorem Change.nextTypeId_le {e e' : Engine Empty σ} (h : Change place e e') :
    e.nextTypeId ≤ e'.nextTypeId := by
  cases h with
  | text h hplace hkind => exact Nat.le_succ _
  | _ => exact Nat.le_refl _

theorem Changes.nextTypeId_le {e e' : Engine Empty σ} (h : Changes place e e') :
    e.nextTypeId ≤ e'.nextTypeId := by
  induction h with
  | refl => exact Nat.le_refl _
  | tail _ hstep ih => exact Nat.le_trans ih hstep.nextTypeId_le

theorem Move.nextTypeId_eq {e e' : Engine Empty σ} (h : Move e e') :
    e'.nextTypeId = e.nextTypeId := by
  cases h <;> rfl

theorem QuickTo.countsUp {P : α → Prop} {x : Run Empty σ α} {e : Engine Empty σ}
    (hx : QuickTo place P x) (he : e.StandsIn place) : CountsUp x e := by
  obtain ⟨r, e', h, hchanges, -, -⟩ := hx e he
  exact .of_eq h hchanges.nextTypeId_le

/-- Tasks count up, and are framed if they return. -/
structure PerformsCounting (p : Perform Empty σ) : Prop where
  counts (t : Task) {place : Place} {e : Engine Empty σ} : e.StandsIn place → CountsUp (p t) e
  framed : Carried.Performs (fun _ => Engine.Frame) (fun _ _ => True) p

/-- All work counts up, however it is made up. -/
theorem Made.countsUp {scope : Scope} {X : Perform Empty σ → Run Empty σ α} {p : Perform Empty σ}
    (hp : PerformsCounting p) (hX : Made scope place X) :
    ∀ {e : Engine Empty σ}, e.StandsIn place → CountsUp (X p) e := by
  have hframe := @Engine.Frame.carried σ
  induction hX with
  | quick hx => exact fun he => hx.countsUp he
  | @after scope place α β P x F hx _ ihF =>
      intro e he
      refine (hx.countsUp he).bind fun {a e₁} h₁ => ?_
      obtain ⟨r, e₂, h₂, -, -, hP⟩ := hx e he
      have he₁ := (hframe.quickTo hx he h₁).1
      rw [h₂] at h₁
      cases h₁
      exact ihF a (hP a rfl) he₁
  | bind hX _ ihX ihF =>
      intro e he
      refine (ihX he).bind fun {a e₁} h₁ => ihF a ?_
      exact (hframe.made hp.framed hX he h₁ (returned_ok a)).1
  | @element scope place α tag F _ ihF =>
      intro e he
      exact ihF ⟨e.tree.elements.size⟩ he.parted.tree.extent.elements (he.newElement tag)
  | attempt _ ihX => exact fun he => (ihX he).attempt
  | render out source => exact fun he => hp.counts _ he
  | start hx _ =>
      intro e he
      refine (hx.countsUp he).bind fun {isNext e₁} h₁ => ?_
      have he₁ := (hframe.quickTo hx he h₁).1
      cases isNext with
      | true => exact hp.counts _ he₁
      | false => exact Nat.le_refl _
  | @call scope place context X _ _ _ ihX =>
      intro e he
      exact (ihX (he.enterCall context)).andFinally fun _ => rfl
  | overlay overlay _ ihX =>
      intro e he
      exact (ihX (he.push overlay)).andFinally fun _ => rfl
  | task => exact fun he => hp.counts _ he
  | @invoke place γ x F id arg hx _ hnone hsome =>
      intro e he
      refine (hx.countsUp he).bind fun {c e₁} h₁ => ?_
      have he₁ := (hframe.quickTo hx he h₁).1
      cases c with
      | none => rw [hnone]; exact Nat.le_refl _
      | some c => rw [hsome]; exact hp.counts _ he₁
  | tick timer id arg =>
      intro e he
      exact (hp.counts (.invoke id arg) (he.beginTick timer)).andFinally fun _ => rfl
  | move hf => exact fun {e} _ => .of_eq rfl (Nat.le_of_eq (hf e).nextTypeId_eq.symm)
  | @deeper place tooDeep X hdeep _ ihX =>
      intro e he
      change e.nextTypeId ≤ (StoryEngine.deeper tooDeep (X p) e).2.nextTypeId
      rw [deeper_apply]
      split
      · rename_i hlt
        exact (ihX (he.descend hlt)).andFinally fun _ => rfl
      · exact hdeep.countsUp he
  | shown source =>
      intro e he
      change e.nextTypeId ≤ (showPassage p source e).2.nextTypeId
      rw [showPassage_apply]
      exact (hp.counts (.render e.display source) he.beginShow).bind fun _ => Nat.le_refl _
  | halt => exact fun _ => Nat.le_refl _

theorem runShadowed_countsUp {id : HandlerId} {callback : Run Empty σ Unit} {e : Engine Empty σ}
    (hcallback : ∀ h, e.handlers[id.index]? = some h → CountsUp callback (e.enterShadow h)) :
    CountsUp (runShadowed id callback) e := by
  unfold CountsUp
  rw [runShadowed_apply]
  cases hh : e.handlers[id.index]? with
  | none => exact Nat.le_refl _
  | some h =>
      refine (hcallback h hh).andFinally fun e' => ?_
      obtain ⟨state, handlers, hleave⟩ :=
        e'.leaveShadow_eq_with id e.state.overlays.length e.current
      rw [hleave]

theorem invokeHandler_countsUp {p : Perform Empty σ} (hp : PerformsCounting p) (id : HandlerId)
    (arg : HandlerArg) {e : Engine Empty σ} (he : e.StandsIn place) :
    CountsUp (invokeHandler (runCallback Host.idle p) id arg) e := by
  have hframe := @Engine.Frame.carried σ
  have hpart (part : Option (Callback Empty)) {place : Place} {e : Engine Empty σ}
      (he : e.StandsIn place) : CountsUp (runPart? (runCallback Host.idle p) arg part) e :=
    (made_runPart? arg part).countsUp hp he
  unfold CountsUp
  rw [invokeHandler, Run.get_bind_apply]
  cases hh : e.handlers[id.index]? with
  | none => exact Nat.le_refl _
  | some h =>
      refine (hpart h.start he).bind fun {u e₁} h₁ => ?_
      have hstart := hframe.made hp.framed (made_runPart? arg h.start) he h₁ (returned_ok u)
      split
      · have hcallback : CountsUp (runShadowed id (runPart? (runCallback Host.idle p) arg h.callback))
            e₁ :=
          runShadowed_countsUp fun handler _ => hpart _ (hstart.1.enterShadow handler)
        refine hcallback.bind fun {u₂ e₂} h₂ => ?_
        have hboth := hframe.runShadowed hp.framed trivial hh hstart h₂ (returned_ok u₂)
        exact hpart _ hboth.1
      · exact hpart _ hstart.1

/-- All tasks count up. -/
theorem performsCounting (n : Nat) : PerformsCounting (perform Host.idle n : Perform Empty σ) where
  framed := Engine.Frame.carried.performs n
  counts t place e he := by
    induction n generalizing t place e with
    | zero => exact Nat.le_refl _
    | succ n ih =>
        have hp : PerformsCounting (perform Host.idle n) := ⟨ih, Engine.Frame.carried.performs n⟩
        cases t with
        | invoke id arg => exact invokeHandler_countsUp hp id arg he
        | _ =>
            refine (made_performTask n ?_).elim fun _ hmade => hmade.countsUp hp he
            exact trivial


/-! ### How many texts wait -/

/-- The work is confined, and the queue has grown by as many texts as are new at most. -/
structure Engine.Paced (place : Place) (e e' : Engine Empty σ) : Prop where
  confined : e.Confined place e'
  pace : e'.texts.length + e.nextTypeId ≤ e.texts.length + e'.nextTypeId

namespace Engine.Paced

variable {e e₁ e' : Engine Empty σ}

theorem ofChange (h : Change place e e') : e.Paced place e' where
  confined := .ofChange h
  pace := by
    cases h with
    | text h hplace hkind =>
        change (e.texts ++ [_]).length + e.nextTypeId ≤ e.texts.length + (e.nextTypeId + 1)
        rw [List.length_append, List.length_singleton]
        omega
    | _ => exact Nat.le_refl _

theorem ofMove (h : Move e e') : e.Paced place e' where
  confined := .ofMove h
  pace := by
    cases h with
    | dequeue hsuffix => exact Nat.add_le_add_right hsuffix.length_le _
    | turn title => exact Nat.add_le_add_right (Nat.zero_le _) _
    | _ => exact Nat.le_refl _

/-- All work is paced. -/
theorem carried : @Carried σ Engine.Paced Engine.MayInvoke :=
  have hconfined := @Engine.Confined.carried σ
  { refl := fun place e => ⟨.refl place e, Nat.le_refl _⟩
    trans := fun h h₁ => ⟨h.confined.trans h₁.confined, by have := h.pace; have := h₁.pace; omega⟩
    change := ofChange
    move := ofMove
    forget := fun h => ⟨h.confined.forget, h.pace⟩
    call := fun houter hfor h => ⟨hconfined.call houter hfor h.confined, h.pace⟩
    overlay := fun overlay h => ⟨hconfined.overlay overlay h.confined, h.pace⟩
    deeper := fun hlt h => ⟨hconfined.deeper hlt h.confined, h.pace⟩
    tick := fun timer h => ⟨hconfined.tick timer h.confined, h.pace⟩
    shown := fun h => ⟨hconfined.shown h.confined, h.pace⟩
    shadow := by
      intro place id h₀ h e e₁ e' hok hh₀ hfirst hh hinner
      refine ⟨hconfined.shadow hok hh₀ hfirst.confined hh hinner.confined, ?_⟩
      obtain ⟨state, handlers, hleave⟩ :=
        e'.leaveShadow_eq_with id e₁.state.overlays.length e₁.current
      rw [hleave]
      have hpace := hfirst.pace
      have hpace₁ : e'.texts.length + e₁.nextTypeId ≤ e₁.texts.length + e'.nextTypeId := hinner.pace
      change e'.texts.length + e.nextTypeId ≤ e.texts.length + e'.nextTypeId
      omega
    due := hconfined.due
    ticking := hconfined.ticking }

end Engine.Paced

/-! ### Renders while texts wait -/

/-- If texts waited before, others were only put behind them. -/
def Engine.Queues (e e' : Engine Empty σ) : Prop :=
  e.texts ≠ [] → e.texts <+: e'.texts

theorem Engine.Queues.refl (e : Engine Empty σ) : e.Queues e :=
  fun _ => List.prefix_refl _

theorem Engine.Queues.trans {e e₁ e' : Engine Empty σ} (h : e.Queues e₁) (h₁ : e₁.Queues e') :
    e.Queues e' := by
  intro hqueue
  have hfirst := h hqueue
  have hqueue₁ : e₁.texts ≠ [] := by
    intro hempty
    rw [hempty, List.prefix_nil] at hfirst
    exact hqueue hfirst
  exact hfirst.trans (h₁ hqueue₁)

theorem Change.queues {e e' : Engine Empty σ} (h : Change place e e') : e.Queues e' := by
  cases h with
  | text h hplace hkind => exact fun _ => List.prefix_append _ _
  | _ => exact Engine.Queues.refl _

theorem Changes.queues {e e' : Engine Empty σ} (h : Changes place e e') : e.Queues e' := by
  induction h with
  | refl => exact .refl e
  | tail _ hstep ih => exact ih.trans hstep.queues

/-- Tasks are framed if they return, and renders among them only queue texts. -/
structure PerformsQueueing (p : Perform Empty σ) : Prop where
  framed : Carried.Performs (fun _ => Engine.Frame) (fun _ _ => True) p
  queues {out : OutputId} {source : String} {place : Place} {e e' : Engine Empty σ}
    {r : Except Halt Unit} : e.StandsIn place → p (.render out source) e = (r, e') →
    Returned r → e.Queues e'

/-- What a render is made up of only queues texts. -/
theorem Made.queues {scope : Scope} {X : Perform Empty σ → Run Empty σ α} {p : Perform Empty σ}
    (hp : PerformsQueueing p) (hX : Made scope place X) (hscope : scope = .rendering) :
    ∀ {e e' : Engine Empty σ} {r : Except Halt α}, e.StandsIn place → X p e = (r, e') →
      Returned r → e.Queues e' := by
  have hframe := @Engine.Frame.carried σ
  induction hX with
  | quick hx =>
      intro e e' r he h _
      obtain ⟨r₁, e₁, h₁, hchanges, -⟩ := hx e he
      cases h₁.symm.trans h
      exact hchanges.queues
  | @after scope place α β P x F hx _ ihF =>
      intro e e' r he h hr
      obtain ⟨r₁, e₁, h₁, hchanges, -, hP⟩ := hx e he
      rcases Run.bind_returned h hr with ⟨a, e₂, h₂, h₃⟩ | ⟨failure, h₂, -⟩
      · rw [h₁] at h₂
        cases h₂
        exact hchanges.queues.trans (ihF a (hP a rfl) hscope (hchanges.standsIn he) h₃ hr)
      · rw [h₁] at h₂
        cases h₂
        exact hchanges.queues
  | bind hX _ ihX ihF =>
      intro e e' r he h hr
      rcases Run.bind_returned h hr with ⟨a, e₁, h₁, h₂⟩ | ⟨failure, h₁, -⟩
      · have he₁ := (hframe.made hp.framed hX he h₁ (returned_ok a)).1
        exact (ihX hscope he h₁ (returned_ok a)).trans (ihF a hscope he₁ h₂ hr)
      · exact ihX hscope he h₁ (returned_failure failure)
  | @element scope place α tag F _ ihF =>
      intro e e' r he h hr
      have hqueues := ihF ⟨e.tree.elements.size⟩ he.parted.tree.extent.elements hscope
        (he.newElement tag) h hr
      exact hqueues
  | attempt _ ihX =>
      intro e e' r he h hr
      obtain ⟨r₁, h₁, hr₁⟩ := Run.attempt_returned h hr
      exact ihX hscope he h₁ hr₁
  | render out source =>
      intro e e' r he h hr
      exact hp.queues he h hr
  | @start scope place x hx hfirst =>
      intro e e' r he h hr hqueue
      obtain ⟨r₁, e₁, h₁, hchanges, -⟩ := hx e he
      rcases Run.bind_returned h hr with ⟨isNext, e₂, h₂, h₃⟩ | ⟨failure, h₂, -⟩
      · cases isNext with
        | true => exact (hqueue (hfirst e e₂ h₂)).elim
        | false =>
            rw [h₁] at h₂
            cases h₂
            cases h₃
            exact hchanges.queues hqueue
      · rw [h₁] at h₂
        cases h₂
        exact hchanges.queues hqueue
  | @call scope place context X _ _ _ ihX =>
      intro e e' r he h hr
      obtain ⟨e₁, h₁, rfl⟩ := Run.andFinally_returned h hr
      have hqueues := ihX hscope (he.enterCall context) h₁ hr
      exact hqueues
  | overlay overlay _ ihX =>
      intro e e' r he h hr
      obtain ⟨e₁, h₁, rfl⟩ := Run.andFinally_returned h hr
      have hqueues := ihX hscope (he.push overlay) h₁ hr
      exact hqueues
  | _ => cases hscope

/-- All renders only queue texts. -/
theorem performsQueueing (n : Nat) : PerformsQueueing (perform Host.idle n : Perform Empty σ) where
  framed := Engine.Frame.carried.performs n
  queues {out source place e e' r} he h hr := by
    induction n generalizing out source place e e' r with
    | zero => cases h; exact (hr rfl).elim
    | succ n ih =>
        have hp : PerformsQueueing (perform Host.idle n) := ⟨Engine.Frame.carried.performs n, ih⟩
        change render (runHandler Host.idle (perform Host.idle n)) out source e = (r, e') at h
        rw [render, deeper_apply] at h
        split at h
        · rename_i hlt
          obtain ⟨e₁, h₁, rfl⟩ := Run.andFinally_returned h hr
          have hqueues := (made_renderSegments out 0 (segmentsOf source)).queues hp rfl
            (he.descend hlt) h₁ hr
          exact hqueues
        · cases h
          exact .refl e

end StoryEngine
