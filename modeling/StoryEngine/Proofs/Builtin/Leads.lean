import StoryEngine.Proofs.Builtin.Passes
/-!
# StoryEngine.Proofs.Builtin.Leads

What is told of a loop is what running it comes to: renders that lead where the rendering says
(`Performs`) make each loop lead where `Loops` says (`leads_runLoop`). So there is one engine in
which a loop ends, and `Loops` tells which.
-/

namespace StoryEngine

variable {σ α β : Type}

/-- With enough fuel the computation leads from one engine to another. -/
def Leads (X : Nat → Run Empty σ α) (e : Engine Empty σ) (r : Except Halt α)
    (e' : Engine Empty σ) : Prop :=
  ∃ N, ∀ n ≥ N, X n e = (r, e')

namespace Leads

variable {X Y : Nat → Run Empty σ α} {e e₁ e' : Engine Empty σ} {r : Except Halt α}

theorem always (h : ∀ n, X n e = (r, e')) : Leads X e r e' :=
  ⟨0, fun n _ => h n⟩

/-- A computation that is another one on another engine. -/
theorem congr (hX : Leads X e₁ r e') (h : ∀ n, Y n e = X n e₁) : Leads Y e r e' := by
  obtain ⟨N, hX⟩ := hX
  exact ⟨N, fun n hn => (h n).trans (hX n hn)⟩

theorem bind {a : α} {F : Nat → α → Run Empty σ β} {r : Except Halt β}
    (hX : Leads X e (.ok a) e₁) (hF : Leads (fun n => F n a) e₁ r e') :
    Leads (fun n => X n >>= F n) e r e' := by
  obtain ⟨N, hX⟩ := hX
  obtain ⟨M, hF⟩ := hF
  refine ⟨max N M, fun n hn => ?_⟩
  have hfirst := hX n (Nat.le_trans (Nat.le_max_left N M) hn)
  exact (Run.bind_of_ok hfirst).trans (hF n (Nat.le_trans (Nat.le_max_right N M) hn))

theorem andFinally (hX : Leads X e r e') (hr : Returned r)
    (change : Engine Empty σ → Engine Empty σ) :
    Leads (fun n => Run.andFinally (X n) change) e r (change e') := by
  obtain ⟨N, hX⟩ := hX
  exact ⟨N, fun n hn => Run.andFinally_of_returned change (hX n hn) hr⟩

theorem unique {r₁ : Except Halt α} {e₂ : Engine Empty σ} (h : Leads X e r e')
    (h₁ : Leads X e r₁ e₂) : r = r₁ ∧ e' = e₂ := by
  obtain ⟨N, h⟩ := h
  obtain ⟨M, h₁⟩ := h₁
  have hsame := (h (max N M) (Nat.le_max_left N M)).symm.trans
    (h₁ (max N M) (Nat.le_max_right N M))
  exact Prod.mk.inj hsame

end Leads

/-- With enough fuel renders lead where the rendering says. -/
def Performs (P : Nat → Perform Empty σ) (R : Rendering σ) : Prop :=
  ∀ {out source e wish e'}, e.loopBreak = none → R out source e wish e' →
    e'.loopBreak = none ∧
      Leads (fun n => P n (.render out source)) e (.ok ()) { e' with loopBreak := wish }

namespace Builtin

theorem Stays.loopBreak_eq {α : Type} {x : Run Empty σ α} {e e' : Engine Empty σ}
    {r : Except Halt α} (hx : Stays x e) (h : x e = (r, e')) : e'.loopBreak = e.loopBreak := by
  obtain ⟨a, e₁, hrun, he₁⟩ := hx
  cases hrun.symm.trans h
  exact he₁

theorem loopBreak_of_setVariable {value : Value} {name : Option String} {e e' : Engine Empty σ}
    (h : setVariable value name e = (.ok (), e')) : e'.loopBreak = e.loopBreak := by
  cases name with
  | none =>
      cases h
      rfl
  | some name =>
      rw [setVariable, changingState_apply] at h
      split at h <;> cases h
      rfl

variable {R : Rendering σ} {P : Nat → Perform Empty σ} {e₀ e e' : Engine Empty σ}

theorem leads_renderPass (hP : Performs P R) {call : MacroCall Empty} {body : List Char}
    {isFirst : Bool} {wish : Option LoopBreak} (he : e.loopBreak = none)
    (h : PassRuns R call body isFirst e wish e') :
    e'.loopBreak = none ∧
      Leads (fun n => renderPass (P n) call body isFirst) e
        (.ok (decide (wish = some .«break»))) e' := by
  cases h with
  | rendered htarget hR =>
      have he₁ := (stays_target call e).loopBreak_eq htarget
      obtain ⟨he', hrender⟩ := hP (he₁.trans he) hR
      have htake : takeBreak { e' with loopBreak := wish } =
          (.ok (decide (wish = some .«break»)), e'.stay) := rfl
      rw [Engine.stay_of_none he'] at htake
      exact ⟨he', (hrender.bind (.always fun _ => htake)).congr fun _ => Run.bind_of_ok htarget⟩

/-! ### Loops with conditions -/

section While

variable {loop : WhileLoop} {limit k : Nat}

/-- What is left of a loop after complete passes, all of it is. -/
theorem Iterates.leads (hP : Performs P R) (h : Iterates R loop e₀ k e)
    (he₀ : e₀.loopBreak = none) :
    e.loopBreak = none ∧ ∀ (remaining : Nat) {r : Except Halt Unit} {e' : Engine Empty σ},
      Leads (fun n => loopSteps (P n) loop.call loop.body loop.condition loop.post remaining
        (k == 0)) e r e' →
      Leads (fun n => loopSteps (P n) loop.call loop.body loop.condition loop.post
        (k + remaining) true) e₀ r e' := by
  induction h with
  | start => exact ⟨he₀, fun _ _ _ hrest => by rwa [Nat.zero_add]⟩
  | @pass e e₁ e₂ e₃ k wish _ hcondition hpass hleave hpost ih =>
      obtain ⟨he, ih⟩ := ih
      have he₁ := (stays_conditionHolds loop.condition e).loopBreak_eq hcondition
      obtain ⟨he₂, hrender⟩ := leads_renderPass hP (he₁.trans he) hpass
      have he₃ := (stays_evaluatePart loop.post e₂).loopBreak_eq hpost
      refine ⟨he₃.trans he₂, fun remaining r e' hrest => ?_⟩
      rw [Nat.succ_add_eq_add_succ]
      refine ih _ ((hrender.bind ?_).congr fun n =>
        loopSteps_pass hcondition (P n) remaining (k == 0))
      simp only [hleave, decide_false, Bool.false_eq_true, if_false]
      exact hrest.congr fun _ => Run.bind_of_ok hpost

/-- Where the condition does not hold, a loop ends with what is told of that. -/
theorem leads_of_condition {holds : Except ExprError Bool} {e₁ : Engine Empty σ}
    {call : MacroCall Empty} {body : List Char} {condition post : Option String} {isFirst : Bool}
    (hcondition : conditionHolds condition e = (.ok holds, e₁)) (remaining : Nat) :
    match holds with
    | .ok true => True
    | .ok false =>
      Leads (fun n => loopSteps (P n) call body condition post remaining isFirst) e (.ok ()) e₁
    | .error error =>
      Leads (fun n => loopSteps (P n) call body condition post remaining isFirst) e (.ok ())
        (e₁.afterError call ("bad conditional expression: " ++ error.message)) := by
  match holds, hcondition with
  | .ok true, _ => trivial
  | .ok false, hcondition =>
      refine .always fun n => ?_
      cases remaining <;> (rw [loopSteps, Run.bind_of_ok hcondition]; rfl)
  | .error error, hcondition =>
      refine .always fun n => ?_
      cases remaining <;> (rw [loopSteps, Run.bind_of_ok hcondition]; rfl)

/-- Running a loop leads where it is told to end. -/
theorem WhileEnds.leads (hP : Performs P R) (h : WhileEnds R loop limit e₀ e')
    (he₀ : e₀.loopBreak = none) :
    e'.loopBreak = none ∧
      Leads (fun n => loopSteps (P n) loop.call loop.body loop.condition loop.post limit true)
        e₀ (.ok ()) e' := by
  cases h with
  | @done k _ e _ hpasses hle hcondition =>
      obtain ⟨he, hback⟩ := hpasses.leads hP he₀
      have he' := (stays_conditionHolds loop.condition e).loopBreak_eq hcondition
      obtain ⟨more, rfl⟩ := Nat.exists_eq_add_of_le hle
      exact ⟨he'.trans he, hback more (leads_of_condition hcondition more)⟩
  | @badCondition k _ e e₁ error hpasses hle hcondition =>
      obtain ⟨he, hback⟩ := hpasses.leads hP he₀
      have he₁ := (stays_conditionHolds loop.condition e).loopBreak_eq hcondition
      obtain ⟨more, rfl⟩ := Nat.exists_eq_add_of_le hle
      exact ⟨he₁.trans he, hback more (leads_of_condition hcondition more)⟩
  | @tooMany _ e e₁ hpasses hcondition =>
      obtain ⟨he, hback⟩ := hpasses.leads hP he₀
      have he₁ := (stays_conditionHolds loop.condition e).loopBreak_eq hcondition
      refine ⟨he₁.trans he, hback 0 (.always fun n => ?_)⟩
      rw [loopSteps, Run.bind_of_ok hcondition]
      rfl
  | @left k _ e e₁ _ hpasses hlt hcondition hpass =>
      obtain ⟨he, hback⟩ := hpasses.leads hP he₀
      have he₁ := (stays_conditionHolds loop.condition e).loopBreak_eq hcondition
      obtain ⟨he', hrender⟩ := leads_renderPass hP (he₁.trans he) hpass
      obtain ⟨more, rfl⟩ := Nat.exists_eq_add_of_lt hlt
      refine ⟨he', hback _ ((hrender.bind ?_).congr fun n =>
        loopSteps_pass hcondition (P n) more (k == 0))⟩
      exact .always fun _ => rfl
  | @badPost k _ e e₁ e₂ e₃ wish error hpasses hlt hcondition hpass hleave hpost =>
      obtain ⟨he, hback⟩ := hpasses.leads hP he₀
      have he₁ := (stays_conditionHolds loop.condition e).loopBreak_eq hcondition
      obtain ⟨he₂, hrender⟩ := leads_renderPass hP (he₁.trans he) hpass
      have he₃ := (stays_evaluatePart loop.post e₂).loopBreak_eq hpost
      obtain ⟨more, rfl⟩ := Nat.exists_eq_add_of_lt hlt
      refine ⟨he₃.trans he₂, hback _ ((hrender.bind ?_).congr fun n =>
        loopSteps_pass hcondition (P n) more (k == 0))⟩
      simp only [hleave, decide_false, Bool.false_eq_true, if_false]
      refine .always fun _ => ?_
      rw [Run.bind_of_ok hpost]
      rfl

end While

/-! ### Loops over entries -/

section Range

variable {loop : RangeLoop} {limit k : Nat}

theorem leads_entry (hP : Performs P R) (he : e.loopBreak = none) {wish : Option LoopBreak}
    (h : EntryRuns R loop k e wish e') {entries : RangeEntries}
    (hrest : loop.entries.drop k = entries.toList) :
    e'.loopBreak = none ∧ ∃ rest : RangeEntries, loop.entries.drop (k + 1) = rest.toList ∧
      ∀ {remaining : Nat} {r : Except Halt Unit} {e₁ : Engine Empty σ},
        Leads (fun n => if wish = some .«break» then pure ()
          else loopRange (P n) loop.call loop.body loop.key loop.value remaining false rest)
          e' r e₁ →
        Leads (fun n => loopRange (P n) loop.call loop.body loop.key loop.value (remaining + 1)
          (k == 0) entries) e r e₁ := by
  cases h with
  | @entry key value _ _ e₁ e₂ _ hentry hkeyed hvalued hpass =>
      have he₂ := (loopBreak_of_setVariable hvalued).trans (loopBreak_of_setVariable hkeyed)
      obtain ⟨he', hrender⟩ := leads_renderPass hP (he₂.trans he) hpass
      refine ⟨he', ?_⟩
      obtain ⟨hlt, hat⟩ := List.getElem?_eq_some_iff.mp hentry
      rcases entries.next?_eq with ⟨-, hnil⟩ | ⟨entry, rest, hnext, hcons⟩
      · exact absurd (List.drop_eq_nil_iff.mp (hrest.trans hnil)) (Nat.not_le_of_lt hlt)
      · obtain ⟨-, hsome, htail⟩ := of_drop_cons (hrest.trans hcons)
        cases hentry.symm.trans hsome
        refine ⟨rest, htail, fun {remaining r e₁} hleads => ?_⟩
        refine (hrender.bind ?_).congr fun n =>
          loopRange_pass hnext hkeyed hvalued (P n) remaining (k == 0)
        simpa only [decide_eq_true_eq] using hleads

/-- What is left of a loop over entries after passes for the first of them, all of it is. -/
theorem Walks.leads (hP : Performs P R) (h : Walks R loop e₀ k e) (he₀ : e₀.loopBreak = none)
    {entries : RangeEntries} (hentries : loop.entries = entries.toList) :
    e.loopBreak = none ∧ ∃ rest : RangeEntries, loop.entries.drop k = rest.toList ∧
      ∀ (remaining : Nat) {r : Except Halt Unit} {e' : Engine Empty σ},
        Leads (fun n => loopRange (P n) loop.call loop.body loop.key loop.value remaining
          (k == 0) rest) e r e' →
        Leads (fun n => loopRange (P n) loop.call loop.body loop.key loop.value
          (k + remaining) true entries) e₀ r e' := by
  induction h with
  | start => exact ⟨he₀, entries, hentries, fun _ _ _ hrest => by rwa [Nat.zero_add]⟩
  | @pass e e₁ k wish _ hentry hleave ih =>
      obtain ⟨he, rest, hrest, hback⟩ := ih
      obtain ⟨he₁, more, hmore, hpass⟩ := leads_entry hP he hentry hrest
      refine ⟨he₁, more, hmore, fun remaining r e' hleads => ?_⟩
      rw [Nat.succ_add_eq_add_succ]
      refine hback _ (hpass ?_)
      simp only [hleave, if_false]
      exact hleads

/-- Running a loop over entries leads where it is told to end. -/
theorem RangeEnds.leads (hP : Performs P R) (h : RangeEnds R loop limit e₀ e')
    (he₀ : e₀.loopBreak = none) {entries : RangeEntries}
    (hentries : loop.entries = entries.toList) :
    e'.loopBreak = none ∧
      Leads (fun n => loopRange (P n) loop.call loop.body loop.key loop.value limit true entries)
        e₀ (.ok ()) e' := by
  cases h with
  | done hpasses hle =>
      obtain ⟨he', rest, hrest, hback⟩ := hpasses.leads hP he₀ hentries
      obtain ⟨more, rfl⟩ := Nat.exists_eq_add_of_le hle
      refine ⟨he', hback more (.always fun n => loopRange_done ?_ (P n) more _)⟩
      rcases rest.next?_eq with ⟨hnext, -⟩ | ⟨entry, rest, -, hcons⟩
      · exact hnext
      · rw [List.drop_length] at hrest
        exact absurd (hrest.trans hcons) nofun
  | @tooMany _ e hpasses hlt =>
      obtain ⟨he, rest, hrest, hback⟩ := hpasses.leads hP he₀ hentries
      rcases rest.next?_eq with ⟨-, hnil⟩ | ⟨entry, more, hnext, -⟩
      · exact absurd (List.drop_eq_nil_iff.mp (hrest.trans hnil)) (Nat.not_le_of_lt hlt)
      · exact ⟨he, hback 0 (.always fun n => loopRange_zero hnext (P n) _)⟩
  | @left k _ e _ hpasses hlt hentry =>
      obtain ⟨he, rest, hrest, hback⟩ := hpasses.leads hP he₀ hentries
      obtain ⟨he', more, hmore, hpass⟩ := leads_entry hP he hentry hrest
      obtain ⟨remaining, rfl⟩ := Nat.exists_eq_add_of_lt hlt
      exact ⟨he', hback _ (hpass (.always fun _ => rfl))⟩

end Range

/-! ### Loops -/

/-- Running a loop of a form leads where it is told to. -/
theorem Loops.leads (hP : Performs P R) {call : MacroCall Empty} {body : List Char}
    {form : LoopForm} (h : Loops R call body form e e') (he : e.loopBreak = none) :
    e'.loopBreak = none ∧ Leads (fun n => runForm (P n) call body form) e (.ok ()) e' := by
  cases h with
  | malformed => exact ⟨he, .always fun _ => rfl⟩
  | @badInit init _ _ _ e₁ e₂ error hhidden hinit =>
      have he₁ := (stays_hideBlank call body e).loopBreak_eq hhidden
      have he₂ := (stays_evaluatePart init e₁).loopBreak_eq hinit
      refine ⟨he₂.trans (he₁.trans he), .always fun n => ?_⟩
      rw [runForm, Run.bind_of_ok hhidden, Run.bind_of_ok hinit]
      rfl
  | @steps init _ _ _ e₁ e₂ _ hhidden hinit hends =>
      have he₁ := (stays_hideBlank call body e).loopBreak_eq hhidden
      have he₂ := (stays_evaluatePart init e₁).loopBreak_eq hinit
      obtain ⟨he', hleads⟩ := hends.leads hP (he₂.trans (he₁.trans he))
      refine ⟨he', hleads.congr fun n => ?_⟩
      rw [runForm, Run.bind_of_ok hhidden, Run.bind_of_ok hinit]
      rfl
  | badRange hvalued =>
      have he₁ := congrArg (·.2.loopBreak) hvalued
      refine ⟨he₁.symm.trans he, .always fun n => ?_⟩
      rw [runForm, Run.bind_of_ok hvalued]
      rfl
  | noRange hvalued hentries =>
      have he₁ := congrArg (·.2.loopBreak) hvalued
      refine ⟨he₁.symm.trans he, .always fun n => ?_⟩
      rw [runForm, Run.bind_of_ok hvalued]
      simp only [hentries]
      rfl
  | @range _ _ _ v entries _ e₁ e₂ _ hvalued hentries hhidden hends =>
      have he₁ : e₁.loopBreak = none := (congrArg (·.2.loopBreak) hvalued).symm.trans he
      have he₂ := (stays_hideBlank call body e₁).loopBreak_eq hhidden
      obtain ⟨he', hleads⟩ := hends.leads hP (he₂.trans he₁) rfl
      refine ⟨he', hleads.congr fun n => ?_⟩
      rw [runForm, Run.bind_of_ok hvalued]
      simp only [hentries]
      rw [Run.bind_of_ok hhidden]
      rfl

/-- Running a loop leads where it is told to. -/
theorem leads_runLoop (hP : Performs P R) {call : MacroCall Empty}
    (h : Loops R call (loopBody call) (loopForm call) e.stay e') :
    e'.loopBreak = none ∧ Leads (fun n => runLoop (P n) call) e (.ok ()) e' := by
  obtain ⟨he', hleads⟩ := h.leads hP rfl
  refine ⟨he', ?_⟩
  have hfinally := hleads.andFinally (returned_ok ()) Engine.stay
  rw [Engine.stay_of_none he'] at hfinally
  refine hfinally.congr fun n => ?_
  rw [runLoop, asLoop, Run.modify_bind_apply]
  rfl

end Builtin

end StoryEngine
