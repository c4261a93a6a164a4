import StoryEngine.Engine.Perform
import StoryEngine.Proofs.Engine.Call
/-!
# StoryEngine.Proofs.Engine.Choice

What a conditional does with its clauses. Their form is checked before anything is evaluated: a
malformed clause is all that is complained about, and leaves the variables as they are
(`firstFault?_of_malformed`). Clauses that are well formed come to a decision (`Decides`): the
conditions are evaluated in order, each on what the one before it left, and there is nothing more to
evaluate behind one that holds or fails. The decision is carried out where the call stands
(`choice_rendered`).
-/

namespace StoryEngine

variable {η σ : Type}

/-! ### The form of clauses -/

/-- The clause has the form that it needs in front of a number of others: an `else` has no
arguments and is the last clause, and any other clause has a condition. -/
def PayloadClause.WellFormed (clause : PayloadClause) (following : Nat) : Prop :=
  if clause.name = "else" then trimText clause.args.raw = "" ∧ following = 0
  else trimText clause.args.raw ≠ ""

/-- Some clause does not have the form that it needs where it stands. -/
def Malformed (clauses : List PayloadClause) : Prop :=
  ∃ before clause after, clauses = before ++ clause :: after ∧ ¬ clause.WellFormed after.length

theorem malformed_cons {clause : PayloadClause} {rest : List PayloadClause} :
    Malformed (clause :: rest) ↔ ¬ clause.WellFormed rest.length ∨ Malformed rest := by
  constructor
  · rintro ⟨before, faulty, after, heq, hfault⟩
    cases before with
    | nil =>
        cases heq
        exact .inl hfault
    | cons first before =>
        cases heq
        exact .inr ⟨before, faulty, after, rfl, hfault⟩
  · rintro (hfault | ⟨before, faulty, after, rfl, hfault⟩)
    · exact ⟨[], clause, rest, rfl, hfault⟩
    · exact ⟨clause :: before, faulty, after, rfl, hfault⟩

namespace Builtin

theorem clauseFault?_eq_none {index following : Nat} {clause : PayloadClause} :
    clauseFault? false index following clause = none ↔ clause.WellFormed following := by
  rw [clauseFault?, PayloadClause.WellFormed]
  by_cases helse : clause.name = "else"
  · rw [if_pos (beq_iff_eq.mpr helse), if_pos helse]
    by_cases hblank : trimText clause.args.raw = ""
    · rw [if_neg (by simp [hblank])]
      by_cases hlast : following = 0
      · rw [if_neg (not_not.mpr hlast)]
        exact iff_of_true rfl ⟨hblank, hlast⟩
      · rw [if_pos hlast]
        exact iff_of_false nofun fun h => hlast h.2
    · rw [if_pos (by simpa using hblank)]
      split <;> exact iff_of_false nofun fun h => hblank h.1
  · rw [if_neg (by simpa using helse), if_neg helse]
    by_cases hblank : trimText clause.args.raw = ""
    · rw [if_pos (by simp [hblank])]
      exact iff_of_false nofun (not_not.mpr hblank)
    · rw [if_neg (by simpa using hblank)]
      exact iff_of_true rfl hblank

/-- The complaint is about the first clause with a fault. -/
theorem firstFault?_of_malformed {clauses : List PayloadClause} (h : Malformed clauses)
    (index : Nat) :
    ∃ before clause after fault, clauses = before ++ clause :: after ∧
      clauseFault? false (index + before.length) after.length clause = some fault ∧
      firstFault? false index clauses = some fault := by
  induction clauses generalizing index with
  | nil =>
      obtain ⟨before, clause, after, heq, -⟩ := h
      simp at heq
  | cons clause rest ih =>
      rw [firstFault?]
      cases hfault : clauseFault? false index rest.length clause with
      | some fault => exact ⟨[], clause, rest, fault, rfl, hfault, rfl⟩
      | none =>
          have hrest : Malformed rest :=
            (malformed_cons.mp h).resolve_left (not_not.mpr (clauseFault?_eq_none.mp hfault))
          obtain ⟨before, faulty, after, fault, rfl, hfaulty, hfirst⟩ := ih hrest (index + 1)
          refine ⟨clause :: before, faulty, after, fault, rfl, ?_, hfirst⟩
          rw [List.length_cons, ← Nat.add_assoc, Nat.add_right_comm]
          exact hfaulty

theorem firstFault?_of_not_malformed {clauses : List PayloadClause} (h : ¬ Malformed clauses)
    (index : Nat) : firstFault? false index clauses = none := by
  induction clauses generalizing index with
  | nil => rfl
  | cons clause rest ih =>
      obtain ⟨hclause, hrest⟩ := not_or.mp (malformed_cons.not.mp h)
      rw [firstFault?, clauseFault?_eq_none.mpr (not_not.mp hclause)]
      exact ih hrest (index + 1)

end Builtin

/-! ### Decisions -/

/-- What the conditions of clauses come to. -/
inductive Decision where
  /-- The clause is to be rendered. -/
  | chosen (clause : PayloadClause)
  /-- The condition of the clause at the index has an error. -/
  | failed (index : Nat) (error : ExprError)
  /-- No clause is to be rendered. -/
  | nothing

/-- Clauses, the first of which has the index, come to a decision. The variables are left as the
conditions evaluated for that leave them. -/
inductive Decides : Nat → List PayloadClause → State → Decision → State → Prop where
  /-- There are no more clauses. -/
  | nothing {index : Nat} {s : State} : Decides index [] s .nothing s
  /-- An `else` is chosen without evaluating anything. -/
  | otherwise {index : Nat} {clause : PayloadClause} {rest : List PayloadClause} {s : State} :
      clause.name = "else" → Decides index (clause :: rest) s (.chosen clause) s
  /-- A condition that holds is the last that is evaluated. -/
  | holds {index : Nat} {clause : PayloadClause} {rest : List PayloadClause} {s s' : State} :
      clause.name ≠ "else" → evaluateCondition clause.args.raw s = (.ok true, s') →
      Decides index (clause :: rest) s (.chosen clause) s'
  /-- A condition that fails is the last that is evaluated. -/
  | fails {index : Nat} {clause : PayloadClause} {rest : List PayloadClause} {s s' : State}
      {error : ExprError} :
      clause.name ≠ "else" → evaluateCondition clause.args.raw s = (.error error, s') →
      Decides index (clause :: rest) s (.failed index error) s'
  /-- The clauses behind a condition that does not hold decide, on what it left. -/
  | declines {index : Nat} {clause : PayloadClause} {rest : List PayloadClause}
      {s s₁ s' : State} {decision : Decision} :
      clause.name ≠ "else" → evaluateCondition clause.args.raw s = (.ok false, s₁) →
      Decides (index + 1) rest s₁ decision s' → Decides index (clause :: rest) s decision s'

namespace Decides

theorem total (index : Nat) (clauses : List PayloadClause) (s : State) :
    ∃ decision s', Decides index clauses s decision s' := by
  induction clauses generalizing index s with
  | nil => exact ⟨_, _, .nothing⟩
  | cons clause rest ih =>
      by_cases helse : clause.name = "else"
      · exact ⟨_, _, .otherwise helse⟩
      · rcases hcondition : evaluateCondition clause.args.raw s with ⟨error | (_ | _), s₁⟩
        · exact ⟨_, _, .fails helse hcondition⟩
        · obtain ⟨decision, s', h⟩ := ih (index + 1) s₁
          exact ⟨decision, s', .declines helse hcondition h⟩
        · exact ⟨_, _, .holds helse hcondition⟩

end Decides

theorem eq_ok_of_toOption {x : Evaluation Bool} {s : State} {b : Bool}
    (h : Except.toOption (x s).1 = some b) : x s = (.ok b, (x s).2) := by
  rcases hx : x s with ⟨error | value, s'⟩
  · rw [hx] at h
    cases h
  · rw [hx] at h
    cases h
    rfl

/-! ### Carrying out a decision -/

namespace Builtin

/-- The complaint about the condition of the clause at an index. -/
def badCondition (index : Nat) (error : ExprError) : String :=
  "bad conditional expression in <<" ++ (if index = 0 then "if" else "elseif") ++ ">> clause" ++
    clauseNumber index ++ ": " ++ error.message

/-- Do what was decided. -/
def carryOut (p : Perform η σ) (call : MacroCall η) : Decision → Run η σ Unit
  | .chosen clause => p (.render call.output clause.contents)
  | .failed index error => call.error (badCondition index error)
  | .nothing => pure ()

variable {call : MacroCall η} {e : Engine η σ}

theorem chooseFrom_cons (p : Perform η σ) (index : Nat) (clause : PayloadClause)
    (rest : List PayloadClause) (e : Engine η σ) :
    chooseFrom p call false index (clause :: rest) e =
      (clauseHolds clause >>= fun
        | .error error => call.error (badCondition index error)
        | .ok true => do
          p (.render (← call.target) clause.contents)
          closingViews call false true rest
        | .ok false => do
          call.showModes ["hidden", "invalid"]
          chooseFrom p call false (index + 1) rest) e := rfl

/-- The contents of the clause are rendered, and there are no views to close. -/
theorem renderChosen_apply (hplain : call.IsPlain e) (p : Perform η σ) (clause : PayloadClause)
    (rest : List PayloadClause) :
    (do
      p (.render (← call.target) clause.contents)
      closingViews call false true rest : Run η σ Unit) e =
      carryOut p call (.chosen clause) e := by
  rw [Run.bind_of_ok hplain.target_apply]
  exact congrFun (bind_pure (p (.render call.output clause.contents))) e

theorem clauseHolds_of_else {clause : PayloadClause} (helse : clause.name = "else") :
    clauseHolds clause e = (.ok (.ok true), e) := by
  rw [clauseHolds, if_pos (beq_iff_eq.mpr helse)]
  rfl

theorem clauseHolds_of_condition {clause : PayloadClause} (helse : clause.name ≠ "else") {s : State}
    {r : Except ExprError Bool} (h : evaluateCondition clause.args.raw e.state = (r, s)) :
    clauseHolds clause e = (.ok r, { e with state := s }) := by
  rw [clauseHolds, if_neg (by simpa using helse), Run.evaluating_apply, h]

/-- A call that makes no debug views does what its clauses come to. -/
theorem chooseFrom_of_decides {index : Nat} {clauses : List PayloadClause} {s s' : State}
    {decision : Decision} (h : Decides index clauses s decision s') (hs : e.state = s)
    (hplain : call.IsPlain e) (p : Perform η σ) :
    chooseFrom p call false index clauses e = carryOut p call decision { e with state := s' } := by
  induction h generalizing e with
  | nothing =>
      subst hs
      rfl
  | otherwise helse =>
      subst hs
      rw [chooseFrom_cons, Run.bind_of_ok (clauseHolds_of_else helse)]
      exact renderChosen_apply hplain p _ _
  | @holds index clause rest s s' helse hcondition =>
      subst hs
      have hplain' : call.IsPlain { e with state := s' } := hplain
      rw [chooseFrom_cons, Run.bind_of_ok (clauseHolds_of_condition helse hcondition)]
      exact renderChosen_apply hplain' p _ _
  | fails helse hcondition =>
      subst hs
      rw [chooseFrom_cons, Run.bind_of_ok (clauseHolds_of_condition helse hcondition)]
      rfl
  | @declines index clause rest s s₁ s' decision helse hcondition _ ih =>
      subst hs
      have hplain' : call.IsPlain { e with state := s₁ } := hplain
      rw [chooseFrom_cons, Run.bind_of_ok (clauseHolds_of_condition helse hcondition)]
      dsimp only
      rw [Run.bind_of_ok (hplain'.showModes_apply _)]
      exact ih rfl hplain'

theorem runChoose_of_malformed (hdebug : e.config.debug = false)
    (h : Malformed call.payload) (p : Perform η σ) :
    ∃ before clause after fault, call.payload = before ++ clause :: after ∧
      clauseFault? false before.length after.length clause = some fault ∧
      runChoose p call e = call.error fault e := by
  obtain ⟨before, clause, after, fault, heq, hfault, hfirst⟩ := firstFault?_of_malformed h 0
  rw [Nat.zero_add] at hfault
  refine ⟨before, clause, after, fault, heq, hfault, ?_⟩
  rw [runChoose, Run.get_bind_apply, hdebug, hfirst]

theorem runChoose_of_decides (hdebug : e.config.debug = false) (hplain : call.IsPlain e)
    (hformed : ¬ Malformed call.payload) {decision : Decision} {s' : State}
    (h : Decides 0 call.payload e.state decision s') (p : Perform η σ) :
    runChoose p call e = carryOut p call decision { e with state := s' } := by
  rw [runChoose, Run.get_bind_apply, hdebug, firstFault?_of_not_malformed hformed]
  exact chooseFrom_of_decides h rfl hplain p

end Builtin

/-- The tag of a conditional: one call is executed, whatever stands behind the macro's name. -/
theorem renderTag_choose {entry : MacroEntry (Handler η)} {tag : Tag} {following : List Segment}
    {body : Body} {e : Engine η σ} (hentry : e.registry.get? tag.name = some entry)
    (hdefinition : entry.definition = Builtin.choose.definition (.builtin .choose))
    (hname : tag.name.isEmpty = false)
    (hbody : bodyFrom tag.name ["elseif", "else"] 0 (.ofTag tag) 0 following = .ok body)
    (host : Host η σ) (p : Perform η σ) (out : OutputId) :
    renderTag (runHandler host p) out tag following e =
      (executeCall (Builtin.runChoose p ·.call)
        (e.callContext out entry tag.name (.unparsed tag.args) (body.clauses.map Clause.unparsed)
          (tag.source ++ String.join ((following.take body.next).map (·.source)))) >>= fun _ =>
        pure body.next) e.addCall := by
  have hhandler : entry.definition.handler = some (.builtin .choose) := by
    rw [hdefinition]
    rfl
  have hcontainer : entry.definition.isContainer = true := by
    rw [hdefinition]
    rfl
  have hskip : entry.definition.skipArgs = true := by
    rw [hdefinition]
    rfl
  have hchildren : entry.definition.childTags = ["elseif", "else"] := by
    rw [hdefinition]
    rfl
  rw [← hchildren] at hbody
  exact renderTag_unparsed hentry hhandler hcontainer hskip hname hbody _

/-- A conditional with a malformed clause shows one error and changes nothing else, so that no
condition is evaluated. The conditions of one without are evaluated in order, each on what the one
before it left and none behind the first that holds or fails: the clause that is chosen by that is
rendered where the call stands, a condition that failed is complained about with one error, and
otherwise nothing is shown. -/
theorem choice_rendered {entry : MacroEntry (Handler η)} {tag : Tag} {following : List Segment}
    {body : Body} {e : Engine η σ} (hdebug : e.config.debug = false)
    (hentry : e.registry.get? tag.name = some entry)
    (hdefinition : entry.definition = Builtin.choose.definition (.builtin .choose))
    (hname : tag.name.isEmpty = false)
    (hbody : bodyFrom tag.name ["elseif", "else"] 0 (.ofTag tag) 0 following = .ok body)
    (host : Host η σ) (p : Perform η σ) (out : OutputId) :
    let clauses := body.clauses.map Clause.unparsed
    let source := tag.source ++ String.join ((following.take body.next).map (·.source))
    let context := e.callContext out entry tag.name (.unparsed tag.args) clauses source
    let rendered := renderTag (runHandler host p) out tag following e
    (Malformed clauses →
      ∃ before clause after fault, clauses = before ++ clause :: after ∧
        Builtin.clauseFault? false before.length after.length clause = some fault ∧
        rendered = (.ok body.next, { e.addCall with
          tree := e.tree.appendError out (context.call.errorText fault) source })) ∧
    (¬ Malformed clauses →
      (∃ decision s', Decides 0 clauses e.state decision s') ∧
      ∀ decision s', Decides 0 clauses e.state decision s' →
        match decision with
        | .chosen clause =>
          rendered = (executeCall (fun _ => p (.render out clause.contents)) context >>= fun _ =>
            pure body.next) { e.addCall with state := s' }
        | .failed index error =>
          rendered = (.ok body.next, { e.addCall with
            state := s'
            tree := e.tree.appendError out
              (context.call.errorText (Builtin.badCondition index error)) source })
        | .nothing => rendered = (.ok body.next, { e.addCall with state := s' })) := by
  intro clauses source context rendered
  have hrendered : rendered =
      (executeCall (Builtin.runChoose p ·.call) context >>= fun _ => pure body.next)
        e.addCall := renderTag_choose hentry hdefinition hname hbody host p out
  have hplain : context.call.IsPlain (e.enterCall context) :=
    Engine.isPlain_enterCall hdebug rfl
  have hinside : ({ e.addCall with current := some context } : Engine η σ).config.debug = false :=
    hdebug
  rw [hrendered]
  refine ⟨fun hmalformed => ?_, fun hformed => ⟨Decides.total 0 clauses e.state, ?_⟩⟩
  · have hpayload : Malformed context.call.payload := hmalformed
    obtain ⟨before, clause, after, fault, heq, hfault, hrun⟩ :=
      Builtin.runChoose_of_malformed hinside hpayload p
    have hcall := @executeCall_of_ok _ _ (Builtin.runChoose p ·.call) context e.addCall
      { e.enterCall context with
        tree := e.tree.appendError out (context.call.errorText fault) source } hrun
    exact ⟨before, clause, after, fault, heq, hfault, Run.bind_of_ok hcall⟩
  · intro decision s' h
    have hpayload : ¬ Malformed context.call.payload := hformed
    have hcall : executeCall (Builtin.runChoose p ·.call) context e.addCall =
        executeCall (Builtin.carryOut p ·.call decision) context { e.addCall with state := s' } :=
      executeCall_congr (Builtin.runChoose_of_decides hinside hplain hpayload h p) rfl
    rw [Run.bind_apply, hcall, ← Run.bind_apply]
    cases decision with
    | chosen clause => rfl
    | failed index error => rfl
    | nothing => rfl

/-- In `<<if $a to 0>>x<<elseif $a to $a + 1>>y<<else>>z<</if>>` the second clause is rendered, and
the assignments in both conditions are made. -/
theorem choice_rendered_elseif :
    let e : Engine Empty Unit := Engine.ofConfig {} ()
    let p := perform Host.idle 5
    let tag : Tag := ⟨"if", "$a to 0", "<<if $a to 0>>", 0, 14⟩
    let source := "<<if $a to 0>>x<<elseif $a to $a + 1>>y<<else>>z<</if>>"
    segmentsOf source = .tag tag :: (segmentsOf source).tail ∧
      ∃ context s, (State.get? s "$a").map Value.display = some "1" ∧
        renderTag (runHandler Host.idle p) ⟨0⟩ tag (segmentsOf source).tail e =
          (executeCall (fun _ => p (.render ⟨0⟩ "y")) context >>= fun _ => pure 6)
            { e.addCall with state := s } := by
  intro e p tag source
  let body : Body := ⟨[⟨"if", "$a to 0", "x", "<<if $a to 0>>"⟩,
    ⟨"elseif", "$a to $a + 1", "y", "<<elseif $a to $a + 1>>"⟩,
    ⟨"else", "", "z", "<<else>>"⟩], 6, 55⟩
  let entry : MacroEntry (Handler Empty) :=
    ⟨Builtin.choose.definition (.builtin .choose), 3, none⟩
  have hbody : bodyFrom tag.name ["elseif", "else"] 0 (.ofTag tag) 0 (segmentsOf source).tail =
      .ok body := by decide +kernel
  have hformed : ¬ Malformed (body.clauses.map Clause.unparsed) := by
    have hfault : Builtin.firstFault? false 0 (body.clauses.map Clause.unparsed) = none := by
      decide +kernel
    intro h
    obtain ⟨_, _, _, fault, -, -, hfirst⟩ := Builtin.firstFault?_of_malformed h 0
    rw [hfault] at hfirst
    cases hfirst
  have hentry : e.registry.get? tag.name = some entry := rfl
  let s₁ : State := (evaluateCondition "$a to 0" {}).2
  let s₂ : State := (evaluateCondition "$a to $a + 1" s₁).2
  have hzero : evaluateCondition "$a to 0" {} = (.ok false, s₁) :=
    eq_ok_of_toOption (by decide +kernel)
  have hone : evaluateCondition "$a to $a + 1" s₁ = (.ok true, s₂) :=
    eq_ok_of_toOption (by decide +kernel)
  have hdecides : Decides 0 (body.clauses.map Clause.unparsed) e.state
      (.chosen ⟨"elseif", .unparsed "$a to $a + 1", "y", "<<elseif $a to $a + 1>>"⟩) s₂ :=
    .declines (by decide) hzero (.holds (by decide) hone)
  have hchosen := ((choice_rendered rfl hentry rfl rfl hbody Host.idle p ⟨0⟩).2 hformed).2
    _ _ hdecides
  exact ⟨by decide +kernel, _, s₂, by decide +kernel, hchosen⟩

end StoryEngine
