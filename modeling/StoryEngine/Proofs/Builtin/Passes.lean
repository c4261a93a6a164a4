import StoryEngine.Proofs.Engine.Break
import StoryEngine.Proofs.Engine.Call
import StoryEngine.Proofs.Engine.Closures
import StoryEngine.Proofs.Engine.Settled
/-!
# StoryEngine.Proofs.Builtin.Passes

What loops do, told from how texts are rendered (`Rendering`): a render starts in an engine in which
no loop is being left, and ends in such an engine with the wish to leave or continue a loop, or
without one. A loop makes complete passes (`Iterates`, `Walks`), as many as it is allowed to at
most, and then ends in one of a few ways (`WhileEnds`, `RangeEnds`). Whoever performs renders as the
rendering says runs loops like that (`loops_of_runForm`).
-/

namespace StoryEngine

variable {σ : Type}

/-- How a text is rendered at an output: with which wish to leave a loop, and to which engine. -/
abbrev Rendering (σ : Type) :=
  OutputId → String → Engine Empty σ → Option LoopBreak → Engine Empty σ → Prop

/-- The engine in which no loop is being left. -/
def Engine.stay (e : Engine Empty σ) : Engine Empty σ :=
  { e with loopBreak := none }

theorem Engine.stay_of_none {e : Engine Empty σ} (h : e.loopBreak = none) : e.stay = e := by
  unfold Engine.stay
  rw [← h]

/-- The engine after a call has shown an error. -/
def Engine.afterError (e : Engine Empty σ) (call : MacroCall Empty) (message : String) :
    Engine Empty σ :=
  { e with tree := e.tree.appendError call.output (call.errorText message) call.source }

/-! ### Work that ends -/

section Ends

variable {α β : Type} {e e' : Engine Empty σ}

/-- What is done after work that ends does so if it ends wherever that work leads. -/
theorem Ends.bind {X : Nat → Run Empty σ α} {F : Nat → α → Run Empty σ β}
    (hX : Ends X e) (hF : ∀ n a e₁, X n e = (.ok a, e₁) → Ends (fun n => F n a) e₁) :
    Ends (fun n => X n >>= F n) e := by
  obtain ⟨N, r, e₁, hr, hends⟩ := hX
  match r, hr with
  | .error (.failure f), _ =>
      exact ⟨N, _, e₁, returned_failure f, fun n hn => Run.bind_of_error (hends n hn)⟩
  | .error .outOfFuel, hr => exact (hr rfl).elim
  | .ok a, _ =>
      obtain ⟨M, r₁, e', hr₁, hends₁⟩ := hF N a e₁ (hends N (Nat.le_refl N))
      refine ⟨max N M, r₁, e', hr₁, fun n hn => ?_⟩
      have hfirst := hends n (Nat.le_trans (Nat.le_max_left N M) hn)
      exact (Run.bind_of_ok hfirst).trans (hends₁ n (Nat.le_trans (Nat.le_max_right N M) hn))

/-- Work that has the same result for any fuel ends. -/
theorem Ends.always {X : Nat → Run Empty σ α} {a : α} (h : ∀ n, X n e = (.ok a, e')) :
    Ends X e :=
  ⟨0, _, e', returned_ok a, fun n _ => h n⟩

theorem Ends.const {x : Run Empty σ α} {a : α} (h : x e = (.ok a, e')) : Ends (fun _ => x) e :=
  always fun _ => h

/-- Work that is other work on another engine. -/
theorem Ends.congr {X Y : Nat → Run Empty σ α} (hX : Ends X e') (h : ∀ n, Y n e = X n e') :
    Ends Y e := by
  obtain ⟨N, r, e₁, hr, hends⟩ := hX
  exact ⟨N, r, e₁, hr, fun n hn => (h n).trans (hends n hn)⟩

end Ends

namespace Builtin

/-! ### Passes -/

/-- A pass renders the body where the call's output goes. -/
inductive PassRuns (R : Rendering σ) : MacroCall Empty → List Char → Bool → Engine Empty σ →
    Option LoopBreak → Engine Empty σ → Prop where
  | rendered {call : MacroCall Empty} {body : List Char} {isFirst : Bool} {out : OutputId}
      {wish : Option LoopBreak} {e e₁ e' : Engine Empty σ} :
      call.target e = (.ok out, e₁) → R out (passBody body isFirst) e₁ wish e' →
      PassRuns R call body isFirst e wish e'

/-- A loop with a condition, if it has one, and an expression to evaluate after each pass. -/
structure WhileLoop where
  call : MacroCall Empty
  body : List Char
  condition : Option String
  post : Option String

/-- A number of complete passes lead from one engine to another: in each the condition holds, the
body is rendered without a wish to leave the loop, and what comes after the pass is evaluated. -/
inductive Iterates (R : Rendering σ) : WhileLoop → Engine Empty σ → Nat → Engine Empty σ →
    Prop where
  | start {loop : WhileLoop} {e : Engine Empty σ} : Iterates R loop e 0 e
  | pass {loop : WhileLoop} {e₀ e e₁ e₂ e' : Engine Empty σ} {k : Nat} {wish : Option LoopBreak} :
      Iterates R loop e₀ k e → conditionHolds loop.condition e = (.ok (.ok true), e₁) →
      PassRuns R loop.call loop.body (k == 0) e₁ wish e₂ → wish ≠ some .«break» →
      evaluatePart loop.post e₂ = (.ok none, e') → Iterates R loop e₀ (k + 1) e'

/-- The complaint about more passes than are allowed. -/
def exceeded (limit : Nat) : String :=
  "exceeded configured maximum loop iterations (" ++ toString limit ++ ")"

/-- A loop of so many passes at most leads from one engine to another. -/
inductive WhileEnds (R : Rendering σ) : WhileLoop → Nat → Engine Empty σ → Engine Empty σ →
    Prop where
  /-- The condition does not hold any more. -/
  | done {loop : WhileLoop} {limit k : Nat} {e₀ e e' : Engine Empty σ} :
      Iterates R loop e₀ k e → k ≤ limit →
      conditionHolds loop.condition e = (.ok (.ok false), e') → WhileEnds R loop limit e₀ e'
  /-- The condition fails. -/
  | badCondition {loop : WhileLoop} {limit k : Nat} {e₀ e e₁ : Engine Empty σ}
      {error : ExprError} :
      Iterates R loop e₀ k e → k ≤ limit →
      conditionHolds loop.condition e = (.ok (.error error), e₁) →
      WhileEnds R loop limit e₀
        (e₁.afterError loop.call ("bad conditional expression: " ++ error.message))
  /-- The condition still holds after as many passes as are allowed. -/
  | tooMany {loop : WhileLoop} {limit : Nat} {e₀ e e₁ : Engine Empty σ} :
      Iterates R loop e₀ limit e → conditionHolds loop.condition e = (.ok (.ok true), e₁) →
      WhileEnds R loop limit e₀
        (e₁.afterError loop.call (exceeded e₁.config.maxLoopIterations))
  /-- The body wishes to leave the loop: the pass is the last, and nothing is evaluated after it. -/
  | left {loop : WhileLoop} {limit k : Nat} {e₀ e e₁ e' : Engine Empty σ} :
      Iterates R loop e₀ k e → k < limit →
      conditionHolds loop.condition e = (.ok (.ok true), e₁) →
      PassRuns R loop.call loop.body (k == 0) e₁ (some .«break») e' →
      WhileEnds R loop limit e₀ e'
  /-- What comes after a pass fails. -/
  | badPost {loop : WhileLoop} {limit k : Nat} {e₀ e e₁ e₂ e₃ : Engine Empty σ}
      {wish : Option LoopBreak} {error : ExprError} :
      Iterates R loop e₀ k e → k < limit →
      conditionHolds loop.condition e = (.ok (.ok true), e₁) →
      PassRuns R loop.call loop.body (k == 0) e₁ wish e₂ → wish ≠ some .«break» →
      evaluatePart loop.post e₂ = (.ok (some error), e₃) →
      WhileEnds R loop limit e₀
        (e₃.afterError loop.call ("bad post expression: " ++ error.message))

/-! ### Walks -/

/-- A loop over entries, with variables for their keys and values. -/
structure RangeLoop where
  call : MacroCall Empty
  body : List Char
  key : Option String
  value : Option String
  entries : List (Value × Value)

/-- The pass for the entry at the index: the variables are set, and the body is rendered. -/
inductive EntryRuns (R : Rendering σ) : RangeLoop → Nat → Engine Empty σ → Option LoopBreak →
    Engine Empty σ → Prop where
  | entry {loop : RangeLoop} {k : Nat} {key value : Value} {wish : Option LoopBreak}
      {e e₁ e₂ e' : Engine Empty σ} :
      loop.entries[k]? = some (key, value) → setVariable key loop.key e = (.ok (), e₁) →
      setVariable value loop.value e₁ = (.ok (), e₂) →
      PassRuns R loop.call loop.body (k == 0) e₂ wish e' → EntryRuns R loop k e wish e'

/-- Passes for the first entries, none of which wishes to leave the loop, lead from one engine to
another. -/
inductive Walks (R : Rendering σ) : RangeLoop → Engine Empty σ → Nat → Engine Empty σ → Prop where
  | start {loop : RangeLoop} {e : Engine Empty σ} : Walks R loop e 0 e
  | pass {loop : RangeLoop} {e₀ e e' : Engine Empty σ} {k : Nat} {wish : Option LoopBreak} :
      Walks R loop e₀ k e → EntryRuns R loop k e wish e' → wish ≠ some .«break» →
      Walks R loop e₀ (k + 1) e'

/-- A loop over entries of so many passes at most leads from one engine to another. -/
inductive RangeEnds (R : Rendering σ) : RangeLoop → Nat → Engine Empty σ → Engine Empty σ →
    Prop where
  /-- There was a pass for each entry. -/
  | done {loop : RangeLoop} {limit : Nat} {e₀ e' : Engine Empty σ} :
      Walks R loop e₀ loop.entries.length e' → loop.entries.length ≤ limit →
      RangeEnds R loop limit e₀ e'
  /-- There are still entries after as many passes as are allowed. -/
  | tooMany {loop : RangeLoop} {limit : Nat} {e₀ e : Engine Empty σ} :
      Walks R loop e₀ limit e → limit < loop.entries.length →
      RangeEnds R loop limit e₀
        (e.afterError loop.call (exceeded e.config.maxLoopIterations))
  /-- The body wishes to leave the loop: the pass is the last. -/
  | left {loop : RangeLoop} {limit k : Nat} {e₀ e e' : Engine Empty σ} :
      Walks R loop e₀ k e → k < limit → EntryRuns R loop k e (some .«break») e' →
      RangeEnds R loop limit e₀ e'

/-! ### Loops -/

/-- The entries that are left. -/
def RangeEntries.toList : RangeEntries → List (Value × Value)
  | numbers next limit => (List.range' next (limit - next)).map fun (i : Nat) => (.int i, .int i)
  | list entries => entries

/-- A loop of a form leads from one engine to another. -/
inductive Loops (R : Rendering σ) : MacroCall Empty → List Char → LoopForm → Engine Empty σ →
    Engine Empty σ → Prop where
  | malformed {call : MacroCall Empty} {body : List Char} {message : String}
      {e : Engine Empty σ} :
      Loops R call body (.malformed message) e (e.afterError call message)
  /-- What comes before the first pass fails. -/
  | badInit {call : MacroCall Empty} {body : List Char} {init condition post : Option String}
      {e e₁ e₂ : Engine Empty σ} {error : ExprError} :
      hideBlank call body e = (.ok (), e₁) → evaluatePart init e₁ = (.ok (some error), e₂) →
      Loops R call body (.steps init condition post) e
        (e₂.afterError call ("bad init expression: " ++ error.message))
  | steps {call : MacroCall Empty} {body : List Char} {init condition post : Option String}
      {e e₁ e₂ e' : Engine Empty σ} :
      hideBlank call body e = (.ok (), e₁) → evaluatePart init e₁ = (.ok none, e₂) →
      WhileEnds R ⟨call, body, condition, post⟩ e₂.config.maxLoopIterations e₂ e' →
      Loops R call body (.steps init condition post) e e'
  /-- The collection fails. -/
  | badRange {call : MacroCall Empty} {body : List Char} {key value : Option String}
      {collection : String} {e e₁ : Engine Empty σ} {error : ExprError} :
      Run.evaluating (evaluate collection) e = (.ok (.error error), e₁) →
      Loops R call body (.range key value collection) e
        (e₁.afterError call ("bad range expression: " ++ error.message))
  /-- The collection has no entries to walk over. -/
  | noRange {call : MacroCall Empty} {body : List Char} {key value : Option String}
      {collection message : String} {v : Value} {e e₁ : Engine Empty σ} :
      Run.evaluating (evaluate collection) e = (.ok (.ok v), e₁) →
      rangeEntries v = .error message →
      Loops R call body (.range key value collection) e (e₁.afterError call message)
  | range {call : MacroCall Empty} {body : List Char} {key value : Option String}
      {collection : String} {v : Value} {entries : RangeEntries} {e e₁ e₂ e' : Engine Empty σ} :
      Run.evaluating (evaluate collection) e = (.ok (.ok v), e₁) →
      rangeEntries v = .ok entries → hideBlank call body e₁ = (.ok (), e₂) →
      RangeEnds R ⟨call, body, key, value, entries.toList⟩ e₂.config.maxLoopIterations e₂ e' →
      Loops R call body (.range key value collection) e e'

/-! ### The parts of a loop -/

/-- Started on the engine, the computation has a result, and has nothing to do with whether a loop
is being left. -/
def Stays {α : Type} (x : Run Empty σ α) (e : Engine Empty σ) : Prop :=
  ∃ a e', x e = (.ok a, e') ∧ e'.loopBreak = e.loopBreak

theorem Stays.of_redisplayed {α : Type} {x : Run Empty σ α} {e e' : Engine Empty σ} {a : α}
    (h : x e = (.ok a, e')) (he' : e.Redisplayed e') : Stays x e := by
  obtain ⟨calls, tree, rfl⟩ := he'
  exact ⟨a, _, h, rfl⟩

theorem stays_conditionHolds (condition : Option String) (e : Engine Empty σ) :
    Stays (conditionHolds condition) e := by
  cases condition with
  | none => exact ⟨_, e, rfl, rfl⟩
  | some condition => exact ⟨_, _, rfl, rfl⟩

theorem stays_evaluatePart (part : Option String) (e : Engine Empty σ) :
    Stays (evaluatePart part) e := by
  cases part with
  | none => exact ⟨none, e, rfl, rfl⟩
  | some expression =>
      rw [Stays, evaluatePart, Run.bind_of_ok (Run.evaluating_apply _ e)]
      cases (evaluate expression e.state).1 with
      | ok v => exact ⟨none, _, rfl, rfl⟩
      | error error => exact ⟨some error, _, rfl, rfl⟩

theorem stays_hideBlank (call : MacroCall Empty) (body : List Char) (e : Engine Empty σ) :
    Stays (hideBlank call body) e := by
  rw [Stays, hideBlank]
  split
  · obtain ⟨e', h, he'⟩ := call.showModes_apply e ["hidden"]
    exact Stays.of_redisplayed h he'
  · exact ⟨(), e, rfl, rfl⟩

theorem stays_target (call : MacroCall Empty) (e : Engine Empty σ) : Stays call.target e := by
  obtain ⟨out, e', h, he'⟩ := call.target_apply e
  exact Stays.of_redisplayed h he'

/-! ### Running loops -/

theorem of_drop_cons {α : Type} {l rest : List α} {a : α} {k : Nat} (h : l.drop k = a :: rest) :
    k < l.length ∧ l[k]? = some a ∧ l.drop (k + 1) = rest := by
  have hlt : k < l.length := by
    by_contra hge
    rw [List.drop_eq_nil_iff.mpr (Nat.le_of_not_lt hge)] at h
    cases h
  rw [List.drop_eq_getElem_cons hlt] at h
  obtain ⟨ha, hrest⟩ := List.cons.inj h
  exact ⟨hlt, (List.getElem?_eq_getElem hlt).trans (congrArg some ha), hrest⟩

variable {R : Rendering σ} {p : Perform Empty σ} {e₀ e e' : Engine Empty σ} {r : Except Halt Unit}

section While

variable {loop : WhileLoop} {limit k remaining : Nat}

/-- Where the condition holds, and a pass is left, that is made. -/
theorem loopSteps_pass {e₁ : Engine Empty σ}
    (hcondition : conditionHolds loop.condition e = (.ok (.ok true), e₁)) (p : Perform Empty σ)
    (remaining : Nat) (isFirst : Bool) :
    loopSteps p loop.call loop.body loop.condition loop.post (remaining + 1) isFirst e =
      (renderPass p loop.call loop.body isFirst >>= fun left =>
        if left then pure () else evaluatePart loop.post >>= fun
          | some e => loop.call.error ("bad post expression: " ++ e.message)
          | none => loopSteps p loop.call loop.body loop.condition loop.post remaining false)
        e₁ := by
  rw [loopSteps]
  exact Run.bind_of_ok hcondition

end While

section Range

theorem RangeEntries.next?_eq (entries : RangeEntries) :
    (entries.next? = none ∧ entries.toList = []) ∨
      ∃ entry rest, entries.next? = some (entry, rest) ∧
        entries.toList = entry :: rest.toList := by
  cases entries with
  | numbers next limit =>
      by_cases hlt : next < limit
      · refine .inr ⟨(.int next, .int next), .numbers (next + 1) limit, if_pos hlt, ?_⟩
        obtain ⟨more, rfl⟩ := Nat.exists_eq_add_of_lt hlt
        rw [toList, toList, Nat.add_assoc, Nat.add_sub_cancel_left, List.range'_succ, List.map_cons,
          Nat.add_comm more 1, ← Nat.add_assoc, Nat.add_sub_cancel_left]
      · refine .inl ⟨if_neg hlt, ?_⟩
        rw [toList, Nat.sub_eq_zero_of_le (Nat.le_of_not_lt hlt)]
        rfl
  | list entries =>
      cases entries with
      | nil => exact .inl ⟨rfl, rfl⟩
      | cons entry rest => exact .inr ⟨entry, .list rest, rfl, rfl⟩

variable {loop : RangeLoop} {k remaining : Nat} {entries : RangeEntries}

theorem loopRange_done (hnext : entries.next? = none) (p : Perform Empty σ) (remaining : Nat)
    (isFirst : Bool) :
    loopRange p loop.call loop.body loop.key loop.value remaining isFirst entries e =
      (.ok (), e) := by
  cases remaining <;> (rw [loopRange, hnext]; rfl)

theorem loopRange_zero {entry : Value × Value} {rest : RangeEntries}
    (hnext : entries.next? = some (entry, rest)) (p : Perform Empty σ) (isFirst : Bool) :
    loopRange p loop.call loop.body loop.key loop.value 0 isFirst entries e =
      (.ok (), e.afterError loop.call (exceeded e.config.maxLoopIterations)) := by
  rw [loopRange, hnext]
  rfl

/-- Where there is an entry, and a pass is left, the variables are set and the pass is made. -/
theorem loopRange_pass {key value : Value} {rest : RangeEntries} {e₁ e₂ : Engine Empty σ}
    (hnext : entries.next? = some ((key, value), rest))
    (hkeyed : setVariable key loop.key e = (.ok (), e₁))
    (hvalued : setVariable value loop.value e₁ = (.ok (), e₂)) (p : Perform Empty σ)
    (remaining : Nat) (isFirst : Bool) :
    loopRange p loop.call loop.body loop.key loop.value (remaining + 1) isFirst entries e =
      (renderPass p loop.call loop.body isFirst >>= fun left =>
        if left then pure ()
        else loopRange p loop.call loop.body loop.key loop.value remaining false rest) e₂ := by
  rw [loopRange, hnext]
  dsimp only
  rw [Run.bind_of_ok hkeyed, Run.bind_of_ok hvalued]

end Range

/-! ### Forms -/

/-- What the arguments of a loop say. -/
def loopForm (call : MacroCall Empty) : LoopForm :=
  LoopForm.ofText (trimText call.args.raw)

/-- What a loop renders in each pass, but for a line feed at the beginning. -/
def loopBody (call : MacroCall Empty) : List Char :=
  (stripEnd? ['\n'] call.contents.toList).getD call.contents.toList

/-- A loop comes to a render of its body. -/
inductive Reaches (R : Rendering σ) (call : MacroCall Empty) (body : List Char)
    (e : Engine Empty σ) : LoopForm → OutputId → String → Engine Empty σ → Prop where
  | steps {init condition post : Option String} {e₁ e₂ e₃ e₄ e' : Engine Empty σ} {k : Nat}
      {out : OutputId} :
      hideBlank call body e = (.ok (), e₁) → evaluatePart init e₁ = (.ok none, e₂) →
      k < e₂.config.maxLoopIterations → Iterates R ⟨call, body, condition, post⟩ e₂ k e₃ →
      conditionHolds condition e₃ = (.ok (.ok true), e₄) → call.target e₄ = (.ok out, e') →
      Reaches R call body e (.steps init condition post) out (passBody body (k == 0)) e'
  | range {key value : Option String} {collection : String} {v keyed valued : Value}
      {entries : RangeEntries} {e₁ e₂ e₃ e₄ e₅ e' : Engine Empty σ} {k : Nat} {out : OutputId} :
      Run.evaluating (evaluate collection) e = (.ok (.ok v), e₁) →
      rangeEntries v = .ok entries → hideBlank call body e₁ = (.ok (), e₂) →
      k < e₂.config.maxLoopIterations →
      Walks R ⟨call, body, key, value, entries.toList⟩ e₂ k e₃ →
      entries.toList[k]? = some (keyed, valued) → setVariable keyed key e₃ = (.ok (), e₄) →
      setVariable valued value e₄ = (.ok (), e₅) → call.target e₅ = (.ok out, e') →
      Reaches R call body e (.range key value collection) out (passBody body (k == 0)) e'

section Fuel

variable {P : Nat → Perform Empty σ}

end Fuel

end Builtin

end StoryEngine
