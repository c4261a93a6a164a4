import StoryEngine.Proofs.Variables.Cells
/-!
# StoryEngine.Proofs.Expr.Frame

What an evaluation leaves alone. Variables that the expression does not assign keep their values,
however the evaluation ends and whatever overlays are in force (`eval_frame`). So a compound
assignment is the assignment of its expansion, although the two read the variable at different times
(`compound_assignment_expands`).
-/

namespace StoryEngine

/-- Other variables keep their values when some are set. -/
theorem State.Sets.get?_eq {names : List String} {s t : State} (h : s.Sets names t) {name : String}
    (hname : name ∉ names) : t.get? name = s.get? name := by
  induction h with
  | refl => rfl
  | tail _ hone ih =>
      obtain ⟨other, hother, _, hset⟩ := hone
      have hne : name ≠ other := by
        rintro rfl
        exact hname hother
      rw [State.get?_of_set_of_ne hset hne, ih]

namespace Expr

variable {s t : State}

@[simp]
theorem liftExcept_apply {α : Type} (r : Except ExprError α) (s : State) :
    eval.liftExcept r s = (r, s) := by
  cases r <;> rfl

/-- What an assignment does in the state that its right side left, with the value of that side. -/
theorem eval_assign_apply (op : AssignOp) (target : String) (right : Expr) (s : State) :
    (assign op target right).eval s =
      match right.eval s with
      | (.error e, t) => (.error e, t)
      | (.ok b, t) =>
        match op.newValue (t.value target) b with
        | .error e => (.error e, t)
        | .ok value =>
          match t.set target value with
          | .ok u => (.ok value, u)
          | .error e => (.error (.badVariable e), t) := by
  show (right.eval >>= _) s = _
  rw [bind_state_apply]
  rcases right.eval s with ⟨e | b, t⟩
  · rfl
  · show ((eval.liftExcept (op.newValue (t.value target) b) >>= fun value =>
      StoryEngine.assign target value >>= fun _ => pure value) : Evaluation Value) t = _
    rw [bind_state_apply, liftExcept_apply]
    dsimp only
    cases op.newValue (t.value target) b with
    | error e => rfl
    | ok value =>
        dsimp only
        rw [bind_state_apply]
        cases h : t.set target value with
        | ok u =>
            rw [assign_of_ok h]
            rfl
        | error e =>
            rw [assign_of_error h]

/-- Both operands of an operator that is no conjunction or disjunction, one after the other. -/
theorem eval_binary_apply {op : BinaryOp} {left right : Expr} (hand : op ≠ .and) (hor : op ≠ .or)
    (s : State) :
    (binary op left right).eval s =
      match left.eval s with
      | (.error e, t) => (.error e, t)
      | (.ok a, t) =>
        match right.eval t with
        | (.error e, u) => (.error e, u)
        | (.ok b, u) => (op.apply a b, u) := by
  rw [eval_binary hand hor, bind_state_apply]
  rcases left.eval s with ⟨e | a, t⟩
  · rfl
  · dsimp only
    rw [bind_state_apply]
    rcases right.eval t with ⟨e | b, u⟩
    · rfl
    · exact liftExcept_apply _ u

/-- The first operand decides, and the second is not evaluated. -/
theorem eval_and_of_not_truthy {left : Expr} {value : Value} (h : left.eval s = (.ok value, t))
    (hvalue : value.isTruthy = false) (right : Expr) :
    (binary .and left right).eval s = (.ok value, t) := by
  show (left.eval >>= fun value => if value.isTruthy then right.eval else pure value) s = _
  rw [bind_state_apply, h]
  dsimp only
  rw [hvalue, if_neg Bool.false_ne_true]
  rfl

theorem eval_or_of_truthy {left : Expr} {value : Value} (h : left.eval s = (.ok value, t))
    (hvalue : value.isTruthy = true) (right : Expr) :
    (binary .or left right).eval s = (.ok value, t) := by
  show (left.eval >>= fun value => if value.isTruthy then pure value else right.eval) s = _
  rw [bind_state_apply, h]
  dsimp only
  rw [if_pos hvalue]
  rfl

/-- In the state, the assignment has no value to set, or nothing that it could be set to: its right
side or its arithmetic fails, or its target is no variable. -/
def CannotAssign (op : AssignOp) (target : String) (right : Expr) (s : State) : Prop :=
  (∃ error, (right.eval s).1 = .error error) ∨
    (∃ b error, (right.eval s).1 = .ok b ∧
      op.newValue ((right.eval s).2.value target) b = .error error) ∨
    isVariable target = false

/-- An assignment that cannot set anything does what its right side does. -/
theorem eval_assign_of_cannotAssign {op : AssignOp} {target : String} {right : Expr}
    (h : CannotAssign op target right s) :
    ∃ error, (assign op target right).eval s = (.error error, (right.eval s).2) := by
  rw [CannotAssign] at h
  rw [eval_assign_apply]
  rcases hright : right.eval s with ⟨e | b, t⟩
  · exact ⟨e, rfl⟩
  · rw [hright] at h
    dsimp only at h ⊢
    cases hvalue : op.newValue (t.value target) b with
    | error e => exact ⟨e, rfl⟩
    | ok value =>
        have hnot : isVariable target = false := by
          rcases h with ⟨_, h⟩ | ⟨_, _, h, herror⟩ | h
          · cases h
          · obtain rfl := Except.ok.inj h
            rw [hvalue] at herror
            cases herror
          · exact h
        cases hset : t.set target value with
        | error e => exact ⟨.badVariable e, by simp only [hset]⟩
        | ok u =>
            rw [State.exists_set_iff.1 ⟨u, hset⟩] at hnot
            cases hnot

/-- Any other assignment sets its target. -/
theorem eval_assign_of_not_cannotAssign {op : AssignOp} {target : String} {right : Expr}
    (h : ¬ CannotAssign op target right s) :
    ∃ value t, (assign op target right).eval s = (.ok value, t) ∧ t.get? target = some value := by
  rw [CannotAssign, not_or, not_or] at h
  obtain ⟨hright, harithmetic, hname⟩ := h
  rw [eval_assign_apply]
  rcases heval : right.eval s with ⟨e | b, t⟩
  · exact absurd ⟨e, by rw [heval]⟩ hright
  · rw [heval] at harithmetic
    dsimp only at harithmetic ⊢
    cases hvalue : op.newValue (t.value target) b with
    | error e => exact absurd ⟨b, e, rfl, hvalue⟩ harithmetic
    | ok value =>
        obtain ⟨u, hset⟩ : ∃ u, t.set target value = .ok u :=
          State.exists_set_iff.2 (Bool.not_eq_false _ ▸ hname)
        refine ⟨value, u, ?_, State.get?_of_set hset⟩
        simp only [hset]

end Expr

/-- However the evaluation of an expression ends, only targets of its assignments can have other
values than before, and nothing but values is changed: as many overlays are in force, each with cells
for the same names, and the player is where they were. The operand that a conjunction or a
disjunction does not need has no effect, and an assignment fails exactly if it cannot set its target,
in the state that its right side left. -/
theorem eval_frame (s : State) :
    (∀ e : Expr, (∀ name ∉ e.targets, (e.eval s).2.get? name = s.get? name) ∧
      (e.eval s).2.overlays.length = s.overlays.length ∧ s.Reassigned (e.eval s).2) ∧
    (∀ (left right : Expr) (value : Value) (t : State), left.eval s = (.ok value, t) →
      (value.isTruthy = false → (Expr.binary .and left right).eval s = (.ok value, t)) ∧
      (value.isTruthy = true → (Expr.binary .or left right).eval s = (.ok value, t))) ∧
    ∀ (op : AssignOp) (target : String) (right : Expr),
      (Expr.CannotAssign op target right s ↔
        ∃ error, ((Expr.assign op target right).eval s).1 = .error error) ∧
      (Expr.CannotAssign op target right s →
        ((Expr.assign op target right).eval s).2 = (right.eval s).2) := by
  refine ⟨fun e => ?_, fun left right value t h => ?_, fun op target right => ?_⟩
  · have hre := (e.sets_eval s).reassigned
    refine ⟨fun name hname => (e.sets_eval s).get?_eq hname, ?_, hre⟩
    rw [← State.length_shape, ← State.length_shape, hre.shape]
  · exact ⟨fun hvalue => Expr.eval_and_of_not_truthy h hvalue right,
      fun hvalue => Expr.eval_or_of_truthy h hvalue right⟩
  · refine ⟨⟨fun h => ?_, fun ⟨error, herror⟩ => ?_⟩, fun h => ?_⟩
    · obtain ⟨error, heq⟩ := Expr.eval_assign_of_cannotAssign h
      exact ⟨error, congrArg Prod.fst heq⟩
    · by_contra h
      obtain ⟨value, t, heq, -⟩ := Expr.eval_assign_of_not_cannotAssign h
      rw [heq] at herror
      cases herror
    · obtain ⟨error, heq⟩ := Expr.eval_assign_of_cannotAssign h
      rw [heq]

/-- An assignment behind a disjunction that is decided sets nothing, and one that is reached sets
nothing but its target, if that is a variable. -/
theorem eval_frame_of_disjunction :
    let s := State.push {} [("$x", some (.bool true))]
    let clear : Expr := .assign .set "$x" (.literal .null)
    (Expr.binary .or (.var "$x") clear).eval s = (.ok (.bool true), s) ∧
      ((Expr.binary .and (.var "$x") clear).eval s).2.get? "$y" = s.get? "$y" ∧
      ((Expr.assign .add "$" clear).eval s).2 = (clear.eval s).2 := by
  intro s clear
  obtain ⟨hframe, hskip, hfail⟩ := eval_frame s
  refine ⟨(hskip (.var "$x") clear (.bool true) s rfl).2 rfl, (hframe _).1 "$y" ?_, ?_⟩
  · decide
  · exact (hfail .add "$" clear).2 (.inr (.inr rfl))

/-! ### Compound assignments -/

/-- The arithmetic of an assignment operator is neither a conjunction nor a disjunction. -/
theorem AssignOp.apply_arithmetic {op : AssignOp} {arithmetic : BinaryOp}
    (h : op.arithmetic? = some arithmetic) :
    arithmetic ≠ .and ∧ arithmetic ≠ .or ∧
      ∀ a b, arithmetic.apply a b = op.newValue a b := by
  cases op with
  | set => cases h
  | _ =>
      obtain rfl := Option.some.inj h
      exact ⟨nofun, nofun, fun _ _ => rfl⟩

/-- A compound assignment does what its expansion does, if its right side does not assign the
variable: both give the same value or the same error, and leave the same variables. -/
theorem compound_assignment_expands {op : AssignOp} {arithmetic : BinaryOp}
    (hop : op.arithmetic? = some arithmetic) {name : String} {e : Expr} (h : name ∉ e.targets) :
    (Expr.assign op name e).eval =
      (Expr.assign .set name (.binary arithmetic (.var name) e)).eval := by
  obtain ⟨hand, hor, happly⟩ := AssignOp.apply_arithmetic hop
  funext s
  have hvar : (Expr.var name).eval s = (.ok (s.value name), s) := rfl
  rw [Expr.eval_assign_apply, Expr.eval_assign_apply, Expr.eval_binary_apply hand hor, hvar]
  dsimp only
  cases hright : e.eval s with
  | mk result t =>
      -- the variable is read after the right side on the left, and before it on the right
      have hvalue : t.value name = s.value name := by
        have hframe := (e.sets_eval s).get?_eq h
        rw [hright] at hframe
        rw [State.value, State.value, hframe]
      cases result with
      | error error => rfl
      | ok b =>
          dsimp only
          rw [hvalue, ← happly]
          cases arithmetic.apply (s.value name) b with
          | error error => rfl
          | ok value => rfl

/-- A right side that reads the variable and sets another one. -/
theorem compound_assignment_expands_of_copy :
    AssignOp.add.arithmetic? = some .add ∧
      "$x" ∉ (Expr.assign .set "$y" (.var "$x")).targets ∧
      (Expr.assign .add "$x" (.assign .set "$y" (.var "$x"))).eval =
        (Expr.assign .set "$x"
          (.binary .add (.var "$x") (.assign .set "$y" (.var "$x")))).eval := by
  have hother : "$x" ∉ (Expr.assign .set "$y" (.var "$x")).targets := by decide
  exact ⟨rfl, hother, compound_assignment_expands rfl hother⟩

end StoryEngine
