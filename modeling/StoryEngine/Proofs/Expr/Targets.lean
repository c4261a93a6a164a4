import Mathlib.Logic.Relation
import StoryEngine.Expr.Eval
/-!
# StoryEngine.Proofs.Expr.Targets

What an evaluation does to the variables, whether it fails or not: it sets some of the targets of the
assignments in the expression, one after the other, and does nothing else (`Expr.sets_eval`). What
every single setting keeps is kept by every evaluation.
-/

namespace StoryEngine

/-- The targets of the assignments in the expression. -/
def Expr.targets : Expr → List String
  | literal _ => []
  | var _ => []
  | not operand => operand.targets
  | neg operand => operand.targets
  | defined _ operand => operand.targets
  | binary _ left right => left.targets ++ right.targets
  | assign _ target value => target :: value.targets

/-! ### Settings in a row -/

namespace State

/-- One of the variables is set. -/
def SetsOne (names : List String) (s t : State) : Prop :=
  ∃ name ∈ names, ∃ value, s.set name value = .ok t

/-- Some of the variables are set, one after the other. -/
def Sets (names : List String) : State → State → Prop :=
  Relation.ReflTransGen (SetsOne names)

theorem Sets.mono {names names' : List String} {s t : State} (h : s.Sets names t)
    (hnames : names ⊆ names') : s.Sets names' t :=
  Relation.ReflTransGen.mono (fun _ _ ⟨name, hname, hset⟩ => ⟨name, hnames hname, hset⟩) _ _ h

end State

/-! ### Evaluations -/

section SetsOnly

variable {ε α β : Type} {names more : List String}

/-- Work on the variables that can fail does the second thing if the first succeeds. -/
theorem bind_state_apply (x : ExceptT ε (StateM State) α) (f : α → ExceptT ε (StateM State) β)
    (s : State) :
    (x >>= f) s =
      match x s with
      | (.ok a, t) => f a t
      | (.error e, t) => (.error e, t) := by
  show ExceptT.bindCont f (x s).1 (x s).2 = _
  rcases x s with ⟨a | a, t⟩ <;> rfl

/-- Whether it fails or not, the computation does nothing but set some of the variables. -/
def SetsOnly (names : List String) (x : ExceptT ε (StateM State) α) : Prop :=
  ∀ s : State, s.Sets names (x s).2

theorem SetsOnly.mono {x : ExceptT ε (StateM State) α} (hx : SetsOnly names x)
    (hnames : names ⊆ more) : SetsOnly more x :=
  fun s => (hx s).mono hnames

theorem SetsOnly.pure (a : α) : SetsOnly names (Pure.pure a : ExceptT ε (StateM State) α) :=
  fun _ => .refl

theorem SetsOnly.throw (error : ε) :
    SetsOnly names (MonadExcept.throw error : ExceptT ε (StateM State) α) :=
  fun _ => .refl

theorem SetsOnly.get : SetsOnly names (get : ExceptT ε (StateM State) State) :=
  fun _ => .refl

theorem SetsOnly.bind {x : ExceptT ε (StateM State) α} {f : α → ExceptT ε (StateM State) β}
    (hx : SetsOnly names x) (hf : ∀ a, SetsOnly names (f a)) : SetsOnly names (x >>= f) := by
  intro s
  have h := hx s
  rw [bind_state_apply]
  rcases hr : x s with ⟨e | a, t⟩
  · rwa [hr] at h
  · rw [hr] at h
    exact h.trans (hf a t)

end SetsOnly

theorem assign_of_ok {name : String} {value : Value} {s t : State} (h : s.set name value = .ok t) :
    assign name value s = (.ok (), t) := by
  have hget : (get : Evaluation State) s = (.ok s, s) := rfl
  rw [assign, bind_state_apply, hget]
  dsimp only
  rw [h]
  rfl

theorem assign_of_error {name : String} {value : Value} {s : State} {e : InvalidVariable}
    (h : s.set name value = .error e) : assign name value s = (.error (.badVariable e), s) := by
  have hget : (get : Evaluation State) s = (.ok s, s) := rfl
  rw [assign, bind_state_apply, hget]
  dsimp only
  rw [h]
  rfl

theorem setsOnly_assign (name : String) (value : Value) : SetsOnly [name] (assign name value) := by
  intro s
  cases h : s.set name value with
  | ok t =>
      rw [assign_of_ok h]
      exact .single ⟨name, List.mem_singleton_self name, value, h⟩
  | error e =>
      rw [assign_of_error h]
      exact .refl

namespace Expr

theorem setsOnly_liftExcept {α : Type} {names : List String} (r : Except ExprError α) :
    SetsOnly names (eval.liftExcept r) := by
  cases r with
  | ok a => exact .pure a
  | error e => exact .throw e

/-- An operand that is no variable is evaluated to tell whether it is there. -/
theorem eval_defined {wanted : Bool} {operand : Expr}
    (h : ∀ name, operand ≠ var name) :
    (defined wanted operand).eval = (do return .bool (!(← operand.eval).isNull == wanted)) := by
  cases operand <;> first | exact absurd rfl (h _) | rfl

/-- All operators but conjunction and disjunction evaluate both of their operands. -/
theorem eval_binary {op : BinaryOp} {left right : Expr} (hand : op ≠ .and) (hor : op ≠ .or) :
    (binary op left right).eval =
      (do let a ← left.eval; let b ← right.eval; eval.liftExcept (op.apply a b)) := by
  cases op <;> first | exact absurd rfl hand | exact absurd rfl hor | rfl

/-- An evaluation sets targets of assignments and does nothing else. -/
theorem sets_eval (e : Expr) : SetsOnly e.targets e.eval := by
  induction e using Expr.eval.induct with
  | case1 value => exact .pure value
  | case2 name => exact .bind .get fun s => .pure _
  | case3 operand ih => exact .bind ih fun value => .pure _
  | case4 operand ih =>
      exact .bind ih fun value => .bind (setsOnly_liftExcept _) fun x => setsOnly_liftExcept _
  | case5 wanted name => exact .bind .get fun s => .pure _
  | case6 wanted operand hvar ih =>
      rw [eval_defined fun name heq => hvar name heq]
      exact .bind ih fun value => .pure _
  | case7 left right ihl ihr =>
      refine .bind (ihl.mono (List.subset_append_left _ _)) fun value => ?_
      split
      · exact ihr.mono (List.subset_append_right _ _)
      · exact .pure value
  | case8 left right ihl ihr =>
      refine .bind (ihl.mono (List.subset_append_left _ _)) fun value => ?_
      split
      · exact .pure value
      · exact ihr.mono (List.subset_append_right _ _)
  | case9 op left right hand hor ihl ihr =>
      rw [eval_binary hand hor]
      refine .bind (ihl.mono (List.subset_append_left _ _)) fun a => ?_
      exact .bind (ihr.mono (List.subset_append_right _ _)) fun b => setsOnly_liftExcept _
  | case10 op target right ih =>
      refine .bind (ih.mono (List.subset_cons_self _ _)) fun b => .bind .get fun s => ?_
      refine .bind (setsOnly_liftExcept _) fun value => .bind ?_ fun _ => .pure value
      exact (setsOnly_assign target value).mono (List.cons_subset_cons target (List.nil_subset _))

end Expr

end StoryEngine
