import StoryEngine.Expr.Parser
/-!
# StoryEngine.Expr.Eval

The values of expressions. Evaluation reads and sets variables as it goes, from left to right;
what it has set stays set when it fails further on. Source text is read completely before any of
it is evaluated, so a misspelled text sets nothing.
-/

namespace StoryEngine

/-- Work on the variables that can fail. What was done before a failure stays done. -/
abbrev Evaluation (α : Type) := ExceptT ExprError (StateM State) α

namespace Value

/-- The number that the value stands for in arithmetic: null and blank strings are zero, true is
one, and a string is the number that it spells. -/
def toFloat : Value → Except ExprError Float
  | .null => .ok 0.0
  | .bool b => .ok (if b then 1.0 else 0.0)
  | .number n => .ok n.toFloat
  | .string s =>
    if isBlankText s then .ok 0.0
    else
      match readFloat? (trimText s) with
      | some x => .ok x
      | none => .error (.notNumeric (.string s))
  | other => .error (.notNumeric other)

/-- The value of a float result. -/
def ofFloat (x : Float) : Except ExprError Value :=
  match ofFloat? x with
  | some value => .ok value
  | none => .error .notFinite

/-- Equal as they are; two numbers are equal if they are so as floats. -/
def strictlyEqual : Value → Value → Bool
  | .number a, .number b => a.toFloat == b.toFloat
  | a, b => a.same b

/-- A number equals a string or boolean that stands for the same number. -/
def looselyEqual (a b : Value) : Bool :=
  let converted :=
    match a.toFloat, b.toFloat with
    | .ok x, .ok y => x == y
    | _, _ => false
  match a, b with
  | .number _, .string _ => converted
  | .number _, .bool _ => converted
  | .string _, .number _ => converted
  | .bool _, .number _ => converted
  | _, _ => a.strictlyEqual b

/-- The order of two strings by their characters, and of all other values as numbers. There is
none to a NaN. -/
def order? (a b : Value) : Except ExprError (Option Ordering) :=
  match a, b with
  | .string s, .string t => .ok (some (compare s t))
  | _, _ => do
    let x ← a.toFloat
    let y ← b.toFloat
    .ok (if x < y then some .lt else if x == y then some .eq else if y < x then some .gt else none)

end Value

namespace BinaryOp

/-- The outcome of a comparison, for operators of the third level. -/
def holds (op : BinaryOp) (order : Ordering) : Bool :=
  match op with
  | lt => order.isLT
  | le => order.isLE
  | gt => order.isGT
  | _ => order.isGE

/-- The arithmetic of two floats. -/
def onFloats (op : BinaryOp) (x y : Float) : Float :=
  match op with
  | add => x + y
  | sub => x - y
  | mul => x * y
  | div => x / y
  | _ => floatRemainder x y

/-- Arithmetic: addition joins texts if one of the operands is a string, all else is done on
numbers. -/
def arithmetic (op : BinaryOp) (a b : Value) : Except ExprError Value :=
  if op == add && (a.isString || b.isString) then .ok (.string (a.display ++ b.display))
  else do
    let x ← a.toFloat
    let y ← b.toFloat
    Value.ofFloat (op.onFloats x y)

/-- The result of the operator on the values of both operands. -/
def apply (op : BinaryOp) (a b : Value) : Except ExprError Value :=
  match op with
  | eq => .ok (.bool (a.looselyEqual b))
  | ne => .ok (.bool (!a.looselyEqual b))
  | same => .ok (.bool (a.strictlyEqual b))
  | notSame => .ok (.bool (!a.strictlyEqual b))
  | lt | le | gt | ge => do
    match ← a.order? b with
    | some order => .ok (.bool (op.holds order))
    | none => .ok (.bool false)
  | _ => op.arithmetic a b

end BinaryOp

/-- The value that an assignment gives its target, from the value on its right. -/
def AssignOp.newValue (op : AssignOp) (old right : Value) : Except ExprError Value :=
  match op.arithmetic? with
  | none => .ok right
  | some arithmetic => arithmetic.arithmetic old right

/-- Set a variable as part of an evaluation. -/
def assign (name : String) (value : Value) : Evaluation Unit := do
  match (← get).set name value with
  | .ok s => set s
  | .error e => throw (.badVariable e)

namespace Expr

/-- The value of the expression. The right operand of a conjunction or disjunction is evaluated
only if the left one does not decide. -/
def eval : Expr → Evaluation Value
  | literal value => pure value
  | var name => do return (← get).value name
  | not operand => do return .bool !(← operand.eval).isTruthy
  | neg operand => do
    let x ← liftExcept (← operand.eval).toFloat
    liftExcept (Value.ofFloat (-x))
  | defined wanted (var name) => do return .bool ((← get).has name == wanted)
  | defined wanted operand => do return .bool (!(← operand.eval).isNull == wanted)
  | binary .and left right => do
    let value ← left.eval
    if value.isTruthy then right.eval else pure value
  | binary .or left right => do
    let value ← left.eval
    if value.isTruthy then pure value else right.eval
  | binary op left right => do
    let a ← left.eval
    let b ← right.eval
    liftExcept (op.apply a b)
  | assign op target right => do
    let b ← right.eval
    let value ← liftExcept (op.newValue ((← get).value target) b)
    StoryEngine.assign target value
    pure value
where
  /-- A result that does not depend on the variables. -/
  liftExcept {α : Type} : Except ExprError α → Evaluation α
    | .ok a => pure a
    | .error e => throw e

end Expr

/-- Evaluate statements in order. The value is that of the last, and null if there is none. -/
def evalStatements : List Expr → Value → Evaluation Value
  | [], last => pure last
  | statement :: rest, _ => do
    let value ← statement.eval
    evalStatements rest value

/-- Evaluate a source text. -/
def evaluate (source : String) : Evaluation Value :=
  match parseStatements source with
  | .error e => throw e
  | .ok statements => evalStatements statements .null

/-- Evaluate a source text to a condition. -/
def evaluateCondition (source : String) : Evaluation Bool := do
  return (← evaluate source).isTruthy

end StoryEngine
