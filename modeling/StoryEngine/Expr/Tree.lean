import StoryEngine.Value.Basic
/-!
# StoryEngine.Expr.Tree

Expressions as trees, and the spelling and binding strength of their operators. Binary operators
have levels from 1, which binds most tightly, to 6; operators of one level associate to the left.
-/

namespace StoryEngine

/-- The operators between two operands. -/
inductive BinaryOp where
  | add
  | sub
  | mul
  | div
  | rem
  /-- Equal after numbers, strings and booleans were made comparable. -/
  | eq
  | ne
  /-- Equal as they are. -/
  | same
  | notSame
  | lt
  | le
  | gt
  | ge
  | and
  | or
deriving Repr, DecidableEq

namespace BinaryOp

/-- All of them. -/
def all : List BinaryOp :=
  [add, sub, mul, div, rem, eq, ne, same, notSame, lt, le, gt, ge, and, or]

/-- How loosely the operator binds. -/
def level : BinaryOp → Nat
  | mul | div | rem => 1
  | add | sub => 2
  | lt | le | gt | ge => 3
  | eq | ne | same | notSame => 4
  | and => 5
  | or => 6

/-- How the operator may be written: as a sign or, most of them, as a word. -/
def spellings : BinaryOp → List String
  | add => ["+"]
  | sub => ["-"]
  | mul => ["*"]
  | div => ["/"]
  | rem => ["%"]
  | eq => ["==", "eq"]
  | ne => ["!=", "neq"]
  | same => ["===", "is"]
  | notSame => ["!==", "isnot"]
  | lt => ["<", "lt"]
  | le => ["<=", "lte"]
  | gt => [">", "gt"]
  | ge => [">=", "gte"]
  | and => ["&&", "and"]
  | or => ["||", "or"]

/-- The operator of the level with the spelling. -/
def ofSpelling? (level : Nat) (text : String) : Option BinaryOp :=
  all.find? fun op => op.level == level && op.spellings.contains text

end BinaryOp

/-- The operators between a variable and what it is set to. -/
inductive AssignOp where
  | set
  | add
  | sub
  | mul
  | div
deriving Repr, DecidableEq

namespace AssignOp

/-- All of them. -/
def all : List AssignOp := [set, add, sub, mul, div]

/-- How the operator may be written. -/
def spellings : AssignOp → List String
  | set => ["=", "to"]
  | add => ["+="]
  | sub => ["-="]
  | mul => ["*="]
  | div => ["/="]

/-- The operator with the spelling. -/
def ofSpelling? (text : String) : Option AssignOp :=
  all.find? fun op => op.spellings.contains text

/-- The arithmetic that the operator does before it sets, if it does any. -/
def arithmetic? : AssignOp → Option BinaryOp
  | set => none
  | add => some .add
  | sub => some .sub
  | mul => some .mul
  | div => some .div

end AssignOp

/-- The operators before one operand. -/
inductive UnaryOp where
  | not
  | neg
  /-- No change; it only takes a level of nesting. -/
  | plus
  /-- Whether the operand is there: a variable that has a value, or a value other than null. -/
  | defined
  | undefined
deriving Repr, DecidableEq

namespace UnaryOp

/-- All of them. -/
def all : List UnaryOp := [not, neg, plus, defined, undefined]

/-- How the operator may be written. -/
def spellings : UnaryOp → List String
  | not => ["!", "not"]
  | neg => ["-"]
  | plus => ["+"]
  | defined => ["def"]
  | undefined => ["ndef"]

/-- The operator with the spelling. -/
def ofSpelling? (text : String) : Option UnaryOp :=
  all.find? fun op => op.spellings.contains text

end UnaryOp

/-- An expression. -/
inductive Expr where
  | literal (value : Value)
  | var (name : String)
  | not (operand : Expr)
  | neg (operand : Expr)
  /-- Whether the operand is there, compared with the wish that it be there or not. -/
  | defined (wanted : Bool) (operand : Expr)
  | binary (op : BinaryOp) (left right : Expr)
  | assign (op : AssignOp) (target : String) (value : Expr)

/-- The expression that the operator makes of its operand. -/
def UnaryOp.apply : UnaryOp → Expr → Expr
  | not, e => .not e
  | neg, e => .neg e
  | plus, e => e
  | defined, e => .defined true e
  | undefined, e => .defined false e

/-- How many nodes are on the longest way from the root to a leaf. -/
def Expr.height : Expr → Nat
  | literal _ => 1
  | var _ => 1
  | not e => e.height + 1
  | neg e => e.height + 1
  | defined _ e => e.height + 1
  | binary _ l r => max l.height r.height + 1
  | assign _ _ e => e.height + 1

end StoryEngine
