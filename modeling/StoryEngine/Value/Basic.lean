import StoryEngine.Decimal.Reader
import StoryEngine.Entries
/-!
# StoryEngine.Value.Basic

The values that story variables hold: null, booleans, numbers, strings, arrays and objects. A
number is held as an integer or as a float, and which of the two it is can be told from its text.
-/

namespace StoryEngine

/-- A number, held exactly as an integer or as a finite float. -/
inductive Number where
  | int (n : Int)
  | float (x : Float)

namespace Number

/-- The float nearest to the number. -/
def toFloat : Number → Float
  | int n => Float.ofInt n
  | float x => x

/-- Held in the same way and equal. `0.0` and `-0.0` are equal. -/
def same : Number → Number → Bool
  | int a, int b => a == b
  | float a, float b => a == b
  | _, _ => false

end Number

/-- A value. The members of an object ascend by name. -/
inductive Value where
  | null
  | bool (b : Bool)
  | number (n : Number)
  | string (s : String)
  | array (items : List Value)
  | object (members : List (String × Value))

instance : Inhabited Value := ⟨.null⟩

namespace Value

/-- An integer. -/
abbrev int (n : Int) : Value := .number (.int n)

mutual

/-- The two values have the same shape and the same contents. -/
def same : Value → Value → Bool
  | .null, .null => true
  | .bool a, .bool b => a == b
  | .number a, .number b => a.same b
  | .string a, .string b => a == b
  | .array a, .array b => sameItems a b
  | .object a, .object b => sameMembers a b
  | _, _ => false

/-- Item by item `same`. -/
def sameItems : List Value → List Value → Bool
  | [], [] => true
  | a :: as, b :: bs => same a b && sameItems as bs
  | _, _ => false

/-- The same names with the `same` values. -/
def sameMembers : List (String × Value) → List (String × Value) → Bool
  | [], [] => true
  | (k, a) :: as, (l, b) :: bs => k == l && same a b && sameMembers as bs
  | _, _ => false

end

/-- The value counts as true in a condition: not null, false, zero or the empty string. -/
def isTruthy : Value → Bool
  | .null => false
  | .bool b => b
  | .number n => n.toFloat != 0.0
  | .string s => !s.isEmpty
  | .array _ => true
  | .object _ => true

/-- The value is a string. -/
def isString : Value → Bool
  | .string _ => true
  | _ => false

/-- The value is null. -/
def isNull : Value → Bool
  | .null => true
  | _ => false

/-- The named member of an object. Other values have none. -/
def member? (name : String) : Value → Option Value
  | .object members => Entries.find? name members
  | _ => none

/-- The number that a finite float stands for: an integer if it is whole and below `2^53` in
size, and itself otherwise. Infinite floats and NaN stand for none. -/
def ofFloat? (x : Float) : Option Value :=
  if !isFinite x then none
  else if isWholeFloat x && (wholePart x).natAbs < Nat.pow 2 53 then some (.int (wholePart x))
  else some (.number (.float x))

end Value

end StoryEngine
