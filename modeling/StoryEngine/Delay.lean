import StoryEngine.Decimal.Layout
import StoryEngine.Decimal.Reader
/-!
# StoryEngine.Delay

Time values such as `2s`, `.5s` and `250ms`: an optional sign, decimal digits with at most one
point, which does not end them, and a unit in any letter case. As a delay, a time value counts in
whole milliseconds, negative ones as none, up to the longest delay that a timer takes.
-/

namespace StoryEngine

/-- Why a text is no usable time value. -/
inductive TimeError where
  /-- It is not written as a time value. -/
  | malformed (text : String)
  /-- It is too large. -/
  | outOfRange (text : String)
deriving Repr, DecidableEq

/-- The wording of the error. -/
def TimeError.message : TimeError → String
  | malformed text => "invalid time value syntax: \"" ++ text ++ "\""
  | outOfRange text => "invalid time value: \"" ++ text ++ "\""

/-- The characters are an `s` in either case. -/
def isSecondMark (c : Char) : Bool :=
  c == 's' || c == 'S'

/-- How many milliseconds the unit stands for. -/
def unitMilliseconds? : List Char → Option Float
  | [s] => if isSecondMark s then some 1000.0 else none
  | [m, s] => if (m == 'm' || m == 'M') && isSecondMark s then some 1.0 else none
  | _ => none

/-- A time value's sign, its digits before and after the point, and its unit in milliseconds. -/
def timeParts? (text : String) : Option (Bool × List Char × List Char × Float) :=
  let (negative, cs) := takeSign text.toList
  let whole := cs.takeWhile Char.isDigit
  match cs.dropWhile Char.isDigit with
  | '.' :: rest =>
    let fraction := rest.takeWhile Char.isDigit
    if fraction.isEmpty then none
    else
      (unitMilliseconds? (rest.dropWhile Char.isDigit)).map fun unit =>
        (negative, whole, fraction, unit)
  | rest =>
    if whole.isEmpty then none
    else (unitMilliseconds? rest).map fun unit => (negative, whole, [], unit)

/-- The milliseconds of a time value, which need not be whole. -/
def milliseconds (text : String) : Except TimeError Float :=
  match timeParts? text with
  | none => .error (.malformed text)
  | some (negative, whole, fraction, unit) =>
    let size := nearestFloat (whole ++ fraction) (-(fraction.length : Int))
    let value := (if negative then -size else size) * unit
    if isFinite value then .ok value else .error (.outOfRange text)

/-- The longest delay of a timer in milliseconds, the largest signed 32-bit number. -/
def longestDelay : Nat := 0x7FFFFFFF

/-- The finite float is larger than the number. -/
def exceeds (x : Float) (n : Nat) : Bool :=
  !isNegative x && (n < (magnitude x).whole || (n = (magnitude x).whole && !(magnitude x).isWhole))

/-- The whole milliseconds of a finite number of them, none if it is negative. Past the longest
delay they are out of range. -/
def checkedDelay (ms : Float) (text : String) : Except TimeError Nat :=
  if exceeds ms longestDelay then .error (.outOfRange text)
  else .ok (if isNegative ms then 0 else (magnitude ms).whole)

/-- The delay that a time value stands for, but not less than the floor. -/
def delayOf (text : String) (floor : Nat) : Except TimeError Nat := do
  let ms ← milliseconds text
  let delay ← checkedDelay ms text
  .ok (max delay floor)

end StoryEngine
