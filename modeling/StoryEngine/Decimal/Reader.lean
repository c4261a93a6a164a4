import StoryEngine.Decimal.Binary
/-!
# StoryEngine.Decimal.Reader

Reading a float from decimal text. The whole text must be a number: an optional sign, digits
with at most one point among, before or after them, and an optional exponent; or, in any letter
case, `inf`, `infinity` or `nan`. The result is the float nearest to the written value.
-/

namespace StoryEngine

/-- The value of a string of decimal digits. -/
def digitsValue (digits : List Char) : Nat :=
  digits.foldl (fun n c => 10 * n + (c.toNat - 48)) 0

/-- The float nearest to `digits · 10^exponent`. Sizes far outside the range of floats are
decided by the number of digits alone. -/
def nearestFloat (digits : List Char) (exponent : Int) : Float :=
  let m := digitsValue digits
  let size := exponent + (digits.dropWhile (· == '0')).length
  if m = 0 || size < -400 then 0.0
  else if 400 < size then 1.0 / 0.0
  else if exponent < 0 then Float.ofScientific m true (-exponent).toNat
  else Float.ofScientific m false exponent.toNat

/-- An optional sign: whether it is a minus, and what follows. -/
def takeSign : List Char → Bool × List Char
  | '+' :: cs => (false, cs)
  | '-' :: cs => (true, cs)
  | cs => (false, cs)

/-- The exponent that the text after a number's digits stands for, if it is one. -/
def readExponent? : List Char → Option Int
  | [] => some 0
  | c :: cs =>
    if c == 'e' || c == 'E' then
      let (negative, digits) := takeSign cs
      if digits.isEmpty || !digits.all Char.isDigit then none
      else if negative then some (-(digitsValue digits : Int)) else some (digitsValue digits)
    else none

/-- A number without its sign. -/
def readMagnitude? (cs : List Char) : Option Float :=
  let whole := cs.takeWhile Char.isDigit
  let (fraction, tail) :=
    match cs.dropWhile Char.isDigit with
    | '.' :: rest => (rest.takeWhile Char.isDigit, rest.dropWhile Char.isDigit)
    | rest => ([], rest)
  if whole.isEmpty && fraction.isEmpty then none
  else (readExponent? tail).map fun e => nearestFloat (whole ++ fraction) (e - fraction.length)

/-- The float that the whole text stands for. -/
def readFloat? (s : String) : Option Float :=
  let (negative, cs) := takeSign s.toList
  let word := String.ofList (cs.map Char.toLower)
  let magnitude :=
    if word == "inf" || word == "infinity" then some (1.0 / 0.0)
    else if word == "nan" then some notANumber
    else readMagnitude? cs
  if negative then magnitude.map fun x => -x else magnitude

end StoryEngine
