import StoryEngine.Decimal.Binary
/-!
# StoryEngine.Decimal.Shortest

The shortest decimal that reads back as a given float. Of the decimals with the fewest digits
that lie among the reals rounding to the float, the one nearest to it is taken; two that are
equally near are told apart by a tie rule. Everything is decided by exact comparisons of natural
numbers.
-/

namespace StoryEngine

/-- The value `digits · 10^exponent`. -/
structure Decimal where
  digits : Nat
  exponent : Int
deriving Repr, DecidableEq

/-- Which of two equally near decimals is taken. -/
inductive Tie where
  /-- The one whose last digit is even. -/
  | toEven
  /-- The larger one. -/
  | upward
deriving Repr, DecidableEq

/-- Compare `a · 10^i` with `n · 2^j`. -/
def compareScaled (a : Nat) (i : Int) (n : Nat) (j : Int) : Ordering :=
  compare (a * Nat.pow 10 i.toNat * Nat.pow 2 (-j).toNat)
    (n * Nat.pow 2 j.toNat * Nat.pow 10 (-i).toNat)

namespace Binary

/-- The decimal lies among the reals that round to the magnitude, to nearest and ties to even. -/
def readsBack (x : Binary) (d : Decimal) : Bool :=
  let low := if x.narrowBelow then 4 * x.m - 1 else 4 * x.m - 2
  let high := 4 * x.m + 2
  let inclusive := x.m % 2 == 0
  let toLow := compareScaled d.digits d.exponent low (x.q - 2)
  let toHigh := compareScaled d.digits d.exponent high (x.q - 2)
  (toLow == .gt || (inclusive && toLow == .eq)) && (toHigh == .lt || (inclusive && toHigh == .eq))

/-- The exponent of the leading decimal digit of a positive magnitude. A float is at least
`10^-400`, so the length of its value times `10^400` tells it. -/
def leadingExponent (x : Binary) : Int :=
  let scaled := x.m * Nat.pow 10 400 * Nat.pow 2 x.q.toNat / Nat.pow 2 (-x.q).toNat
  ((Nat.toDigits 10 scaled).length : Int) - 401

/-- The largest multiple of `10^k` that does not exceed the magnitude, in units of `10^k`. -/
def gridFloor (x : Binary) (k : Int) : Nat :=
  x.m * Nat.pow 2 x.q.toNat * Nat.pow 10 (-k).toNat / (Nat.pow 2 (-x.q).toNat * Nat.pow 10 k.toNat)

/-- The neighbours of the magnitude on the grid of multiples of `10^k`: the one that reads back,
of two the nearer. -/
def onGrid? (x : Binary) (tie : Tie) (k : Int) : Option Decimal :=
  let below : Decimal := ⟨x.gridFloor k, k⟩
  let above : Decimal := ⟨below.digits + 1, k⟩
  match x.readsBack below, x.readsBack above with
  | true, true =>
    -- the middle of the two against the magnitude
    match compareScaled (2 * below.digits + 1) k (2 * x.m) x.q, tie with
    | .gt, _ => some below
    | .lt, _ => some above
    | .eq, .upward => some above
    | .eq, .toEven => some (if below.digits % 2 == 0 then below else above)
  | true, false => some below
  | false, true => some above
  | false, false => none

end Binary

/-- Move the trailing zeros of the digits into the exponent. At most `n` of them are moved. -/
def Decimal.stripZeros : Nat → Decimal → Decimal
  | 0, d => d
  | n + 1, d =>
    if d.digits % 10 == 0 && d.digits != 0 then stripZeros n ⟨d.digits / 10, d.exponent + 1⟩ else d

/-- The shortest decimal that reads back as the positive magnitude. Seventeen digits always do. -/
def Binary.shortest (x : Binary) (tie : Tie) : Decimal :=
  let lead := x.leadingExponent
  let found := (List.range 17).findSome? fun (n : Nat) => x.onGrid? tie (lead - (n : Int))
  (found.getD ⟨x.gridFloor (lead - 16), lead - 16⟩).stripZeros 20

end StoryEngine
