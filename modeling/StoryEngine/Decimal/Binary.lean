/-!
# StoryEngine.Decimal.Binary

Finite floating point numbers as exact values. A finite `Float` is a sign and a value `m · 2^q`;
its whole part, whether it has a fraction, and the remainder of a division are then questions
about natural numbers, answered without rounding.
-/

namespace StoryEngine

/-- The magnitude `m · 2^q` of a finite float. -/
structure Binary where
  m : Nat
  q : Int
  /-- The next smaller magnitude is half as far away as the next larger one. -/
  narrowBelow : Bool
deriving Repr, DecidableEq

/-- The magnitude that the bits of a finite float stand for. -/
def Binary.ofBits (bits : UInt64) : Binary :=
  let exponent := ((bits >>> 52) &&& 0x7FF).toNat
  let fraction := (bits &&& 0xFFFFFFFFFFFFF).toNat
  if exponent == 0 then ⟨fraction, -1074, false⟩
  else ⟨Nat.pow 2 52 + fraction, (exponent : Int) - 1075, fraction == 0 && exponent > 1⟩

/-- The sign bit is set. This tells `-0.0` from `0.0`. -/
def isNegative (x : Float) : Bool :=
  x.toBits >>> 63 == 1

/-- Neither infinite nor NaN. -/
def isFinite (x : Float) : Bool :=
  (x.toBits >>> 52) &&& 0x7FF != 0x7FF

/-- Not a number. -/
def isNotNumber (x : Float) : Bool :=
  !isFinite x && x.toBits &&& 0xFFFFFFFFFFFFF != 0

/-- The magnitude of a finite float. -/
def magnitude (x : Float) : Binary :=
  Binary.ofBits x.toBits

/-- The magnitude without its fraction. -/
def Binary.whole (x : Binary) : Nat :=
  if 0 ≤ x.q then x.m * Nat.pow 2 x.q.toNat else x.m / Nat.pow 2 (-x.q).toNat

/-- The magnitude is a whole number. -/
def Binary.isWhole (x : Binary) : Bool :=
  0 ≤ x.q || x.m % Nat.pow 2 (-x.q).toNat == 0

/-- The finite float without its fraction, rounded toward zero. -/
def wholePart (x : Float) : Int :=
  if isNegative x then -((magnitude x).whole : Int) else (magnitude x).whole

/-- The float is finite and has no fraction. -/
def isWholeFloat (x : Float) : Bool :=
  isFinite x && (magnitude x).isWhole

/-- The float with the given sign and magnitude `m · 2^q`, which must be one that a float can
hold; the bits of `m` that do not fit are dropped. -/
def ofMagnitude (negative : Bool) (m : Nat) (q : Int) : Float :=
  let sign : Nat := if negative then Nat.pow 2 63 else 0
  if m = 0 then Float.ofBits (UInt64.ofNat sign)
  else
    let length := m.log2 + 1
    let full := if length ≤ 53 then m * Nat.pow 2 (53 - length) else m / Nat.pow 2 (length - 53)
    let power := q + (length : Int) - 53
    if power < -1074 then
      Float.ofBits (UInt64.ofNat (sign + full / Nat.pow 2 (-1074 - power).toNat))
    else
      Float.ofBits (UInt64.ofNat
        (sign + (power + 1075).toNat * Nat.pow 2 52 + (full - Nat.pow 2 52)))

/-- A float that is not a number. -/
def notANumber : Float :=
  0.0 / 0.0

/-- The remainder of the division of two floats, exact and with the sign of the dividend. -/
def floatRemainder (x y : Float) : Float :=
  if isNotNumber x || isNotNumber y || !isFinite x then notANumber
  else if !isFinite y then x
  else
    let a := magnitude x
    let b := magnitude y
    if b.m = 0 then notANumber
    else
      let q := min a.q b.q
      ofMagnitude (isNegative x)
        (a.m * Nat.pow 2 (a.q - q).toNat % (b.m * Nat.pow 2 (b.q - q).toNat)) q

end StoryEngine
