import StoryEngine.Decimal.Shortest
/-!
# StoryEngine.Decimal.Layout

How a float is written. Two layouts are in use: the one for number values, which changes to
scientific notation for very large and very small numbers and always shows that the number is
no integer, and the plain one, which writes every digit and nothing else. Both write the
shortest digits that read back.
-/

namespace StoryEngine

/-- The decisions of a layout. -/
structure DecimalLayout where
  /-- Leading digits at these decimal exponents are written in scientific notation. -/
  isScientific : Int → Bool
  /-- Whole numbers written positionally end in `.0`. -/
  pointZero : Bool
  /-- Which of two equally near digit strings is written. -/
  tie : Tie

namespace DecimalLayout

/-- The layout of number values: positional from `0.00001` up to below `10^16`. -/
def value : DecimalLayout where
  isScientific lead := lead < -5 || 16 ≤ lead
  pointZero := true
  tie := .toEven

/-- The plain layout: positional at every size, without `.0`. -/
def plain : DecimalLayout where
  isScientific _ := false
  pointZero := false
  tie := .upward

/-- Digits with a decimal point, the first of them at the decimal exponent `lead`. -/
def positional (layout : DecimalLayout) (digits : List Char) (lead : Int) : List Char :=
  if lead < 0 then
    ['0', '.'] ++ List.replicate (-lead - 1).toNat '0' ++ digits
  else
    let whole := lead.toNat + 1
    if digits.length ≤ whole then
      digits ++ List.replicate (whole - digits.length) '0' ++
        (if layout.pointZero then ['.', '0'] else [])
    else digits.take whole ++ '.' :: digits.drop whole

/-- One digit, the other digits after a point, and the signed exponent. -/
def scientific (digits : List Char) (lead : Int) : List Char :=
  digits.take 1 ++ (if digits.length ≤ 1 then [] else '.' :: digits.drop 1) ++
    ['e', if lead < 0 then '-' else '+'] ++ Nat.toDigits 10 lead.natAbs

/-- A positive magnitude in the layout. -/
def magnitudeText (layout : DecimalLayout) (x : Binary) : List Char :=
  let d := x.shortest layout.tie
  let digits := Nat.toDigits 10 d.digits
  let lead := d.exponent + digits.length - 1
  if layout.isScientific lead then scientific digits lead else layout.positional digits lead

/-- A float in the layout. The sign of zero is kept. -/
def text (layout : DecimalLayout) (x : Float) : String :=
  if isNotNumber x then "NaN"
  else
    let sign := if isNegative x then ['-'] else []
    let digits :=
      if !isFinite x then ['i', 'n', 'f']
      else if (magnitude x).m = 0 then layout.positional ['0'] 0
      else layout.magnitudeText (magnitude x)
    String.ofList (sign ++ digits)

end DecimalLayout

end StoryEngine
