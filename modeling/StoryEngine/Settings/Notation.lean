import StoryEngine.Decimal.Reader
/-!
# StoryEngine.Settings.Notation

Reading JSON text as a tree that keeps what settings need to know: whether a number is written as
an integer, and every member of an object in order, also those of the same name. The whole text
must be one value, with blanks around it at most.
-/

namespace StoryEngine

/-- A value as it is written. -/
inductive Datum where
  | null
  | bool (b : Bool)
  /-- A number without fraction and exponent. Negative zero is none such. -/
  | integer (n : Int)
  /-- Any other number. -/
  | decimal
  /-- A string; nothing if its escapes name no characters. -/
  | string (s : Option String)
  | array (items : List Datum)
  | object (members : List (String × Datum))

namespace Datum

/-- The blanks between the parts of a value. -/
def isGap (c : Char) : Bool :=
  c == ' ' || c == '\n' || c == '\t' || c == '\r'

/-- The characters without the leading blanks. -/
def dropGap (cs : List Char) : List Char :=
  cs.dropWhile isGap

/-- The value of a hexadecimal digit. -/
def hexValue? (c : Char) : Option Nat :=
  if c.isDigit then some (c.toNat - 48)
  else if 'a' ≤ c && c ≤ 'f' then some (c.toNat - 87)
  else if 'A' ≤ c && c ≤ 'F' then some (c.toNat - 55)
  else none

/-- The number that four hexadecimal digits spell, and what follows them. -/
def hexUnit? : List Char → Option (Nat × List Char)
  | a :: b :: c :: d :: cs => do
    let a ← hexValue? a
    let b ← hexValue? b
    let c ← hexValue? c
    let d ← hexValue? d
    return (4096 * a + 256 * b + 16 * c + d, cs)
  | _ => none

/-- The character that a one-letter escape names. -/
def escapeChar? (c : Char) : Option Char :=
  if c == '"' || c == '\\' || c == '/' then some c
  else if c == 'b' then some (Char.ofNat 0x08)
  else if c == 'f' then some (Char.ofNat 0x0C)
  else if c == 'n' then some '\n'
  else if c == 'r' then some '\r'
  else if c == 't' then some '\t'
  else none

/-- A piece of a string: a character, or one unit of an escaped code. -/
inductive Piece where
  | char (c : Char)
  | unit (n : Nat)

/-- The pieces of a string up to its closing quote, and what follows. At most `n` pieces are
read. -/
def pieces? : Nat → List Char → Option (List Piece × List Char)
  | 0, _ => none
  | _, [] => none
  | n + 1, '\\' :: 'u' :: cs => do
    let (unit, rest) ← hexUnit? cs
    let (more, rest) ← pieces? n rest
    return (.unit unit :: more, rest)
  | n + 1, '\\' :: c :: cs => do
    let c ← escapeChar? c
    let (more, rest) ← pieces? n cs
    return (.char c :: more, rest)
  | n + 1, c :: cs =>
    if c == '"' then some ([], cs)
    else if c == '\\' || c.toNat < 0x20 then none
    else (pieces? n cs).map fun (more, rest) => (.char c :: more, rest)

/-- The characters that the pieces stand for. The units of a pair name one character together; a
unit of a pair that stands alone names none. -/
def join? : List Piece → Option (List Char)
  | [] => some []
  | .char c :: rest => (join? rest).map (c :: ·)
  | .unit high :: rest =>
    if 0xD800 ≤ high && high < 0xDC00 then
      match rest with
      | .unit low :: rest =>
        if 0xDC00 ≤ low && low < 0xE000 then
          (join? rest).map
            (Char.ofNat (0x10000 + 0x400 * (high - 0xD800) + (low - 0xDC00)) :: ·)
        else none
      | _ => none
    else if 0xDC00 ≤ high && high < 0xE000 then none
    else (join? rest).map (Char.ofNat high :: ·)

/-- A string behind its opening quote, and what follows it. -/
def string? (cs : List Char) : Option (Option String × List Char) := do
  let (pieces, rest) ← pieces? (cs.length + 1) cs
  return ((join? pieces).map String.ofList, rest)

/-- The digits of a fraction behind its point, or nothing if there is no point. -/
def dropFraction? : List Char → Option (Bool × List Char)
  | '.' :: cs =>
    if (cs.takeWhile Char.isDigit).isEmpty then none
    else some (true, cs.dropWhile Char.isDigit)
  | cs => some (false, cs)

/-- The digits of an exponent behind its mark, or nothing if there is no mark. -/
def dropExponent? : List Char → Option (Bool × List Char)
  | [] => some (false, [])
  | c :: cs =>
    if c == 'e' || c == 'E' then
      let (_, digits) := takeSign cs
      if (digits.takeWhile Char.isDigit).isEmpty then none
      else some (true, digits.dropWhile Char.isDigit)
    else some (false, c :: cs)

/-- A number behind its sign, and what follows it. Its digits have no leading zero. -/
def number? (negative : Bool) (cs : List Char) : Option (Datum × List Char) := do
  let digits := cs.takeWhile Char.isDigit
  if digits.isEmpty || (digits.head? == some '0' && 1 < digits.length) then none
  else
    let (hasFraction, rest) ← dropFraction? (cs.dropWhile Char.isDigit)
    let (hasExponent, rest) ← dropExponent? rest
    let n := digitsValue digits
    if hasFraction || hasExponent || (negative && n = 0) then some (.decimal, rest)
    else some (.integer (if negative then -n else n), rest)

mutual

/-- A value, and what follows it. The number bounds the depth of the search. -/
def value? : Nat → List Char → Option (Datum × List Char)
  | 0, _ => none
  | n + 1, cs =>
    match dropGap cs with
    | 'n' :: 'u' :: 'l' :: 'l' :: rest => some (.null, rest)
    | 't' :: 'r' :: 'u' :: 'e' :: rest => some (.bool true, rest)
    | 'f' :: 'a' :: 'l' :: 's' :: 'e' :: rest => some (.bool false, rest)
    | '"' :: rest => (string? rest).map fun (s, rest) => (.string s, rest)
    | '[' :: rest =>
      match dropGap rest with
      | ']' :: rest => some (.array [], rest)
      | rest => (items? n rest).map fun (items, rest) => (.array items, rest)
    | '\x7b' :: rest =>
      match dropGap rest with
      | '\x7d' :: rest => some (.object [], rest)
      | rest => (members? n rest).map fun (members, rest) => (.object members, rest)
    | '-' :: rest => number? true rest
    | rest => number? false rest

/-- The items of an array up to its end, and what follows. -/
def items? : Nat → List Char → Option (List Datum × List Char)
  | 0, _ => none
  | n + 1, cs => do
    let (item, rest) ← value? n cs
    match dropGap rest with
    | ']' :: rest => some ([item], rest)
    | ',' :: rest => do
      let (items, rest) ← items? n rest
      some (item :: items, rest)
    | _ => none

/-- The members of an object up to its end, and what follows. -/
def members? : Nat → List Char → Option (List (String × Datum) × List Char)
  | 0, _ => none
  | n + 1, cs =>
    match dropGap cs with
    | '"' :: rest => do
      let (name, rest) ← string? rest
      let name ← name
      match dropGap rest with
      | ':' :: rest => do
        let (value, rest) ← value? n rest
        match dropGap rest with
        | '\x7d' :: rest => some ([(name, value)], rest)
        | ',' :: rest => do
          let (members, rest) ← members? n rest
          some ((name, value) :: members, rest)
        | _ => none
      | _ => none
    | _ => none

end

/-- The value that the whole text writes. -/
def ofText? (text : String) : Option Datum :=
  let cs := text.toList
  match value? (2 * cs.length + 2) cs with
  | some (value, rest) => if (dropGap rest).isEmpty then some value else none
  | none => none

end Datum

end StoryEngine
