import StoryEngine.Value.Basic
import StoryEngine.Decimal.Layout
/-!
# StoryEngine.Value.Text

The texts of a value. `Value.json` is its compact notation as data, in which strings are quoted
and objects are written with their members in order. `Value.display` is what a reader sees when
the value is printed: strings stand for themselves and the items of an array are joined by
commas.
-/

namespace StoryEngine

/-- The number as text. A float always shows that it is one. -/
def Number.text : Number → String
  | .int n => toString n
  | .float x => DecimalLayout.value.text x

/-- A hexadecimal digit in lower case. -/
def hexDigit (n : Nat) : Char :=
  if n < 10 then Char.ofNat (48 + n) else Char.ofNat (87 + n)

/-- A character inside a quoted string. Quotes, backslashes and control characters are escaped. -/
def escapedChar (c : Char) : List Char :=
  if c == '"' then ['\\', '"']
  else if c == '\\' then ['\\', '\\']
  else if c == '\n' then ['\\', 'n']
  else if c == '\r' then ['\\', 'r']
  else if c == '\t' then ['\\', 't']
  else if c.toNat == 0x08 then ['\\', 'b']
  else if c.toNat == 0x0C then ['\\', 'f']
  else if c.toNat < 0x20 then
    ['\\', 'u', '0', '0', hexDigit (c.toNat / 16), hexDigit (c.toNat % 16)]
  else [c]

/-- The string between double quotes, with escapes. -/
def quoted (s : String) : String :=
  String.ofList ('"' :: s.toList.flatMap escapedChar ++ ['"'])

namespace Value

mutual

/-- The compact notation of the value as data. -/
def json : Value → String
  | .null => "null"
  | .bool b => if b then "true" else "false"
  | .number n => n.text
  | .string s => quoted s
  | .array items => "[" ++ String.intercalate "," (jsonItems items) ++ "]"
  | .object members => "\x7b" ++ String.intercalate "," (jsonMembers members) ++ "\x7d"

/-- The notation of each item. -/
def jsonItems : List Value → List String
  | [] => []
  | item :: rest => json item :: jsonItems rest

/-- The notation of each member: its quoted name, a colon and its value. -/
def jsonMembers : List (String × Value) → List String
  | [] => []
  | (name, value) :: rest => (quoted name ++ ":" ++ json value) :: jsonMembers rest

end

mutual

/-- What a reader sees when the value is printed. -/
def display : Value → String
  | .null => "null"
  | .bool b => if b then "true" else "false"
  | .number n => n.text
  | .string s => s
  | .array items => String.intercalate "," (displayItems items)
  | .object members => json (.object members)

/-- What a reader sees of each item. -/
def displayItems : List Value → List String
  | [] => []
  | item :: rest => display item :: displayItems rest

end

end Value

end StoryEngine
