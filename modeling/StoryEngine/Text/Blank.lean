/-!
# StoryEngine.Text.Blank

White space. A *blank* is a character with the Unicode `White_Space` property: the twenty-five
code points below. Trimming removes blanks from one or both ends of a text and nothing else.
-/

namespace StoryEngine

/-- The character has the Unicode `White_Space` property. -/
def isBlank (c : Char) : Bool :=
  let n := c.toNat
  n == 0x20 || (0x09 ≤ n && n ≤ 0x0D) ||
    (0x80 ≤ n &&
      (n == 0x85 || n == 0xA0 || n == 0x1680 || (0x2000 ≤ n && n ≤ 0x200A) || n == 0x2028 ||
        n == 0x2029 || n == 0x202F || n == 0x205F || n == 0x3000))

/-- The characters without the leading blanks. -/
def dropBlanks (cs : List Char) : List Char :=
  cs.dropWhile isBlank

/-- The characters without the trailing blanks. -/
def dropBlanksEnd (cs : List Char) : List Char :=
  (cs.reverse.dropWhile isBlank).reverse

/-- The characters without leading and trailing blanks. -/
def trimBlanks (cs : List Char) : List Char :=
  dropBlanksEnd (dropBlanks cs)

/-- The text without leading and trailing blanks. -/
def trimText (s : String) : String :=
  String.ofList (trimBlanks s.toList)

/-- The text holds nothing but blanks. -/
def isBlankText (s : String) : Bool :=
  s.toList.all isBlank

theorem length_dropBlanks_le (cs : List Char) : (dropBlanks cs).length ≤ cs.length :=
  (List.dropWhile_sublist isBlank).length_le

end StoryEngine
