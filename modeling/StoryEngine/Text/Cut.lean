/-!
# StoryEngine.Text.Cut

Cutting a text at a mark: at its first or last occurrence, or off one of the two ends. A cut
removes the mark and keeps the characters on both sides of it in order.
-/

namespace StoryEngine

/-- The characters before and after the first occurrence of the mark. -/
def cutFirst? (mark : List Char) : List Char → Option (List Char × List Char)
  | [] => none
  | c :: cs =>
    if mark.isPrefixOf (c :: cs) then some ([], (c :: cs).drop mark.length)
    else (cutFirst? mark cs).map fun (before, after) => (c :: before, after)

/-- The characters before and after the last occurrence of the mark. -/
def cutLast? (mark : List Char) : List Char → Option (List Char × List Char)
  | [] => none
  | c :: cs =>
    match cutLast? mark cs with
    | some (before, after) => some (c :: before, after)
    | none =>
      if mark.isPrefixOf (c :: cs) then some ([], (c :: cs).drop mark.length) else none

/-- The characters after the mark, if they begin with it. -/
def stripStart? (mark cs : List Char) : Option (List Char) :=
  if mark.isPrefixOf cs then some (cs.drop mark.length) else none

/-- The characters before the mark, if they end with it. -/
def stripEnd? (mark cs : List Char) : Option (List Char) :=
  if mark.isSuffixOf cs then some (cs.take (cs.length - mark.length)) else none

/-- The mark occurs in the characters. -/
def hasMark (mark cs : List Char) : Bool :=
  (cutFirst? mark cs).isSome

end StoryEngine
