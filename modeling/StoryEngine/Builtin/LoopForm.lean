import StoryEngine.Name
import StoryEngine.Text.Blank
import StoryEngine.Text.Cut
/-!
# StoryEngine.Builtin.LoopForm

The forms that the arguments of a loop can have: none, for a loop without end; a condition;
three parts with semicolons between them, for what is done first, the condition, and what is done
after each pass; or a range, with variables for the entries of a collection.
-/

namespace StoryEngine.Builtin

/-- What the arguments of a loop say. -/
inductive LoopForm where
  /-- Loop while the condition holds, if there is one, with expressions to evaluate before the
  first pass and after each. -/
  | steps (init condition post : Option String)
  /-- Loop over the entries of a collection. -/
  | range (key value : Option String) (collection : String)
  /-- The arguments have no such form. -/
  | malformed (message : String)
deriving Repr, DecidableEq

/-- The first of the characters is a blank. -/
def blankFollows : List Char → Bool
  | [] => false
  | c :: _ => isBlank c

/-- The text behind the word `range` and blanks, if the characters begin with these. -/
def afterRange? (cs : List Char) : Option (List Char) :=
  match stripStart? ['r', 'a', 'n', 'g', 'e'] cs with
  | some rest =>
    if blankFollows rest && !(dropBlanks rest).isEmpty then some (dropBlanks rest) else none
  | none => none

/-- The word `range` with text behind it begins here, if `isStart` holds, or behind a blank. -/
def hasRange (isStart : Bool) : List Char → Bool
  | [] => false
  | c :: cs => (isStart && (afterRange? (c :: cs)).isSome) || hasRange (isBlank c) cs

/-- A variable and what follows it. -/
def spanVariable? : List Char → Option (List Char × List Char)
  | sigil :: c :: cs =>
    if isSigil sigil && isVariableStart c then
      some (sigil :: c :: cs.takeWhile isVariablePart, cs.dropWhile isVariablePart)
    else none
  | _ => none

/-- The part of a range form from its value variable on. -/
def rangeValue? (cs : List Char) : Option (List Char × List Char) :=
  match spanVariable? cs with
  | some (value, rest) =>
    if blankFollows rest then (afterRange? (dropBlanks rest)).map fun e => (value, e) else none
  | none => none

/-- The part of a range form with a key variable, a comma and a value variable. -/
def rangeKey? (cs : List Char) : Option (List Char × List Char × List Char) :=
  match spanVariable? cs with
  | some (key, rest) =>
    match dropBlanks rest with
    | ',' :: rest => (rangeValue? (dropBlanks rest)).map fun (value, e) => (key, value, e)
    | _ => none
  | none => none

/-- The parts of a range form. -/
def rangeForm? (cs : List Char) : Option LoopForm :=
  match rangeKey? cs with
  | some (key, value, e) =>
    some (.range (some (String.ofList key)) (some (String.ofList value)) (String.ofList e))
  | none =>
    match rangeValue? cs with
    | some (value, e) => some (.range none (some (String.ofList value)) (String.ofList e))
    | none => (afterRange? cs).map fun e => .range none none (String.ofList e)

/-- The second word is the given one, and there is a third. -/
def secondWordIs (word cs : List Char) : Bool :=
  match stripStart? word (dropBlanks (cs.dropWhile (!isBlank ·))) with
  | some rest => blankFollows rest && !(dropBlanks rest).isEmpty
  | none => false

/-- The characters without blanks around them, or nothing if no others are left. -/
def part? (cs : List Char) : Option String :=
  let trimmed := trimBlanks cs
  if trimmed.isEmpty then none else some (String.ofList trimmed)

/-- The parts between exactly two semicolons. -/
def threeParts? (cs : List Char) : Option LoopForm :=
  match cutFirst? [';'] cs with
  | none => none
  | some (init, rest) =>
    match cutFirst? [';'] rest with
    | none => none
    | some (condition, post) =>
      if post.contains ';' then none
      else some (.steps (part? init) (part? condition) (part? post))

/-- The form of a loop's arguments, which have no blanks around them. -/
def LoopForm.ofText (text : String) : LoopForm :=
  let cs := text.toList
  if cs.isEmpty then .steps none none none
  else if hasRange true cs then
    (rangeForm? cs).getD
      (.malformed "invalid range form syntax, format: [index ,] value range collection")
  else if secondWordIs ['i', 'n'] cs then
    .malformed "invalid syntax, for…in is not supported; see: for…range"
  else if secondWordIs ['o', 'f'] cs then
    .malformed "invalid syntax, for…of is not supported; see: for…range"
  else if cs.contains ';' then
    (threeParts? cs).getD
      (.malformed
        "invalid 3-part conditional form syntax, format: [init] ; [condition] ; [post]")
  else .steps none (some text) none

end StoryEngine.Builtin
