import StoryEngine.Argument.Token
import StoryEngine.Expr.Eval
import StoryEngine.Text.Cut
/-!
# StoryEngine.Argument.List

The argument list of a macro call. Every argument token stands for a value: a string for its
contents, a backquoted expression for what it evaluates to, markup for an object that describes
it, and a bareword for a variable's value, a keyword's, a number or itself.
-/

namespace StoryEngine

/-- Why arguments have no values. -/
inductive ArgumentError where
  /-- An argument is misspelled. -/
  | unreadable (text : String) (fault : ArgumentFault)
  /-- A backquoted expression fails. -/
  | badExpression (text : String) (error : ExprError)
  /-- A quoted string stands for none. -/
  | badString (text : String) (error : ExprError)

/-- The wording of the error. -/
def ArgumentError.message : ArgumentError → String
  | unreadable text fault =>
    "unable to parse macro argument \"" ++ text ++ "\": " ++ fault.message
  | badExpression text error =>
    "unable to parse macro argument expression \"" ++ text ++ "\": " ++ error.message
  | badString text error =>
    "unable to parse macro argument string " ++ text ++ ": " ++ error.message

/-- The values of the arguments, and the text that they were written as. -/
structure ArgumentList where
  values : List Value := []
  raw : String := ""

namespace ArgumentList

/-- Arguments that are left as they are written. -/
def unparsed (raw : String) : ArgumentList :=
  ⟨[], raw⟩

/-- Arguments given by their values, written as these display. -/
def ofValues (values : List Value) : ArgumentList :=
  ⟨values, String.intercalate " " (values.map Value.display)⟩

/-- What a reader sees of the argument at the index. -/
def text? (args : ArgumentList) (index : Nat) : Option String :=
  args.values[index]?.map Value.display

end ArgumentList

/-- A bareword that begins like this is a number if it spells one. -/
def beginsLikeNumber (word : String) : Bool :=
  match word.toList with
  | [] => false
  | c :: _ => c.isDigit || c == '.' || c == '+' || c == '-'

/-- The value of a bareword that is no variable. -/
def barewordValue (word : String) : Value :=
  if word == "null" || word == "undefined" || word == "NaN" then .null
  else if word == "true" then .bool true
  else if word == "false" then .bool false
  else if beginsLikeNumber word then
    ((readFloat? word).bind Value.ofFloat?).getD (.string word)
  else .string word

/-! ### Markup -/

/-- The parts of link markup: `text|link`, `text->link`, `link<-text`, or the link alone. -/
def linkParts (target : List Char) : Option (List Char) × List Char :=
  match cutFirst? ['|'] target with
  | some (text, link) => (some text, link)
  | none =>
    match cutLast? ['-', '>'] target with
    | some (text, link) => (some text, link)
    | none =>
      match cutFirst? ['<', '-'] target with
      | some (link, text) => (some text, link)
      | none => (none, target)

/-- The object that describes link markup, from what stands between its double brackets. A
setter stands behind a closing and an opening bracket. -/
def linkValue (body : List Char) : Value :=
  let (target, setter) :=
    match cutFirst? [']', '['] body with
    | some (target, setter) => (target, some setter)
    | none => (body, none)
  let (text, link) := linkParts target
  let setterMember :=
    match setter with
    | some s => [("setter", Value.string (String.ofList s))]
    | none => []
  .object (Entries.ofPairs ([
    ("isLink", .bool true),
    ("count", .int (if text.isSome then 2 else 1)),
    ("link", .string (String.ofList link)),
    ("text", .string (String.ofList (text.getD link))),
    ("external", .bool (hasMark [':', '/', '/'] link))] ++ setterMember))

/-- The object that describes an image by its source. -/
def imageValue (source : List Char) : Value :=
  .object (Entries.ofPairs [
    ("isImage", .bool true),
    ("source", .string (String.ofList source))])

/-- The object that markup in square brackets stands for. Image markup needs the second of its
opening brackets right behind the first. -/
def markupValue? (markup : List Char) : Option Value :=
  match stripStart? ['[', '['] markup with
  | some rest => (stripEnd? [']', ']'] rest).map linkValue
  | none => do
    let (_, behind) ← cutFirst? ['['] markup
    let inner ← stripStart? ['['] behind
    let source ← stripEnd? [']', ']'] inner
    return imageValue source

/-! ### Values of tokens -/

/-- Work on the variables that can fail on an argument. -/
abbrev ArgumentReading (α : Type) := ExceptT ArgumentError (StateM State) α

/-- What stands between the quotes of a backquoted expression, without blanks around it. -/
def expressionText (text : String) : String :=
  String.ofList (trimBlanks (text.toList.drop 1).dropLast)

/-- The value that a token stands for. -/
def ArgumentToken.value (token : ArgumentToken) : ArgumentReading Value :=
  match token.kind with
  | .bad fault => throw (.unreadable token.text fault)
  | .bareword => do
    if isVariable token.text then return (← get).value token.text
    else return barewordValue token.text
  | .expression =>
    let inner := expressionText token.text
    if inner.isEmpty then pure .null
    else ExceptT.adapt (.badExpression inner) (evaluate inner)
  | .string =>
    match unquote token.text with
    | .ok s => pure (.string s)
    | .error e => throw (.badString token.text e)
  | .brackets =>
    match markupValue? token.text.toList with
    | some value => pure value
    | none => throw (.unreadable token.text .malformedBrackets)

/-- The values of the tokens, in order. -/
def tokenValues : List ArgumentToken → ArgumentReading (List Value)
  | [] => pure []
  | token :: rest => do
    let value ← token.value
    let values ← tokenValues rest
    return value :: values

/-- Read the arguments of a call. Expressions among them are evaluated from left to right. -/
def readArguments (raw : String) : ArgumentReading ArgumentList := do
  return ⟨← tokenValues (scanArguments 0 raw.toList), raw⟩

end StoryEngine
