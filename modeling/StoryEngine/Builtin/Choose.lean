import StoryEngine.Engine.Shadow
import StoryEngine.Text.Word
/-!
# StoryEngine.Builtin.Choose

The conditional macro: it renders the first clause whose condition holds. All clauses are checked
for their form before any condition is evaluated.
-/

namespace StoryEngine.Builtin

variable {η σ : Type}

/-! ### The form of clauses -/

/-- An expression with every string literal in it replaced by an empty one. A literal may go on
over lines, but a backslash in it does not take a line feed with it. -/
def withoutLiterals (cs : List Char) : List Char :=
  match cs with
  | [] => []
  | c :: rest =>
    if c == '"' || c == '\'' then
      match _ : spanQuoted? c noChar isLineFeed rest with
      | some (_, after) => '"' :: '"' :: withoutLiterals after
      | none => c :: withoutLiterals rest
    else c :: withoutLiterals rest
termination_by cs.length
decreasing_by
  · have := congrArg List.length (spanQuoted?_append ‹_›)
    simp only [List.length_append] at this
    simp only [List.length_cons]
    omega
  · simp
  · simp

/-- The characters that make an equality sign behind them part of another operator. -/
def joinsEquals (c : Char) : Bool :=
  "!%&*+-/<=>?^|".toList.contains c

/-- An equality sign stands by itself among the characters. -/
def hasLoneEquals : List Char → Bool
  | a :: b :: c :: rest =>
    (!joinsEquals a && b == '=' && c != '=' && c != '>') || hasLoneEquals (b :: c :: rest)
  | _ => false

/-- The expression sets something with an equality sign. -/
def hasAssignment (expression : String) : Bool :=
  hasLoneEquals (withoutLiterals expression.toList)

/-- The text begins with the word `if`. -/
def beginsWithIf (text : String) : Bool :=
  match dropBlanks text.toList with
  | 'i' :: 'f' :: rest => !headIs isWordChar rest
  | _ => false

/-- How a clause other than the first is numbered in messages. -/
def clauseNumber (index : Nat) : String :=
  if index = 0 then "" else " (#" ++ toString index ++ ")"

/-- What is wrong with the form of a clause, which `following` others follow. -/
def clauseFault? (isDebug : Bool) (index following : Nat) (clause : PayloadClause) :
    Option String :=
  let raw := trimText clause.args.raw
  let number := clauseNumber index
  if clause.name == "else" then
    if !raw.isEmpty then
      if beginsWithIf raw then
        some ("whitespace is not allowed between the \"else\" and \"if\" in <<elseif>> clause" ++
          number)
      else
        some ("<<else>> does not accept a conditional expression (perhaps you meant to use " ++
          "<<elseif>>), invalid: " ++ raw)
    else if following ≠ 0 then some "<<else>> must be the final clause"
    else none
  else if raw.isEmpty then
    some ("no conditional expression specified for <<" ++ clause.name ++ ">> clause" ++ number)
  else if isDebug && hasAssignment raw then
    some ("assignment operator found within <<" ++ clause.name ++ ">> clause" ++ number ++
      " (perhaps you meant to use an equality operator: ==, ===, eq, is), invalid: " ++ raw)
  else none

/-- The first fault among clauses, of which the first has the index. -/
def firstFault? (isDebug : Bool) : Nat → List PayloadClause → Option String
  | _, [] => none
  | index, clause :: rest =>
    match clauseFault? isDebug index rest.length clause with
    | some fault => some fault
    | none => firstFault? isDebug (index + 1) rest

/-! ### The choice -/

/-- Put a debug view for a clause around what follows, with modes switched. -/
def clauseView (call : MacroCall η) (name title : String) (modes : List (String × Bool)) :
    Run η σ Unit := do
  let view ← call.createView (some name) (some title)
  Run.changeTree fun t => t.setModes view modes

/-- Put debug views for clauses that are not rendered. -/
def skippedViews (call : MacroCall η) : List PayloadClause → Run η σ Unit
  | [] => pure ()
  | clause :: rest => do
    clauseView call clause.name clause.source
      [("nonvoid", false), ("hidden", true), ("invalid", true)]
    skippedViews call rest

/-- Put the debug views behind the clause that was rendered: for the clauses after it, and for
the closing tag. -/
def closingViews (call : MacroCall η) (isDebug found : Bool) (after : List PayloadClause) :
    Run η σ Unit := do
  if isDebug then
    skippedViews call after
    let closing := "/" ++ call.displayName
    clauseView call closing ("<<" ++ closing ++ ">>") [("nonvoid", false), ("hidden", !found)]

/-- Whether a clause's condition holds; one without condition always does. -/
def clauseHolds (clause : PayloadClause) : Run η σ (Except ExprError Bool) :=
  if clause.name == "else" then pure (.ok true)
  else Run.evaluating (evaluateCondition clause.args.raw)

/-- Render the first clause whose condition holds, of those from the index on. -/
def chooseFrom (perform : Perform η σ) (call : MacroCall η) (isDebug : Bool) :
    Nat → List PayloadClause → Run η σ Unit
  | _, [] => closingViews call isDebug false []
  | index, clause :: rest => do
    if isDebug then clauseView call clause.name clause.source [("nonvoid", false)]
    match ← clauseHolds clause with
    | .error e =>
      call.error ("bad conditional expression in <<" ++ (if index = 0 then "if" else "elseif") ++
        ">> clause" ++ clauseNumber index ++ ": " ++ e.message)
    | .ok true => do
      perform (.render (← call.target) clause.contents)
      closingViews call isDebug true rest
    | .ok false => do
      call.showModes ["hidden", "invalid"]
      chooseFrom perform call isDebug (index + 1) rest

/-- Render the first clause whose condition holds, unless a clause is malformed. -/
def runChoose (perform : Perform η σ) (call : MacroCall η) : Run η σ Unit := do
  let isDebug := (← get).config.debug
  match firstFault? isDebug 0 call.payload with
  | some fault => call.error fault
  | none => chooseFrom perform call isDebug 0 call.payload

end StoryEngine.Builtin
