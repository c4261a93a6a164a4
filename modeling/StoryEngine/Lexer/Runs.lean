import StoryEngine.Lexer
import StoryEngine.Text.Alphabetic
/-!
# StoryEngine.Lexer.Runs

A grammar of two kinds of runs: digits and letters alternate, and any other character is an
error, which ends the scan.
-/

namespace StoryEngine

/-- The kinds of items. -/
inductive RunKind where
  | digits
  | letters
  | error
deriving Repr, DecidableEq

/-- Before a run, or in one. -/
inductive RunState where
  | start
  | digits
  | letters
deriving Repr, DecidableEq

/-- At the start of an item, its first character tells the kind; inside a run, all of it is
taken. -/
def runGrammar : LexerGrammar RunKind RunState
  | .start, l =>
    match l.peek? with
    | none => (l, none)
    | some c =>
      if c.isDigit then (l, some .digits)
      else if isAlphabetic c then (l, some .letters)
      else
        ((l.forward 1).error .error ("unexpected character '" ++ String.singleton c ++ "'"), none)
  | .digits, l => ((l.acceptRun Char.isDigit).emit .digits, some .start)
  | .letters, l => ((l.acceptRun isAlphabetic).emit .letters, some .start)

/-- More steps than a scan of the rest of the source takes: two for every run, which is not empty
unless the scan is already inside it, and one at the end. -/
def runSteps (l : Lexer RunKind RunState) : Nat :=
  2 * (l.length - l.pos) + 4

end StoryEngine
