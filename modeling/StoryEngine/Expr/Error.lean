import StoryEngine.State
import StoryEngine.Text.Quoted
import StoryEngine.Value.Text
/-!
# StoryEngine.Expr.Error

What can be wrong with an expression.
-/

namespace StoryEngine

/-- What is wrong with the spelling of an expression at some place. -/
inductive SpellingFault where
  /-- No token begins with the character. -/
  | unexpectedChar (c : Char)
  /-- A string has no closing double quote. -/
  | openDouble
  /-- A string has no closing single quote. -/
  | openSingle
  /-- A quoted literal does not end in the quote that it begins with. -/
  | openLiteral
  /-- A token stands where none like it may stand. -/
  | unexpectedToken (text : String)
  /-- The digits of a number literal are no number. -/
  | badNumber (text : String)
  /-- A word is neither a keyword nor a literal. -/
  | unknownWord (text : String)
  /-- Something other than the closing parenthesis stands in its place. -/
  | missingClose
deriving Repr, DecidableEq

/-- The wording of the fault. -/
def SpellingFault.message : SpellingFault → String
  | unexpectedChar c => "unexpected character '" ++ String.singleton c ++ "'"
  | openDouble => "unterminated double quoted string"
  | openSingle => "unterminated single quoted string"
  | openLiteral => "unterminated string"
  | unexpectedToken text => "unexpected token \"" ++ text ++ "\""
  | badNumber text => "invalid number \"" ++ text ++ "\""
  | unknownWord text => "unknown identifier \"" ++ text ++ "\""
  | missingClose => "expected \")\""

/-- How deep an expression may nest. Every parenthesis, unary operator, assignment and link of
an operator chain is one level. -/
def maxNesting : Nat := 100

/-- Why an expression has no value. -/
inductive ExprError where
  /-- It is misspelled at a position, counted in characters. -/
  | misspelled (fault : SpellingFault) (position : Nat)
  /-- It ends where an operand is missing. -/
  | unexpectedEnd
  /-- What stands left of an assignment is no variable. -/
  | badAssignment
  /-- A string that is no number, an array or an object stands where a number is needed. -/
  | notNumeric (value : Value)
  /-- The target of an assignment has a sigil but is no variable. -/
  | badVariable (error : InvalidVariable)
  /-- A result is infinite or not a number. -/
  | notFinite
  /-- It nests deeper than `maxNesting` levels. -/
  | tooDeep

/-- The wording of the error. -/
def ExprError.message : ExprError → String
  | misspelled fault position => fault.message ++ " (pos: " ++ toString position ++ ")"
  | unexpectedEnd => "unexpected end of expression"
  | badAssignment => "invalid assignment target"
  | notNumeric (.string s) => "cannot convert \"" ++ s ++ "\" to a number"
  | notNumeric value => "cannot convert " ++ value.json ++ " to a number"
  | badVariable error => error.message
  | notFinite => "numeric result is not finite"
  | tooDeep => "expression nested deeper than " ++ toString maxNesting ++ " levels"

/-- The string that a quoted literal stands for. The quote may be any character, as long as the
literal ends in the character that it begins with. -/
def unquote (literal : String) : Except ExprError String :=
  match literal.toList with
  | [] => .error .unexpectedEnd
  | [_] => .error .unexpectedEnd
  | quote :: c :: cs =>
    if (c :: cs).getLast? == some quote then
      .ok (String.ofList (readEscapes (c :: cs).dropLast))
    else .error (.misspelled .openLiteral 0)

end StoryEngine
