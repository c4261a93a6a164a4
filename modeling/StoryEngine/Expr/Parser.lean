import StoryEngine.Expr.Token
import StoryEngine.Expr.Tree
/-!
# StoryEngine.Expr.Parser

From tokens to expressions. The grammar is layered: an assignment is an operand of the loosest
level that may be followed by an assignment operator and another assignment; an operand of a
level is a chain of operands of the next tighter level; the tightest operand is a unary
expression. Nesting is bounded, so the grammar is built by levels of *room*: with no room left,
whatever would go one level deeper is refused, and the grammar with one more level of room is
made from the one with less.
-/

namespace StoryEngine

/-- Reads something off the front of the tokens. -/
abbrev Parse (α : Type) := List Token → Except ExprError (α × List Token)

/-- The token is an operator or word with the spelling that `find?` looks for. -/
def Token.spelled? {α : Type} (find? : String → Option α) (token : Token) : Option α :=
  match token.kind with
  | .operator => find? token.text
  | .word => find? token.text
  | _ => none

/-- The parts of the grammar that refer to each other. -/
structure Grammar where
  /-- An operand of a level; level 0 is a unary expression. -/
  operand : Nat → Parse Expr
  /-- The rest of a chain of a level whose first links are read. -/
  chain : Nat → Expr → Parse Expr
  /-- An assignment, or an expression of the loosest level. -/
  assignment : Parse Expr

namespace Grammar

/-- Refuses everything: what is left when there is no more room. -/
def noRoom : Grammar where
  operand _ _ := .error .tooDeep
  chain _ _ _ := .error .tooDeep
  assignment _ := .error .tooDeep

/-- The value of a word that is a literal. -/
def wordValue? (word : String) : Option Value :=
  if word == "true" then some (.bool true)
  else if word == "false" then some (.bool false)
  else if word == "null" || word == "undefined" then some .null
  else none

/-- The value of a number literal. -/
def numberLiteral (token : Token) : Except ExprError Value :=
  match readFloat? token.text with
  | none => .error (.misspelled (.badNumber token.text) token.start)
  | some x =>
    match Value.ofFloat? x with
    | none => .error .notFinite
    | some value => .ok value

/-- The closing parenthesis behind what was read. -/
def closing (inner : Expr) : Parse Expr
  | [] => .error .unexpectedEnd
  | token :: rest =>
    if token.kind = .closeParen then .ok (inner, rest)
    else .error (.misspelled .missingClose token.start)

/-- A literal, a variable, or an assignment in parentheses. -/
def primary (below : Grammar) : Parse Expr
  | [] => .error .unexpectedEnd
  | token :: rest =>
    match token.kind with
    | .number =>
      match numberLiteral token with
      | .error e => .error e
      | .ok value => .ok (.literal value, rest)
    | .string =>
      match unquote token.text with
      | .error e => .error e
      | .ok s => .ok (.literal (.string s), rest)
    | .variable => .ok (.var token.text, rest)
    | .word =>
      match wordValue? token.text with
      | some value => .ok (.literal value, rest)
      | none => .error (.misspelled (.unknownWord token.text) token.start)
    | .openParen =>
      match below.assignment rest with
      | .error e => .error e
      | .ok (inner, rest) => closing inner rest
    | _ => .error (.misspelled (.unexpectedToken token.text) token.start)

/-- A unary operator and its operand, or a primary expression. -/
def unary (below : Grammar) : Parse Expr
  | [] => primary below []
  | token :: rest =>
    match token.spelled? UnaryOp.ofSpelling? with
    | none => primary below (token :: rest)
    | some op =>
      match below.operand 0 rest with
      | .error e => .error e
      | .ok (operand, rest) => .ok (op.apply operand, rest)

/-- The rest of a chain: as long as an operator of the level follows, its right operand is read
and everything so far becomes its left one. Every link takes one level of room. -/
def links (below : Grammar) (level : Nat) (left : Expr) : Parse Expr
  | [] => .ok (left, [])
  | token :: rest =>
    match token.spelled? (BinaryOp.ofSpelling? level) with
    | none => .ok (left, token :: rest)
    | some op =>
      match below.operand (level - 1) rest with
      | .error e => .error e
      | .ok (right, rest) => below.chain level (.binary op left right) rest

/-- An operand of a level: a chain of operands of the tighter level. -/
def operandOf (below : Grammar) : Nat → Parse Expr
  | 0 => unary below
  | level + 1 => fun tokens =>
    match operandOf below level tokens with
    | .error e => .error e
    | .ok (left, rest) => links below (level + 1) left rest

/-- The loosest level of binary operators. -/
def loosest : Nat := 6

/-- An operand of the loosest level, and the value it is set to if an assignment operator
follows. Only a variable can be set. -/
def assignmentOf (below : Grammar) : Parse Expr := fun tokens =>
  match operandOf below loosest tokens with
  | .error e => .error e
  | .ok (target, []) => .ok (target, [])
  | .ok (target, token :: rest) =>
    match token.spelled? AssignOp.ofSpelling? with
    | none => .ok (target, token :: rest)
    | some op =>
      match target with
      | .var name =>
        match below.assignment rest with
        | .error e => .error e
        | .ok (value, rest) => .ok (.assign op name value, rest)
      | _ => .error .badAssignment

/-- The grammar with one more level of room. -/
def deepen (below : Grammar) : Grammar where
  operand := operandOf below
  chain := links below
  assignment := assignmentOf below

/-- The grammar with `room` levels of room. -/
def withRoom : Nat → Grammar
  | 0 => deepen noRoom
  | room + 1 => deepen (withRoom room)

end Grammar

/-- The statements of a token list: assignments with semicolons between them. At most `n` of them
are read; each takes a token at least. -/
def statementsUpTo (grammar : Grammar) : Nat → List Token → Except ExprError (List Expr)
  | 0, _ => .ok []
  | n + 1, tokens =>
    match tokens.dropWhile (fun token => token.kind = .semicolon) with
    | [] => .ok []
    | first :: more =>
      match grammar.assignment (first :: more) with
      | .error e => .error e
      | .ok (statement, []) => .ok [statement]
      | .ok (statement, token :: rest) =>
        if token.kind = .semicolon then
          match statementsUpTo grammar n rest with
          | .error e => .error e
          | .ok statements => .ok (statement :: statements)
        else .error (.misspelled (.unexpectedToken token.text) token.start)

/-- The statements of a source text. -/
def parseStatements (source : String) : Except ExprError (List Expr) :=
  match tokenize source with
  | .error e => .error e
  | .ok tokens => statementsUpTo (Grammar.withRoom maxNesting) tokens.length tokens

end StoryEngine
