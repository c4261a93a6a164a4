import StoryEngine.Expr.Error
import StoryEngine.Text.Alphabetic
import StoryEngine.Text.Blank
/-!
# StoryEngine.Expr.Token

The tokens of an expression. A token is the longest text that its first character can begin;
blanks separate tokens and are otherwise without meaning. What cannot be a token becomes a bad
token, which ends the scan.
-/

namespace StoryEngine

/-- What a token is. -/
inductive TokenKind where
  | number
  | string
  | word
  | variable
  | operator
  | openParen
  | closeParen
  | semicolon
  /-- No token at all. -/
  | bad (fault : SpellingFault)
deriving Repr, DecidableEq

/-- A token with its place in the source, counted in characters. -/
structure Token where
  kind : TokenKind
  text : String
  start : Nat
  stop : Nat
deriving Repr, DecidableEq

/-- A letter, digit, underscore or dollar sign: what words and variables go on with. -/
def isIdentChar (c : Char) : Bool :=
  c.isAlphanum || c == '_' || c == '$'

/-- The signs that operators begin with. -/
def isOperatorSign (c : Char) : Bool :=
  "+-*/%=!<>&|".toList.contains c

/-- The first of the characters satisfies the test. -/
def headIs (test : Char → Bool) : List Char → Bool
  | [] => false
  | c :: _ => test c

/-- How the text after a token's first character is divided: what belongs to the token, and what
is left. -/
structure Lexeme where
  kind : TokenKind
  more : List Char
  rest : List Char

/-- The leading digits and what follows them. -/
def spanDigits (cs : List Char) : List Char × List Char :=
  (cs.takeWhile Char.isDigit, cs.dropWhile Char.isDigit)

/-- A point with the digits after it, if there is a point. -/
def spanFraction : List Char → List Char × List Char
  | [] => ([], [])
  | c :: cs => if c == '.' then ('.' :: (spanDigits cs).1, (spanDigits cs).2) else ([], c :: cs)

/-- A sign, if there is one. -/
def spanSign : List Char → List Char × List Char
  | [] => ([], [])
  | c :: cs => if c == '+' || c == '-' then ([c], cs) else ([], c :: cs)

/-- An exponent mark with its sign and digits, if there is a mark. -/
def spanExponent : List Char → List Char × List Char
  | [] => ([], [])
  | c :: cs =>
    if c == 'e' || c == 'E' then
      let (sign, afterSign) := spanSign cs
      (c :: sign ++ (spanDigits afterSign).1, (spanDigits afterSign).2)
    else ([], c :: cs)

/-- What follows the first character of a number. -/
def spanNumber (cs : List Char) : List Char × List Char :=
  let (whole, afterWhole) := spanDigits cs
  let (fraction, afterFraction) := spanFraction afterWhole
  let (exponent, rest) := spanExponent afterFraction
  (whole ++ fraction ++ exponent, rest)

/-- What follows the first sign of an operator: up to two equality signs, or the second of a
pair. -/
def operatorLexeme (c : Char) (cs : List Char) : Lexeme :=
  if c == '&' || c == '|' then
    match cs with
    | d :: rest => if d == c then ⟨.operator, [c], rest⟩ else ⟨.bad (.unexpectedChar c), [], cs⟩
    | [] => ⟨.bad (.unexpectedChar c), [], cs⟩
  else
    match cs with
    | '=' :: '=' :: rest => ⟨.operator, ['=', '='], rest⟩
    | '=' :: rest => ⟨.operator, ['='], rest⟩
    | rest => ⟨.operator, [], rest⟩

/-- What follows the opening quote of a string, which ends in the same quote. Without one, all
the rest is bad. -/
def stringLexeme (quote : Char) (fault : SpellingFault) (cs : List Char) : Lexeme :=
  match spanQuoted? quote noChar noChar cs with
  | some (inside, rest) => ⟨.string, inside, rest⟩
  | none => ⟨.bad fault, cs, []⟩

/-- The token that begins with the character, which is no blank. -/
def lexeme (c : Char) (cs : List Char) : Lexeme :=
  if c.isDigit || (c == '.' && headIs Char.isDigit cs) then
    ⟨.number, (spanNumber cs).1, (spanNumber cs).2⟩
  else if c == '"' then stringLexeme '"' .openDouble cs
  else if c == '\'' then stringLexeme '\'' .openSingle cs
  else if (c == '$' || c == '_') && headIs isIdentChar cs then
    ⟨.variable, cs.takeWhile isIdentChar, cs.dropWhile isIdentChar⟩
  else if isAlphabetic c then ⟨.word, cs.takeWhile isIdentChar, cs.dropWhile isIdentChar⟩
  else if c == '(' then ⟨.openParen, [], cs⟩
  else if c == ')' then ⟨.closeParen, [], cs⟩
  else if c == ';' then ⟨.semicolon, [], cs⟩
  else if isOperatorSign c then operatorLexeme c cs
  else ⟨.bad (.unexpectedChar c), [], cs⟩

/-! ### A token and the rest are all there is -/

theorem spanDigits_append (cs : List Char) : (spanDigits cs).1 ++ (spanDigits cs).2 = cs := by
  simp [spanDigits]

theorem spanFraction_append (cs : List Char) :
    (spanFraction cs).1 ++ (spanFraction cs).2 = cs := by
  cases cs with
  | nil => rfl
  | cons c cs =>
    simp only [spanFraction]
    split
    · rename_i h
      simp only [beq_iff_eq] at h
      simp [h, spanDigits_append]
    · rfl

theorem spanSign_append (cs : List Char) : (spanSign cs).1 ++ (spanSign cs).2 = cs := by
  cases cs with
  | nil => rfl
  | cons c cs =>
    simp only [spanSign]
    split <;> rfl

theorem spanExponent_append (cs : List Char) :
    (spanExponent cs).1 ++ (spanExponent cs).2 = cs := by
  cases cs with
  | nil => rfl
  | cons c cs =>
    simp only [spanExponent]
    split
    · simp [spanDigits_append, spanSign_append]
    · rfl

theorem spanNumber_append (cs : List Char) : (spanNumber cs).1 ++ (spanNumber cs).2 = cs := by
  simp [spanNumber, spanExponent_append, spanFraction_append, spanDigits_append]

theorem operatorLexeme_append (c : Char) (cs : List Char) :
    (operatorLexeme c cs).more ++ (operatorLexeme c cs).rest = cs := by
  simp only [operatorLexeme]
  split
  · split
    · split
      · rename_i h
        simp only [beq_iff_eq] at h
        simp [h]
      · rfl
    · rfl
  · split <;> rfl

theorem stringLexeme_append (quote : Char) (fault : SpellingFault) (cs : List Char) :
    (stringLexeme quote fault cs).more ++ (stringLexeme quote fault cs).rest = cs := by
  simp only [stringLexeme]
  split
  · rename_i h
    exact spanQuoted?_append h
  · simp

/-- Nothing is lost: a token's characters and the rest are what was there. -/
theorem lexeme_append (c : Char) (cs : List Char) :
    (lexeme c cs).more ++ (lexeme c cs).rest = cs := by
  simp only [lexeme]
  repeat' split
  all_goals
    first
      | exact spanNumber_append cs
      | exact stringLexeme_append _ _ cs
      | exact operatorLexeme_append c cs
      | simp

theorem length_lexeme_rest_lt {cs rest : List Char} {c : Char} (h : dropBlanks cs = c :: rest) :
    (lexeme c rest).rest.length < cs.length := by
  have h₁ := congrArg List.length (lexeme_append c rest)
  have h₂ := length_dropBlanks_le cs
  rw [h] at h₂
  simp only [List.length_append, List.length_cons] at h₁ h₂
  omega

/-! ### The scan -/

/-- The tokens of the characters, which begin at the position. A bad token is the last. -/
def scanTokens (position : Nat) (cs : List Char) : List Token :=
  match _ : dropBlanks cs with
  | [] => []
  | c :: rest =>
    let start := position + (cs.takeWhile isBlank).length
    let next := lexeme c rest
    let stop := start + 1 + next.more.length
    let token : Token := ⟨next.kind, String.ofList (c :: next.more), start, stop⟩
    match next.kind with
    | .bad _ => [token]
    | _ => token :: scanTokens stop next.rest
termination_by cs.length
decreasing_by all_goals exact length_lexeme_rest_lt ‹_›

/-- The error that a bad token among the tokens stands for. -/
def badToken? : List Token → Option ExprError
  | [] => none
  | token :: rest =>
    match token.kind with
    | .bad fault => some (.misspelled fault token.start)
    | _ => badToken? rest

/-- The tokens of an expression, if none of them is bad. -/
def tokenize (source : String) : Except ExprError (List Token) :=
  let tokens := scanTokens 0 source.toList
  match badToken? tokens with
  | some error => .error error
  | none => .ok tokens

end StoryEngine
