import StoryEngine.Proofs.Argument.Scan
import StoryEngine.Proofs.Lexer.Scanned
/-!
# StoryEngine.Proofs.Expr.Scanner

The scan of an expression as a grammar of states that move the cursor (`tokenGrammar`). At the first
character of a token the scan goes on with a state for the kind of token, which moves to the end of
it, and looks back at the first character if there are several of its kind. The items are the tokens
that are scanned at once (`tokenGrammar_scansWords`, `scanned_scanTokens`).
-/

namespace StoryEngine

/-- Between tokens, or behind the first character of one. -/
inductive TokenState where
  | space
  | number
  | doubleQuote
  | singleQuote
  | variable
  | word
  | operator
deriving Repr, DecidableEq

/-- The wording of what is wrong with the token. -/
def TokenKind.message? : TokenKind → Option String
  | .bad fault => some fault.message
  | _ => none

/-- The token as an item of a scan. -/
def Token.item (token : Token) : LexerItem TokenKind :=
  ⟨token.kind, token.text, token.start, token.stop, token.kind.message?⟩

/-- The lexeme as a word of a scan. -/
def Lexeme.word (l : Lexeme) : Word TokenKind :=
  ⟨l.kind, l.kind.message?, l.more, l.rest⟩

theorem TokenKind.message?_eq_none {kind : TokenKind} (h : ∀ fault, kind ≠ .bad fault) :
    kind.message? = none := by
  cases kind with
  | bad fault => exact absurd rfl (h fault)
  | _ => rfl

theorem Lexeme.item_token (l : Lexeme) (c : Char) (start : Nat) :
    (⟨l.kind, String.ofList (c :: l.more), start, start + 1 + l.more.length⟩ : Token).item =
      l.word.item c start := by
  rw [Nat.add_assoc, Nat.add_comm 1]
  rfl

namespace Lexer

variable {κ σ : Type}

/-- The character at the cursor satisfies the test. -/
def sees (l : Lexer κ σ) (test : Char → Bool) : Bool :=
  l.peek?.any test

/-- An error item for the fault ends the scan. -/
def refuse (l : Lexer TokenKind σ) (fault : SpellingFault) : Lexer TokenKind σ × Option σ :=
  (l.error (.bad fault) fault.message, none)

/-- A closed string is a token, one that is not closed an error. -/
def takeString (l : Lexer TokenKind TokenState) (quote : Char) (fault : SpellingFault) :
    Lexer TokenKind TokenState × Option TokenState :=
  match l.slurpQuote quote noChar with
  | (true, after) => (after.emit .string, some .space)
  | (false, after) => after.refuse fault

/-- Move over a point and the digits behind it, if there is a point. -/
def skipFraction (l : Lexer κ σ) : Lexer κ σ :=
  match l.accept (· == '.') with
  | (true, after) => after.acceptRun Char.isDigit
  | (false, after) => after

/-- Move over an exponent, if there is one. -/
def skipExponent (l : Lexer κ σ) : Lexer κ σ :=
  match l.accept fun c => c == 'e' || c == 'E' with
  | (true, after) => (after.accept fun c => c == '+' || c == '-').2.acceptRun Char.isDigit
  | (false, after) => after

/-- The second sign of a pair, which must be the same. -/
def takePair (l : Lexer TokenKind TokenState) (c : Char) :
    Lexer TokenKind TokenState × Option TokenState :=
  match l.accept (· == c) with
  | (true, after) => (after.emit .operator, some .space)
  | (false, after) => after.refuse (.unexpectedChar c)

/-- Up to two equality signs. -/
def takeEqualities (l : Lexer TokenKind TokenState) :
    Lexer TokenKind TokenState × Option TokenState :=
  match l.accept (· == '=') with
  | (true, after) => ((after.accept (· == '=')).2.emit .operator, some .space)
  | (false, after) => (after.emit .operator, some .space)

/-- The rest of an operator whose first sign is behind the cursor. -/
def takeOperator (l : Lexer TokenKind TokenState) :
    Lexer TokenKind TokenState × Option TokenState :=
  match (l.backup 1).next with
  | (some c, after) =>
    if c == '&' || c == '|' then after.takePair c else after.takeEqualities
  | (none, after) => after.takeEqualities

end Lexer

/-- The steps of the scan of an expression. -/
def tokenGrammar : LexerGrammar TokenKind TokenState
  | .space, l =>
    match (l.acceptRun isBlank).ignore.next with
    | (none, l) => (l, none)
    | (some c, l) =>
      if c.isDigit || (c == '.' && l.sees Char.isDigit) then (l, some .number)
      else if c == '"' then (l, some .doubleQuote)
      else if c == '\'' then (l, some .singleQuote)
      else if (c == '$' || c == '_') && l.sees isIdentChar then (l, some .variable)
      else if isAlphabetic c then (l, some .word)
      else if c == '(' then (l.emit .openParen, some .space)
      else if c == ')' then (l.emit .closeParen, some .space)
      else if c == ';' then (l.emit .semicolon, some .space)
      else if isOperatorSign c then (l, some .operator)
      else l.refuse (.unexpectedChar c)
  | .number, l => ((l.acceptRun Char.isDigit).skipFraction.skipExponent.emit .number, some .space)
  | .doubleQuote, l => l.takeString '"' .openDouble
  | .singleQuote, l => l.takeString '\'' .openSingle
  | .variable, l => ((l.acceptRun isIdentChar).emit .variable, some .space)
  | .word, l => ((l.acceptRun isIdentChar).emit .word, some .space)
  | .operator, l => l.takeOperator

/-! ### The states at the first character of a token -/

section States

open Lexer

variable (l : Lexer TokenKind TokenState) (before current : List Char) (c : Char) (cs : List Char)

theorem sees_reading (test : Char → Bool) :
    (l.reading before current cs).sees test = headIs test cs := by
  rw [sees, peek?_reading]
  cases cs <;> rfl

/-- What is queued when a token ends is the word. -/
theorem emit_word (kind : TokenKind) (more rest : List Char) (h : kind.message? = none) :
    (((l.reading before (c :: more) rest).emit kind, some TokenState.space) :
        Lexer TokenKind TokenState × Option TokenState) =
      (Lexeme.word ⟨kind, more, rest⟩).taken l before c (some .space) := by
  rw [Word.taken]
  simp only [Lexeme.word, h]
  rw [emit_reading]
  simp only [Word.item, wordItem]

theorem refuse_word (fault : SpellingFault) (more rest : List Char) :
    (l.reading before (c :: more) rest).refuse fault =
      (Lexeme.word ⟨.bad fault, more, rest⟩).taken l before c (some .space) := by
  rw [refuse, error_reading]
  rfl

theorem skipFraction_reading :
    (l.reading before current cs).skipFraction =
      l.reading before (current ++ (spanFraction cs).1) (spanFraction cs).2 := by
  rw [skipFraction]
  cases cs with
  | nil => rw [accept_reading_nil, spanFraction, List.append_nil]
  | cons d ds =>
      rw [accept_reading_cons, spanFraction]
      by_cases hpoint : (d == '.') = true
      · rw [if_pos hpoint, if_pos hpoint, beq_iff_eq.mp hpoint]
        dsimp only
        rw [acceptRun_reading, List.append_assoc]
        rfl
      · rw [if_neg hpoint, if_neg hpoint, List.append_nil]

theorem acceptSign_reading :
    ((l.reading before current cs).accept fun c => c == '+' || c == '-').2 =
      l.reading before (current ++ (spanSign cs).1) (spanSign cs).2 := by
  cases cs with
  | nil => rw [accept_reading_nil, spanSign, List.append_nil]
  | cons d ds =>
      rw [accept_reading_cons, spanSign]
      by_cases hsign : (d == '+' || d == '-') = true
      · rw [if_pos hsign, if_pos hsign]
      · rw [if_neg hsign, if_neg hsign, List.append_nil]

theorem skipExponent_reading :
    (l.reading before current cs).skipExponent =
      l.reading before (current ++ (spanExponent cs).1) (spanExponent cs).2 := by
  rw [skipExponent]
  cases cs with
  | nil => rw [accept_reading_nil, spanExponent, List.append_nil]
  | cons d ds =>
      rw [accept_reading_cons, spanExponent]
      by_cases hmark : (d == 'e' || d == 'E') = true
      · rw [if_pos hmark, if_pos hmark]
        dsimp only
        rw [acceptSign_reading, acceptRun_reading, List.append_assoc, List.append_assoc]
        rfl
      · rw [if_neg hmark, if_neg hmark, List.append_nil]

theorem number_word :
    tokenGrammar .number (l.reading before [c] cs) =
      (Lexeme.word ⟨.number, (spanNumber cs).1, (spanNumber cs).2⟩).taken l before c
        (some .space) := by
  rw [tokenGrammar, acceptRun_reading, skipFraction_reading, skipExponent_reading, ← emit_word]
  · simp only [spanNumber, spanDigits, List.nil_append, List.cons_append, List.append_assoc]
  · rfl

theorem slurpQuote_noChar (quote : Char) :
    (l.reading before current cs).slurpQuote quote noChar =
      match spanQuoted? quote noChar noChar cs with
      | some (inside, rest) => (true, l.reading before (current ++ inside) rest)
      | none => (false, l.reading before (current ++ cs) []) := by
  fun_induction spanQuoted? quote noChar noChar cs generalizing current with
  | case1 => rw [slurpQuote_reading_nil, List.append_nil]
  | case2 => rw [slurpQuote_reading_escape]
  | case3 c cs h => cases h
  | case4 c cs _ ih =>
      rw [slurpQuote_reading_escape]
      dsimp only
      rw [if_neg (by simp [noChar]), ih]
      cases spanQuoted? quote noChar noChar cs with
      | none => simp
      | some span => simp
  | case5 c cs hlast hescape hquote =>
      rw [slurpQuote_reading_cons _ _ _ _ _ _ (ne_backslash hlast hescape), if_neg (by simp [noChar]),
        if_pos hquote]
  | case6 c cs _ _ _ hbare => cases hbare
  | case7 c cs hlast hescape hquote hbare ih =>
      rw [slurpQuote_reading_cons _ _ _ _ _ _ (ne_backslash hlast hescape), if_neg (by simp [noChar]),
        if_neg hquote, ih]
      cases spanQuoted? quote noChar noChar cs with
      | none => simp
      | some span => simp

theorem takeString_word (quote : Char) (fault : SpellingFault) :
    (l.reading before [c] cs).takeString quote fault =
      (stringLexeme quote fault cs).word.taken l before c (some .space) := by
  rw [takeString, slurpQuote_noChar, stringLexeme]
  cases spanQuoted? quote noChar noChar cs with
  | none => exact refuse_word l before c fault cs []
  | some span => exact emit_word l before c .string span.1 span.2 rfl

theorem identifier_word (kind : TokenKind) (h : kind.message? = none) :
    ((((l.reading before [c] cs).acceptRun isIdentChar).emit kind, some TokenState.space) :
        Lexer TokenKind TokenState × Option TokenState) =
      (Lexeme.word ⟨kind, cs.takeWhile isIdentChar, cs.dropWhile isIdentChar⟩).taken l before c
        (some .space) := by
  rw [acceptRun_reading]
  exact emit_word l before c kind _ _ h

theorem takePair_word (h : (c == '&' || c == '|') = true) :
    (l.reading before [c] cs).takePair c =
      (operatorLexeme c cs).word.taken l before c (some .space) := by
  unfold takePair operatorLexeme
  rw [if_pos h]
  cases cs with
  | nil =>
      rw [accept_reading_nil]
      exact refuse_word l before c _ [] []
  | cons d ds =>
      rw [accept_reading_cons]
      dsimp only
      by_cases hpair : (d == c) = true
      · rw [if_pos hpair, if_pos hpair, beq_iff_eq.mp hpair]
        exact emit_word l before c .operator [c] ds rfl
      · rw [if_neg hpair, if_neg hpair]
        exact refuse_word l before c _ [] (d :: ds)

theorem takeEqualities_word (h : ¬ (c == '&' || c == '|') = true) :
    (l.reading before [c] cs).takeEqualities =
      (operatorLexeme c cs).word.taken l before c (some .space) := by
  unfold operatorLexeme
  rw [if_neg h]
  have hnone (rest : List Char) (hhead : ∀ ds, rest ≠ '=' :: ds) (current : List Char) :
      (l.reading before current rest).accept (· == '=') = (false, l.reading before current rest) := by
    cases rest with
    | nil => exact accept_reading_nil l before current _
    | cons d ds =>
        have hd : ¬ (d == '=') = true := fun hd => hhead ds (by rw [beq_iff_eq.mp hd])
        rw [accept_reading_cons, if_neg hd]
  split
  · rename_i rest
    rw [takeEqualities, accept_reading_cons, if_pos (beq_self_eq_true _)]
    dsimp only
    rw [accept_reading_cons, if_pos (beq_self_eq_true _)]
    exact emit_word l before c .operator ['=', '='] rest rfl
  · rename_i rest htwo
    rw [takeEqualities, accept_reading_cons, if_pos (beq_self_eq_true _)]
    dsimp only
    rw [hnone rest (fun ds hds => htwo ds (by rw [hds]))]
    exact emit_word l before c .operator ['='] rest rfl
  · rename_i htwo hone
    rw [takeEqualities, hnone cs (fun ds hds => hone ds hds)]
    exact emit_word l before c .operator [] cs rfl

theorem takeOperator_word :
    (l.reading before [c] cs).takeOperator =
      (operatorLexeme c cs).word.taken l before c (some .space) := by
  have hback : ((l.reading before [c] cs).backup 1).next = (some c, l.reading before [c] cs) := by
    rw [show l.reading before [c] cs = l.reading before ([] ++ [c]) cs from rfl,
      backup_reading_snoc, next_reading_cons]
  rw [takeOperator, hback]
  dsimp only
  split
  · exact takePair_word l before c cs ‹_›
  · exact takeEqualities_word l before c cs ‹_›

/-- The first character of the lexeme is all of it, or it tells the state that takes the rest. -/
def TakesLexeme (result : Lexer TokenKind TokenState × Option TokenState) (lexeme : Lexeme) : Prop :=
  result = lexeme.word.taken l before c (some .space) ∨
    ∃ state, result = (l.reading before [c] cs, some state) ∧
      ∀ l, tokenGrammar state (l.reading before [c] cs) =
        lexeme.word.taken l before c (some .space)

theorem TakesLexeme.ite {p : Prop} [Decidable p]
    {a b : Lexer TokenKind TokenState × Option TokenState} {a' b' : Lexeme}
    (ha : TakesLexeme l before c cs a a') (hb : TakesLexeme l before c cs b b') :
    TakesLexeme l before c cs (if p then a else b) (if p then a' else b') := by
  split
  · exact ha
  · exact hb

/-- From the state between tokens, the first character of a token is taken. -/
theorem space_takesLexeme {gap : List Char} (hgap : ∀ c ∈ gap, isBlank c = true)
    (hc : isBlank c = false) :
    TakesLexeme l (before ++ gap) c cs
      (tokenGrammar .space (l.reading before [] (gap ++ c :: cs))) (lexeme c cs) := by
  rw [tokenGrammar, next_word l before hgap hc cs, lexeme]
  dsimp only
  rw [sees_reading, sees_reading]
  generalize before ++ gap = before
  refine .ite _ _ _ _ (.inr ⟨.number, rfl, fun l => number_word l before c cs⟩) ?_
  refine .ite _ _ _ _ (.inr ⟨.doubleQuote, rfl, fun l => takeString_word l before c cs _ _⟩) ?_
  refine .ite _ _ _ _ (.inr ⟨.singleQuote, rfl, fun l => takeString_word l before c cs _ _⟩) ?_
  refine .ite _ _ _ _ (.inr ⟨.variable, rfl, fun l => identifier_word l before c cs _ rfl⟩) ?_
  refine .ite _ _ _ _ (.inr ⟨.word, rfl, fun l => identifier_word l before c cs _ rfl⟩) ?_
  refine .ite _ _ _ _ (.inl (emit_word l before c .openParen [] cs rfl)) ?_
  refine .ite _ _ _ _ (.inl (emit_word l before c .closeParen [] cs rfl)) ?_
  refine .ite _ _ _ _ (.inl (emit_word l before c .semicolon [] cs rfl)) ?_
  refine .ite _ _ _ _ (.inr ⟨.operator, rfl, fun l => takeOperator_word l before c cs⟩) ?_
  exact .inl (refuse_word l before c (.unexpectedChar c) [] cs)

end States

/-- The grammar takes tokens. -/
theorem tokenGrammar_scansWords :
    ScansWords tokenGrammar .space fun c cs => (lexeme c cs).word where
  append := lexeme_append
  done := by
    intro l before gap hgap
    rw [tokenGrammar, Lexer.next_blanks l before hgap]
  taken := by
    intro l before gap c cs hgap hc
    refine (space_takesLexeme l before c cs hgap hc).imp_right fun ⟨state, hspace, htaken⟩ => ?_
    exact ⟨state, hspace, fun l => ⟨l, some .space, rfl, .inl rfl, htaken l⟩⟩

/-- The tokens that are scanned at once are the items of the scan. -/
theorem scanned_scanTokens (position : Nat) (cs : List Char) :
    Scanned (fun c cs => (lexeme c cs).word) position cs
      ((scanTokens position cs).map Token.item) := by
  fun_induction scanTokens position cs with
  | case1 position cs hcs =>
      exact .done (List.dropWhile_eq_nil_iff.mp hcs)
  | case2 position cs c rest hcs start next stop token fault hkind =>
      rw [List.map_singleton, Lexeme.item_token]
      exact .of_error hcs (congrArg TokenKind.message? hkind)
  | case3 position cs c rest hcs start next stop token hkind ih =>
      rw [List.map_cons, Lexeme.item_token]
      refine .of_item hcs (TokenKind.message?_eq_none hkind) ?_
      rw [List.length_cons, Nat.add_comm _ 1, ← Nat.add_assoc]
      exact ih

end StoryEngine
