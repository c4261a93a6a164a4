import StoryEngine.Proofs.Decimal.Whole
import StoryEngine.Proofs.Expr.Literal
/-!
# StoryEngine.Proofs.Expr.Spelled

How an expression is written: as the tokens of its leaves and operators with a blank between any two
of them, in parentheses where an operand binds more loosely than its place allows, and nowhere else
(`Spelled`). Which of its spellings an operator has is free at every place.

The tokens of such a text are the ones that it was put together from (`tokenize_spelledText`).
-/

namespace StoryEngine

/-! ### Tokens without a place -/

/-- A token without its place in a source. -/
structure Piece where
  kind : TokenKind
  text : String
deriving DecidableEq

/-- The token without its place. -/
def Token.piece (token : Token) : Piece :=
  ⟨token.kind, token.text⟩

namespace Piece

def openParen : Piece := ⟨.openParen, "("⟩

def closeParen : Piece := ⟨.closeParen, ")"⟩

def word (text : String) : Piece := ⟨.word, text⟩

/-- An operator with one of its spellings, as a sign or a word. -/
def operator (text : String) : Piece :=
  ⟨if headIs isOperatorSign text.toList then .operator else .word, text⟩

/-- The piece is an operator or a parenthesis. Of the words, those are operators that are no
literals. -/
def takesRoom (piece : Piece) : Bool :=
  match piece.kind with
  | .operator => true
  | .openParen => true
  | .closeParen => true
  | .word => (Grammar.wordValue? piece.text).isNone
  | _ => false

end Piece

/-- The text of the pieces, with a blank between any two of them. -/
def spelledText (pieces : List Piece) : String :=
  " ".intercalate (pieces.map Piece.text)

/-! ### Expressions -/

/-- A sigil and at least one letter, digit, underscore or dollar sign behind it. -/
def IsVariable (name : String) : Prop :=
  ∃ c d cs, name.toList = c :: d :: cs ∧ (c = '$' ∨ c = '_') ∧ ∀ x ∈ d :: cs, isIdentChar x

namespace Expr

/-- The level of assignments, which bind most loosely. -/
def assignmentLevel : Nat := Grammar.loosest + 1

/-- How loosely the expression binds: as its operator does. Level 0 is that of a unary operator and
its operand, and of what is one token. -/
def level : Expr → Nat
  | literal _ => 0
  | var _ => 0
  | not _ => 0
  | neg _ => 0
  | defined _ _ => 0
  | binary op _ _ => op.level
  | assign _ _ _ => assignmentLevel

/-- The expression can be written: its literals are null, booleans, strings and whole numbers below
`2^53`, and its variables have names. -/
def Writable : Expr → Prop
  | literal .null => True
  | literal (.bool _) => True
  | literal (.string _) => True
  | literal (.number (.int n)) => 0 ≤ n ∧ n < 2 ^ 53
  | literal _ => False
  | var name => IsVariable name
  | not e => e.Writable
  | neg e => e.Writable
  | defined _ e => e.Writable
  | binary _ l r => l.Writable ∧ r.Writable
  | assign _ name e => IsVariable name ∧ e.Writable

end Expr

/-- The pieces are the expression where an expression of the level may stand. The operands of a
binary operator are of its own level on its left and of the next tighter one on its right; an
assignment may be set to another assignment, and stand between parentheses. -/
inductive Spelled : Nat → Expr → List Piece → Prop
  | null {level} : Spelled level (.literal .null) [.word "null"]
  | bool {level} (b : Bool) : Spelled level (.literal (.bool b)) [.word (toString b)]
  | int {level} (n : Nat) : n < 2 ^ 53 → Spelled level (.literal (.int n)) [⟨.number, toString n⟩]
  | string {level} (q : QuoteMark) (s : String) :
      Spelled level (.literal (.string s)) [⟨.string, q.literal s⟩]
  | var {level name} : IsVariable name → Spelled level (.var name) [⟨.variable, name⟩]
  | unary {level e pieces spelling} (op : UnaryOp) : op ≠ .plus → spelling ∈ op.spellings →
      Spelled 0 e pieces → Spelled level (op.apply e) (.operator spelling :: pieces)
  | binary {level l r left right spelling} (op : BinaryOp) : op.level ≤ level →
      spelling ∈ op.spellings → Spelled op.level l left → Spelled (op.level - 1) r right →
      Spelled level (.binary op l r) (left ++ .operator spelling :: right)
  | assign {name e pieces spelling} (op : AssignOp) : IsVariable name → spelling ∈ op.spellings →
      Spelled Expr.assignmentLevel e pieces →
      Spelled Expr.assignmentLevel (.assign op name e)
        (⟨.variable, name⟩ :: .operator spelling :: pieces)
  | parens {level e pieces} : level < e.level → Spelled Expr.assignmentLevel e pieces →
      Spelled level e (.openParen :: pieces ++ [.closeParen])

/-! ### Spellings of operators -/

theorem BinaryOp.mem_all (op : BinaryOp) : op ∈ all := by
  cases op <;> decide

theorem AssignOp.mem_all (op : AssignOp) : op ∈ all := by
  cases op <;> decide

theorem UnaryOp.mem_all (op : UnaryOp) : op ∈ all := by
  cases op <;> decide

/-- All that an operator may be written as. -/
def operatorSpellings : List String :=
  BinaryOp.all.flatMap BinaryOp.spellings ++ AssignOp.all.flatMap AssignOp.spellings ++
    UnaryOp.all.flatMap UnaryOp.spellings

theorem BinaryOp.mem_operatorSpellings (op : BinaryOp) {spelling : String}
    (h : spelling ∈ op.spellings) : spelling ∈ operatorSpellings :=
  List.mem_append_left _ (List.mem_append_left _ (List.mem_flatMap.2 ⟨op, op.mem_all, h⟩))

theorem AssignOp.mem_operatorSpellings (op : AssignOp) {spelling : String}
    (h : spelling ∈ op.spellings) : spelling ∈ operatorSpellings :=
  List.mem_append_left _ (List.mem_append_right _ (List.mem_flatMap.2 ⟨op, op.mem_all, h⟩))

theorem UnaryOp.mem_operatorSpellings (op : UnaryOp) {spelling : String}
    (h : spelling ∈ op.spellings) : spelling ∈ operatorSpellings :=
  List.mem_append_right _ (List.mem_flatMap.2 ⟨op, op.mem_all, h⟩)

theorem BinaryOp.exists_spelling (op : BinaryOp) : ∃ spelling, spelling ∈ op.spellings := by
  cases op <;> exact ⟨_, List.mem_cons_self⟩

theorem AssignOp.exists_spelling (op : AssignOp) : ∃ spelling, spelling ∈ op.spellings := by
  cases op <;> exact ⟨_, List.mem_cons_self⟩

/-! ### Every expression can be spelled -/

theorem BinaryOp.level_le (op : BinaryOp) : op.level ≤ Grammar.loosest := by
  cases op <;> decide

theorem BinaryOp.one_le_level (op : BinaryOp) : 1 ≤ op.level := by
  cases op <;> decide

theorem Expr.level_le (e : Expr) : e.level ≤ assignmentLevel := by
  cases e with
  | binary op l r => exact op.level_le.trans (Nat.le_succ _)
  | _ => simp [Expr.level]

/-- Where the expression does not fit into its place, it does between parentheses. -/
theorem Spelled.exists_of_level {e : Expr}
    (h : ∀ level, e.level ≤ level → level ≤ Expr.assignmentLevel → ∃ pieces, Spelled level e pieces)
    (level : Nat) (hlevel : level ≤ Expr.assignmentLevel) : ∃ pieces, Spelled level e pieces := by
  by_cases hfits : e.level ≤ level
  · exact h level hfits hlevel
  · obtain ⟨pieces, hpieces⟩ := h Expr.assignmentLevel e.level_le le_rfl
    exact ⟨_, .parens (by omega) hpieces⟩

/-- Every expression that can be written has a spelling. -/
theorem Expr.Writable.exists_spelled {e : Expr} (h : e.Writable) :
    ∀ level ≤ Expr.assignmentLevel, ∃ pieces, Spelled level e pieces := by
  induction e with
  | literal value =>
      intro level _
      match value, h with
      | .null, _ => exact ⟨_, .null⟩
      | .bool b, _ => exact ⟨_, .bool b⟩
      | .string s, _ => exact ⟨_, .string .double s⟩
      | .number (.int n), hn =>
          obtain ⟨n, rfl⟩ := Int.eq_ofNat_of_zero_le hn.1
          exact ⟨_, .int n (by exact_mod_cast hn.2)⟩
  | var name =>
      intro level _
      exact ⟨_, .var h⟩
  | not e ih =>
      intro level _
      obtain ⟨pieces, hpieces⟩ := ih h 0 (Nat.zero_le _)
      exact ⟨_, .unary .not (by decide) List.mem_cons_self hpieces⟩
  | neg e ih =>
      intro level _
      obtain ⟨pieces, hpieces⟩ := ih h 0 (Nat.zero_le _)
      exact ⟨_, .unary .neg (by decide) List.mem_cons_self hpieces⟩
  | defined wanted e ih =>
      intro level _
      obtain ⟨pieces, hpieces⟩ := ih h 0 (Nat.zero_le _)
      cases wanted with
      | true => exact ⟨_, .unary .defined (by decide) List.mem_cons_self hpieces⟩
      | false => exact ⟨_, .unary .undefined (by decide) List.mem_cons_self hpieces⟩
  | binary op l r ihl ihr =>
      have hop := op.level_le
      apply Spelled.exists_of_level
      intro level hfits _
      obtain ⟨left, hleft⟩ := ihl h.1 op.level (hop.trans (Nat.le_succ _))
      obtain ⟨right, hright⟩ :=
        ihr h.2 (op.level - 1) ((Nat.sub_le ..).trans (hop.trans (Nat.le_succ _)))
      obtain ⟨spelling, hspelling⟩ := op.exists_spelling
      exact ⟨_, .binary op hfits hspelling hleft hright⟩
  | assign op name e ih =>
      apply Spelled.exists_of_level
      intro level hfits hlevel
      obtain rfl : level = Expr.assignmentLevel := le_antisymm hlevel hfits
      obtain ⟨pieces, hpieces⟩ := ih h.2 Expr.assignmentLevel le_rfl
      obtain ⟨spelling, hspelling⟩ := op.exists_spelling
      exact ⟨_, .assign op h.1 hspelling hpieces⟩

/-! ### What the scan makes of a piece -/

/-- What follows a token: nothing, or a blank. -/
def Apart (rest : List Char) : Prop :=
  rest = [] ∨ ∃ cs, rest = ' ' :: cs

/-- The scan finds the piece where its text stands apart. -/
def Piece.Lexes (piece : Piece) : Prop :=
  ∃ c cs, piece.text.toList = c :: cs ∧ isBlank c = false ∧ (∀ fault, piece.kind ≠ .bad fault) ∧
    ∀ rest, Apart rest → lexeme c (cs ++ rest) = ⟨piece.kind, cs, rest⟩

theorem takeWhile_append_apart (test : Char → Bool) (hblank : test ' ' = false)
    {cs rest : List Char} (hcs : ∀ c ∈ cs, test c) (hrest : Apart rest) :
    (cs ++ rest).takeWhile test = cs ∧ (cs ++ rest).dropWhile test = rest := by
  induction cs with
  | nil =>
      rcases hrest with rfl | ⟨rest, rfl⟩
      · exact ⟨rfl, rfl⟩
      · simp [hblank]
  | cons c cs ih =>
      obtain ⟨htake, hdrop⟩ := ih fun d hd => hcs d (List.mem_cons_of_mem c hd)
      simp [hcs c List.mem_cons_self, htake, hdrop]

theorem isBlank_of_isDigit {c : Char} (hc : c.isDigit) : isBlank c = false := by
  simp only [Char.isDigit, Bool.and_eq_true, decide_eq_true_eq] at hc
  have hzero : 48 ≤ c.toNat := UInt32.le_iff_toNat_le.1 hc.1
  have hnine : c.toNat ≤ 57 := UInt32.le_iff_toNat_le.1 hc.2
  simp [isBlank]
  omega

theorem lexes_int (n : Nat) : Piece.Lexes ⟨.number, toString n⟩ := by
  obtain ⟨c, cs, hdigits, hc, hcs⟩ := exists_toDigits_eq_cons n
  have hblank : isBlank c = false := isBlank_of_isDigit hc
  refine ⟨c, cs, Nat.toList_repr.trans hdigits, hblank, fun _ => nofun, ?_⟩
  intro rest hrest
  obtain ⟨htake, hdrop⟩ := takeWhile_append_apart Char.isDigit rfl hcs hrest
  have hspan : spanNumber (cs ++ rest) = (cs, rest) := by
    rw [spanNumber, spanDigits, htake, hdrop]
    rcases hrest with rfl | ⟨rest, rfl⟩
    · simp [spanFraction, spanExponent]
    · simp [spanFraction, spanExponent]
  rw [lexeme, hspan]
  simp [hc]

theorem lexes_string (q : QuoteMark) (s : String) : Piece.Lexes ⟨.string, q.literal s⟩ := by
  refine ⟨q.char, q.inside s.toList ++ [q.char], QuoteMark.toList_literal s, QuoteMark.isBlank_char,
    fun _ => nofun, ?_⟩
  intro rest _
  obtain ⟨fault, hlexeme⟩ := QuoteMark.lexeme_char (q := q) (q.inside s.toList ++ q.char :: rest)
  have hspan : spanQuoted? q.char noChar noChar (q.inside s.toList ++ q.char :: rest) =
      some (q.inside s.toList ++ [q.char], rest) :=
    QuoteMark.spanQuoted?_inside (fun _ _ => rfl) (fun _ _ => rfl) s.toList rest
  rw [List.append_assoc, List.singleton_append, hlexeme, stringLexeme, hspan]

theorem IsVariable.lexes {name : String} (h : IsVariable name) : Piece.Lexes ⟨.variable, name⟩ := by
  obtain ⟨c, d, cs, hname, hsigil, hcs⟩ := h
  have hblank : isBlank c = false := by
    rcases hsigil with rfl | rfl <;> rfl
  refine ⟨c, d :: cs, hname, hblank, fun _ => nofun, ?_⟩
  intro rest hrest
  obtain ⟨htake, hdrop⟩ := takeWhile_append_apart isIdentChar rfl hcs hrest
  have hhead : headIs isIdentChar (d :: cs ++ rest) = true := hcs d List.mem_cons_self
  have hlexeme : lexeme c (d :: cs ++ rest) =
      ⟨.variable, (d :: cs ++ rest).takeWhile isIdentChar,
        (d :: cs ++ rest).dropWhile isIdentChar⟩ := by
    rcases hsigil with rfl | rfl
    · rw [lexeme, hhead]
      rfl
    · rw [lexeme, hhead]
      rfl
  rw [hlexeme, htake, hdrop]

/-- A fixed piece is found as soon as it is found at the end and in front of a blank. -/
theorem Piece.lexes_of {piece : Piece} {c : Char} {cs : List Char}
    (htext : piece.text.toList = c :: cs) (hblank : isBlank c = false)
    (hkind : ∀ fault, piece.kind ≠ .bad fault) (hend : lexeme c cs = ⟨piece.kind, cs, []⟩)
    (hfront : ∀ rest, lexeme c (cs ++ ' ' :: rest) = ⟨piece.kind, cs, ' ' :: rest⟩) :
    piece.Lexes := by
  refine ⟨c, cs, htext, hblank, hkind, ?_⟩
  intro rest hrest
  rcases hrest with rfl | ⟨rest, rfl⟩
  · rw [List.append_nil, hend]
  · exact hfront rest

theorem lexes_openParen : Piece.openParen.Lexes :=
  Piece.lexes_of rfl rfl (fun _ => nofun) rfl fun _ => rfl

theorem lexes_closeParen : Piece.closeParen.Lexes :=
  Piece.lexes_of rfl rfl (fun _ => nofun) rfl fun _ => rfl

theorem lexes_null : (Piece.word "null").Lexes :=
  Piece.lexes_of rfl rfl (fun _ => nofun) rfl fun _ => rfl

theorem lexes_bool (b : Bool) : (Piece.word (toString b)).Lexes := by
  cases b with
  | true => exact Piece.lexes_of rfl rfl (fun _ => nofun) rfl fun _ => rfl
  | false => exact Piece.lexes_of rfl rfl (fun _ => nofun) rfl fun _ => rfl

theorem lexes_operator {spelling : String} (h : spelling ∈ operatorSpellings) :
    (Piece.operator spelling).Lexes := by
  fin_cases h <;> exact Piece.lexes_of rfl rfl (fun _ => nofun) rfl fun _ => rfl

theorem Spelled.lexes {level : Nat} {e : Expr} {pieces : List Piece} (h : Spelled level e pieces) :
    ∀ piece ∈ pieces, piece.Lexes := by
  induction h with
  | null => simpa using lexes_null
  | bool b => simpa using lexes_bool b
  | int n => simpa using lexes_int n
  | string q s => simpa using lexes_string q s
  | var hname => simpa using hname.lexes
  | unary op _ hspelling _ ih =>
      simpa using ⟨lexes_operator (op.mem_operatorSpellings hspelling), ih⟩
  | binary op _ hspelling _ _ ihl ihr =>
      intro piece hpiece
      rcases List.mem_append.1 hpiece with hleft | hright
      · exact ihl piece hleft
      · rcases List.mem_cons.1 hright with rfl | hright
        · exact lexes_operator (op.mem_operatorSpellings hspelling)
        · exact ihr piece hright
  | assign op hname hspelling _ ih =>
      simpa using ⟨hname.lexes, lexes_operator (op.mem_operatorSpellings hspelling), ih⟩
  | parens _ _ ih =>
      intro piece hpiece
      rcases List.mem_cons.1 hpiece with rfl | hpiece
      · exact lexes_openParen
      · rcases List.mem_append.1 hpiece with hinside | hlast
        · exact ih piece hinside
        · obtain rfl := List.mem_singleton.1 hlast
          exact lexes_closeParen

/-! ### The scan of a whole text -/

/-- The texts of the pieces, each behind a blank. -/
def spacedChars (pieces : List Piece) : List Char :=
  pieces.flatMap fun piece => ' ' :: piece.text.toList

theorem apart_spacedChars (pieces : List Piece) : Apart (spacedChars pieces) := by
  cases pieces with
  | nil => exact .inl rfl
  | cons piece pieces => exact .inr ⟨_, rfl⟩

theorem toList_spelledText (piece : Piece) (pieces : List Piece) :
    (spelledText (piece :: pieces)).toList = piece.text.toList ++ spacedChars pieces := by
  induction pieces generalizing piece with
  | nil => simp [spelledText, spacedChars]
  | cons next pieces ih =>
      have hmore := ih next
      simp only [spelledText, List.map_cons] at hmore
      rw [spelledText, List.map_cons, List.map_cons, String.intercalate_cons_cons,
        String.toList_append, hmore]
      simp [spacedChars]

/-- The tokens of a text that begins with the piece are the piece and those of the rest. -/
theorem scanTokens_piece {piece : Piece} (h : piece.Lexes) {cs rest : List Char}
    (hcs : dropBlanks cs = piece.text.toList ++ rest) (hrest : Apart rest) (position : Nat) :
    ∃ token next, token.piece = piece ∧ scanTokens position cs = token :: scanTokens next rest := by
  obtain ⟨c, more, htext, hblank, hkind, hlexeme⟩ := h
  rw [scanTokens]
  split
  · rename_i hnil
    rw [hnil, htext] at hcs
    cases hcs
  · rename_i d after hcons
    rw [hcons, htext, List.cons_append] at hcs
    obtain ⟨rfl, rfl⟩ := List.cons.inj hcs
    simp only [hlexeme rest hrest]
    refine ⟨_, _, ?_, rfl⟩
    rw [Token.piece, ← htext, String.ofList_toList]

theorem scanTokens_spacedChars {pieces : List Piece} (h : ∀ piece ∈ pieces, piece.Lexes)
    (position : Nat) :
    (scanTokens position (spacedChars pieces)).map Token.piece = pieces := by
  induction pieces generalizing position with
  | nil =>
      rw [scanTokens]
      rfl
  | cons piece pieces ih =>
      obtain ⟨hpiece, hpieces⟩ := List.forall_mem_cons.1 h
      have hdrop : dropBlanks (spacedChars (piece :: pieces)) =
          piece.text.toList ++ spacedChars pieces := by
        obtain ⟨c, more, htext, hblank, -, -⟩ := hpiece
        have hspace : isBlank ' ' = true := rfl
        simp [spacedChars, dropBlanks, htext, hblank, hspace]
      obtain ⟨token, next, rfl, hscan⟩ :=
        scanTokens_piece hpiece hdrop (apart_spacedChars pieces) position
      rw [hscan, List.map_cons, ih hpieces]

theorem badToken?_of_pieces {tokens : List Token} (h : ∀ token ∈ tokens, token.piece.Lexes) :
    badToken? tokens = none := by
  induction tokens with
  | nil => rfl
  | cons token tokens ih =>
      obtain ⟨htoken, htokens⟩ := List.forall_mem_cons.1 h
      obtain ⟨_, _, _, _, hkind, _⟩ := htoken
      rw [badToken?]
      split
      · exact absurd ‹_› (hkind _)
      · exact ih htokens

/-- The tokens of a text that is put together from pieces are these pieces. -/
theorem tokenize_spelledText {pieces : List Piece} (h : ∀ piece ∈ pieces, piece.Lexes) :
    ∃ tokens, tokenize (spelledText pieces) = .ok tokens ∧ tokens.map Token.piece = pieces := by
  have hscan : (scanTokens 0 (spelledText pieces).toList).map Token.piece = pieces := by
    cases pieces with
    | nil =>
        rw [scanTokens]
        rfl
    | cons piece pieces =>
        obtain ⟨hpiece, hpieces⟩ := List.forall_mem_cons.1 h
        have hdrop : dropBlanks (spelledText (piece :: pieces)).toList =
            piece.text.toList ++ spacedChars pieces := by
          obtain ⟨c, more, htext, hblank, -, -⟩ := hpiece
          rw [toList_spelledText, htext]
          simp [dropBlanks, hblank]
        obtain ⟨token, next, rfl, hscan⟩ :=
          scanTokens_piece hpiece hdrop (apart_spacedChars pieces) 0
        rw [hscan, List.map_cons, scanTokens_spacedChars hpieces]
  refine ⟨scanTokens 0 (spelledText pieces).toList, ?_, hscan⟩
  have hgood : badToken? (scanTokens 0 (spelledText pieces).toList) = none := by
    apply badToken?_of_pieces
    intro token htoken
    exact h token.piece (hscan ▸ List.mem_map_of_mem htoken)
  rw [tokenize, hgood]

end StoryEngine
