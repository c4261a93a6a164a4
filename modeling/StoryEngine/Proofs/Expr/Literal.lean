import StoryEngine.Expr.Eval
import StoryEngine.Proofs.Text.Literal
/-!
# StoryEngine.Proofs.Expr.Literal

A literal as an expression. It is one token, whatever the string holds, and its value is the string
(`QuoteMark.evaluate_literal`).
-/

namespace StoryEngine

/-! ### An expression of one token -/

namespace Grammar

variable {below : Grammar} {token : Token} {expr : Expr}

/-- Behind the last token no chain goes on. -/
theorem operandOf_of_last (h : unary below [token] = .ok (expr, [])) (level : Nat) :
    operandOf below level [token] = .ok (expr, []) := by
  induction level with
  | zero => exact h
  | succ level ih =>
      rw [operandOf]
      simp only [ih, links]

theorem assignmentOf_of_last (h : unary below [token] = .ok (expr, [])) :
    assignmentOf below [token] = .ok (expr, []) := by
  rw [assignmentOf, operandOf_of_last h]

theorem unary_string {s : String} (hkind : token.kind = .string)
    (hvalue : unquote token.text = .ok s) :
    unary below [token] = .ok (.literal (.string s), []) := by
  have hnone : token.spelled? UnaryOp.ofSpelling? = none := by
    simp [Token.spelled?, hkind]
  rw [unary, hnone]
  simp [primary, hkind, hvalue]

theorem exists_assignment_withRoom (room : Nat) :
    ∃ below, (withRoom room).assignment = assignmentOf below := by
  cases room with
  | zero => exact ⟨noRoom, rfl⟩
  | succ room => exact ⟨withRoom room, rfl⟩

end Grammar

namespace QuoteMark

variable {q : QuoteMark}

@[simp] theorem isBlank_char : isBlank q.char = false := by
  cases q <;> rfl

/-! ### The literal as a token -/

theorem lexeme_char (cs : List Char) :
    ∃ fault, lexeme q.char cs = stringLexeme q.char fault cs := by
  cases q with
  | double => exact ⟨.openDouble, rfl⟩
  | single => exact ⟨.openSingle, rfl⟩

theorem lexeme_literal (s : String) :
    lexeme q.char (q.inside s.toList ++ [q.char]) =
      ⟨.string, q.inside s.toList ++ [q.char], []⟩ := by
  obtain ⟨fault, hlexeme⟩ := lexeme_char (q := q) (q.inside s.toList ++ [q.char])
  have hspan : spanQuoted? q.char noChar noChar (q.inside s.toList ++ [q.char]) =
      some (q.inside s.toList ++ [q.char], []) :=
    spanQuoted?_inside (fun _ _ => rfl) (fun _ _ => rfl) s.toList []
  rw [hlexeme, stringLexeme, hspan]

theorem tokenize_literal (s : String) :
    ∃ start stop, tokenize (q.literal s) = .ok [⟨.string, q.literal s, start, stop⟩] := by
  have hdrop : dropBlanks (q.literal s).toList = q.char :: (q.inside s.toList ++ [q.char]) := by
    simp [dropBlanks]
  have hrest (position : Nat) : scanTokens position [] = [] := by
    rw [scanTokens]
    rfl
  have hscan : ∃ start stop, scanTokens 0 (q.literal s).toList =
      [⟨.string, q.literal s, start, stop⟩] := by
    rw [scanTokens]
    split
    · rename_i hnil
      rw [hdrop] at hnil
      cases hnil
    · rename_i c rest hcons
      rw [hdrop] at hcons
      obtain ⟨rfl, rfl⟩ := List.cons.inj hcons
      simp only [lexeme_literal, hrest]
      exact ⟨_, _, rfl⟩
  obtain ⟨start, stop, hscan⟩ := hscan
  refine ⟨start, stop, ?_⟩
  rw [tokenize, hscan]
  rfl

/-! ### Its value -/

theorem parseStatements_literal (q : QuoteMark) (s : String) :
    parseStatements (q.literal s) = .ok [.literal (.string s)] := by
  obtain ⟨start, stop, htokens⟩ := tokenize_literal (q := q) s
  obtain ⟨below, hbelow⟩ := Grammar.exists_assignment_withRoom maxNesting
  have hunary : Grammar.unary below [⟨.string, q.literal s, start, stop⟩] =
      .ok (.literal (.string s), []) :=
    Grammar.unary_string rfl (unquote_literal q s)
  rw [parseStatements, htokens]
  change statementsUpTo _ 1 [_] = _
  rw [statementsUpTo]
  have hsame : [(⟨.string, q.literal s, start, stop⟩ : Token)].dropWhile
      (fun token => token.kind = .semicolon) = [⟨.string, q.literal s, start, stop⟩] := rfl
  rw [hsame]
  dsimp only
  rw [hbelow, Grammar.assignmentOf_of_last hunary]

/-- The value of a literal is the string, and evaluating it sets nothing. -/
theorem evaluate_literal (q : QuoteMark) (s : String) :
    evaluate (q.literal s) = pure (.string s) := by
  rw [evaluate, parseStatements_literal]
  rfl

/-! ### Blanks around it -/

theorem trimText_literal (q : QuoteMark) (s : String) : trimText (q.literal s) = q.literal s := by
  have hfront : dropBlanks (q.literal s).toList = (q.literal s).toList := by
    simp [dropBlanks]
  have hback : dropBlanksEnd (q.literal s).toList = (q.literal s).toList := by
    simp [dropBlanksEnd]
  rw [trimText, trimBlanks, hfront, hback, String.ofList_toList]

theorem isEmpty_literal (q : QuoteMark) (s : String) : (q.literal s).isEmpty = false := by
  rw [← Bool.not_eq_true, String.isEmpty_iff, ← String.toList_inj, toList_literal]
  simp

end QuoteMark

end StoryEngine
