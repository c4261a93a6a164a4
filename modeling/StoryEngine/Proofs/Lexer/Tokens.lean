import StoryEngine.Proofs.Argument.Scanner
import StoryEngine.Proofs.Expr.Failing
import StoryEngine.Proofs.Expr.Scanner
/-!
# StoryEngine.Proofs.Lexer.Tokens

The scans of expressions and of arguments come to their end in every text, and what they find tiles
it. Every string among the tokens stands for one, so nothing is refused for a string that is not
closed, and an expression ends too early only where its tokens do (`tokens_tile_text`).
-/

namespace StoryEngine

/-- The scan of the text from the state of the grammar ends, however long it may take. Its items are
these, and they tile the text as far as the cursor comes. -/
def ScansInto {κ σ : Type} (grammar : LexerGrammar κ σ) (first : σ) (text : String)
    (items : List (LexerItem κ)) : Prop :=
  ∃ stop, Tiled 0 text.toList items stop ∧
    ∀ n, 2 * text.length + 1 ≤ n → (Lexer.ofSource text first).Reaches grammar n items stop

/-- A scan for words of what stands in the text. -/
theorem Scanned.scansInto {κ σ : Type} {grammar : LexerGrammar κ σ} {first : σ}
    {word : Char → List Char → Word κ} (hscans : ScansWords grammar first word) {text : String}
    {items : List (LexerItem κ)} (h : Scanned word 0 text.toList items) :
    ScansInto grammar first text items := by
  have hscanned : Scanned word ([] : List Char).length text.toList items := h
  obtain ⟨stop, hreaches, htiled⟩ := hscanned.reaches hscans (.ofSource "" first)
  rw [← Lexer.ofSource_eq_reading, String.length_toList] at hreaches
  exact ⟨stop, htiled, fun n hn => hreaches.of_le hn⟩

/-- A text is scanned into the tokens of an expression and into those of arguments, and these tile
it. The string tokens of either stand for strings. That a string is not closed is an error neither
of an argument nor of an expression, and with a semicolon behind them the tokens of an expression
do not end too early. -/
theorem tokens_tile_text (text : String) :
    ScansInto tokenGrammar .space text ((scanTokens 0 text.toList).map Token.item) ∧
      ScansInto argumentGrammar .space text ((scanArguments 0 text.toList).map ArgumentToken.item) ∧
      (∀ token ∈ scanTokens 0 text.toList, token.kind = .string →
        ∃ s, unquote token.text = .ok s) ∧
      (∀ token ∈ scanArguments 0 text.toList, token.kind = .string →
        ∃ s, unquote token.text = .ok s) ∧
      FailsWith (fun e => ¬ e.IsBadString) (readArguments text) ∧
      FailsWith (fun e => ¬ e.IsOpenLiteral) (evaluate text) ∧
      ∀ tokens semicolon n, tokenize text = .ok tokens → semicolon.kind = .semicolon →
        statementsUpTo (.withRoom maxNesting) n (tokens ++ [semicolon]) ≠ .error .unexpectedEnd := by
  refine ⟨(scanned_scanTokens 0 text.toList).scansInto tokenGrammar_scansWords,
    (scanned_scanArguments 0 text.toList).scansInto argumentGrammar_scansWords,
    unquote_of_scanTokens 0 text.toList, unquote_of_scanArguments 0 text.toList,
    failsWith_readArguments text, failsWith_evaluate text, ?_⟩
  intro tokens semicolon n htokens hsemicolon herror
  have hquoted : AreQuoted (tokens ++ [semicolon]) := by
    intro token htoken hstring
    rcases List.mem_append.mp htoken with htoken | htoken
    · exact areQuoted_of_tokenize htokens token htoken hstring
    · rw [List.mem_singleton.mp htoken, hsemicolon] at hstring
      cases hstring
  exact (statements_refused (Grammar.spells_withRoom maxNesting) hquoted herror).2
    ⟨semicolon, List.getLast?_concat, hsemicolon⟩ rfl

end StoryEngine
