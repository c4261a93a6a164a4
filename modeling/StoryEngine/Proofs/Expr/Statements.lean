import StoryEngine.Proofs.Expr.Nesting
import StoryEngine.Proofs.Expr.Pieces
/-!
# StoryEngine.Proofs.Expr.Statements

Statements in a row. What is read up to a semicolon does not depend on what stands behind it, nor on
where in the source it stands. So the statements of two texts with a semicolon between them are those
of the first and then those of the second (`parseStatements_append`), and to evaluate them is to
evaluate the first text and then the second (`statements_compose`).

Positions differ between a text and the same text behind another one. What is read is therefore
compared by pieces, which are tokens without their places.
-/

namespace StoryEngine

open Grammar

/-! ### Reading in front of a semicolon -/

/-- Nothing, or a semicolon and what stands behind it. -/
def Bounds (tail : List Piece) : Prop :=
  tail = [] ∨ ∃ more, tail = .semicolon :: more

/-- The tokens have the pieces of the others and then the tail. -/
def Prolonged (tail : List Piece) (tokens tokens' : List Token) : Prop :=
  tokens'.map Token.piece = tokens.map Token.piece ++ tail

theorem Prolonged.cons {tail : List Piece} {token : Token} {tokens tokens' : List Token}
    (h : Prolonged tail (token :: tokens) tokens') :
    ∃ token' rest', tokens' = token' :: rest' ∧ token'.kind = token.kind ∧
      token'.text = token.text ∧ Prolonged tail tokens rest' := by
  rw [Prolonged, List.map_cons, List.cons_append] at h
  obtain ⟨token', rest', rfl, hpiece, hrest⟩ := List.map_eq_cons_iff.1 h
  obtain ⟨hkind, htext⟩ := Piece.mk.inj hpiece
  exact ⟨token', rest', rfl, hkind, htext, hrest⟩

/-- Behind the last token there is nothing, or a semicolon. -/
theorem Prolonged.nil {tail : List Piece} {tokens' : List Token} (htail : Bounds tail)
    (h : Prolonged tail [] tokens') :
    tokens' = [] ∨ ∃ token' rest', tokens' = token' :: rest' ∧ token'.kind = .semicolon := by
  rw [Prolonged, List.map_nil, List.nil_append] at h
  rcases htail with rfl | ⟨more, rfl⟩
  · exact .inl (List.map_eq_nil_iff.1 h)
  · obtain ⟨token', rest', rfl, hpiece, -⟩ := List.map_eq_cons_iff.1 h
    exact .inr ⟨token', rest', rfl, congrArg Piece.kind hpiece⟩

theorem Token.spelled?_congr {α : Type} (find? : String → Option α) {token token' : Token}
    (hkind : token'.kind = token.kind) (htext : token'.text = token.text) :
    token'.spelled? find? = token.spelled? find? := by
  rw [spelled?, spelled?, hkind, htext]

theorem Token.spelled?_semicolon {α : Type} (find? : String → Option α) {token : Token}
    (hkind : token.kind = .semicolon) : token.spelled? find? = none := by
  rw [spelled?, hkind]

/-- What is read does not depend on what stands behind a semicolon, nor on positions. -/
def Parse.IsLocal {α : Type} (p : Parse α) : Prop :=
  ∀ ⦃tail tokens tokens' a rest⦄, Bounds tail → Prolonged tail tokens tokens' →
    p tokens = .ok (a, rest) → ∃ rest', p tokens' = .ok (a, rest') ∧ Prolonged tail rest rest'

/-- This holds of all parts of the grammar. -/
def Grammar.IsLocal (g : Grammar) : Prop :=
  ∀ part, Parse.IsLocal (g.at part)

namespace Grammar

variable {below : Grammar}

theorem numberLiteral_congr {token token' : Token} {value : Value}
    (htext : token'.text = token.text) (h : numberLiteral token = .ok value) :
    numberLiteral token' = .ok value := by
  rw [numberLiteral] at h ⊢
  rw [htext]
  split at h
  · cases h
  · exact h

theorem isLocal_closing (inner : Expr) : Parse.IsLocal (closing inner) := by
  intro tail tokens tokens' e rest _ hprolonged h
  cases tokens with
  | nil => cases h
  | cons token more =>
      obtain ⟨token', more', rfl, hkind, -, hmore⟩ := hprolonged.cons
      rw [closing] at h ⊢
      rw [hkind]
      split at h
      · rename_i hclose
        obtain ⟨rfl, rfl⟩ := Prod.mk.inj (Except.ok.inj h)
        exact ⟨more', if_pos hclose, hmore⟩
      · cases h

theorem isLocal_primary (hbelow : below.IsLocal) : Parse.IsLocal (primary below) := by
  intro tail tokens tokens' e rest htail hprolonged h
  cases tokens with
  | nil => cases h
  | cons token more =>
      obtain ⟨token', more', rfl, hkind, htext, hmore⟩ := hprolonged.cons
      rw [primary] at h ⊢
      rw [hkind, htext]
      split at h
      · split at h
        · cases h
        · rename_i hvalue
          obtain ⟨rfl, rfl⟩ := Prod.mk.inj (Except.ok.inj h)
          simp only [numberLiteral_congr htext hvalue]
          exact ⟨more', rfl, hmore⟩
      · split at h
        · cases h
        · obtain ⟨rfl, rfl⟩ := Prod.mk.inj (Except.ok.inj h)
          exact ⟨more', rfl, hmore⟩
      · obtain ⟨rfl, rfl⟩ := Prod.mk.inj (Except.ok.inj h)
        exact ⟨more', rfl, hmore⟩
      · split at h
        · obtain ⟨rfl, rfl⟩ := Prod.mk.inj (Except.ok.inj h)
          exact ⟨more', rfl, hmore⟩
        · cases h
      · split at h
        · cases h
        · rename_i inner after hinner
          obtain ⟨after', hinner', hafter⟩ := hbelow .assignment htail hmore hinner
          obtain ⟨rest', hclosing, hrest⟩ := isLocal_closing inner htail hafter h
          refine ⟨rest', ?_, hrest⟩
          replace hinner' : below.assignment more' = .ok (inner, after') := hinner'
          simp only [hinner']
          exact hclosing
      · cases h

theorem isLocal_unary (hbelow : below.IsLocal) : Parse.IsLocal (unary below) := by
  intro tail tokens tokens' e rest htail hprolonged h
  cases tokens with
  | nil => cases h
  | cons token more =>
      obtain ⟨token', more', rfl, hkind, htext, hmore⟩ := hprolonged.cons
      rw [unary] at h ⊢
      rw [Token.spelled?_congr _ hkind htext]
      split at h
      · exact isLocal_primary hbelow htail hprolonged h
      · split at h
        · cases h
        · rename_i operand after hoperand
          obtain ⟨rfl, rfl⟩ := Prod.mk.inj (Except.ok.inj h)
          obtain ⟨after', hoperand', hafter⟩ := hbelow (.operand 0) htail hmore hoperand
          replace hoperand' : below.operand 0 more' = .ok (operand, after') := hoperand'
          exact ⟨after', by rw [hoperand'], hafter⟩

theorem isLocal_links (hbelow : below.IsLocal) (level : Nat) (left : Expr) :
    Parse.IsLocal (Grammar.links below level left) := by
  intro tail tokens tokens' e rest htail hprolonged h
  cases tokens with
  | nil =>
      obtain ⟨rfl, rfl⟩ := Prod.mk.inj (Except.ok.inj h)
      refine ⟨tokens', ?_, hprolonged⟩
      rcases hprolonged.nil htail with rfl | ⟨token', rest', rfl, hkind⟩
      · rfl
      · rw [Grammar.links, Token.spelled?_semicolon _ hkind]
  | cons token more =>
      obtain ⟨token', more', rfl, hkind, htext, hmore⟩ := hprolonged.cons
      rw [Grammar.links] at h ⊢
      rw [Token.spelled?_congr _ hkind htext]
      split at h
      · obtain ⟨rfl, rfl⟩ := Prod.mk.inj (Except.ok.inj h)
        exact ⟨_, rfl, hprolonged⟩
      · split at h
        · cases h
        · rename_i op right after hright
          obtain ⟨after', hright', hafter⟩ := hbelow (.operand (level - 1)) htail hmore hright
          replace hright' : below.operand (level - 1) more' = .ok (right, after') := hright'
          obtain ⟨rest', hchain, hrest⟩ := hbelow (.chain level _) htail hafter h
          exact ⟨rest', by rw [hright']; exact hchain, hrest⟩

theorem isLocal_operandOf (hbelow : below.IsLocal) (level : Nat) :
    Parse.IsLocal (operandOf below level) := by
  induction level with
  | zero => exact isLocal_unary hbelow
  | succ level ih =>
      intro tail tokens tokens' e rest htail hprolonged h
      rw [operandOf] at h ⊢
      dsimp only at h ⊢
      split at h
      · cases h
      · rename_i left after hleft
        obtain ⟨after', hleft', hafter⟩ := ih htail hprolonged hleft
        obtain ⟨rest', hlinks, hrest⟩ := isLocal_links hbelow (level + 1) left htail hafter h
        exact ⟨rest', by rw [hleft']; exact hlinks, hrest⟩

theorem isLocal_assignmentOf (hbelow : below.IsLocal) : Parse.IsLocal (assignmentOf below) := by
  intro tail tokens tokens' e rest htail hprolonged h
  rw [assignmentOf] at h ⊢
  split at h
  · cases h
  · rename_i target htarget
    obtain ⟨rfl, rfl⟩ := Prod.mk.inj (Except.ok.inj h)
    obtain ⟨after', htarget', hafter⟩ := isLocal_operandOf hbelow loosest htail hprolonged htarget
    refine ⟨after', ?_, hafter⟩
    rw [htarget']
    rcases hafter.nil htail with rfl | ⟨token', rest', rfl, hkind⟩
    · rfl
    · dsimp only
      rw [Token.spelled?_semicolon _ hkind]
  · rename_i target token after htarget
    obtain ⟨_, htarget', hafter⟩ := isLocal_operandOf hbelow loosest htail hprolonged htarget
    obtain ⟨token', after', rfl, hkind, htext, hmore⟩ := hafter.cons
    rw [htarget']
    dsimp only
    rw [Token.spelled?_congr _ hkind htext]
    split at h
    · obtain ⟨rfl, rfl⟩ := Prod.mk.inj (Except.ok.inj h)
      exact ⟨_, rfl, hafter⟩
    · split at h
      · split at h
        · cases h
        · rename_i name value rest' hvalue
          obtain ⟨rfl, rfl⟩ := Prod.mk.inj (Except.ok.inj h)
          obtain ⟨rest', hvalue', hrest⟩ := hbelow .assignment htail hmore hvalue
          replace hvalue' : below.assignment after' = .ok (value, rest') := hvalue'
          exact ⟨rest', by simp only [hvalue'], hrest⟩
      · cases h

theorem isLocal_noRoom : noRoom.IsLocal := by
  intro part tail tokens tokens' e rest _ _ h
  cases part <;> cases h

theorem isLocal_deepen (hbelow : below.IsLocal) : (deepen below).IsLocal
  | .operand level => isLocal_operandOf hbelow level
  | .chain level left => isLocal_links hbelow level left
  | .assignment => isLocal_assignmentOf hbelow

theorem isLocal_withRoom (room : Nat) : (withRoom room).IsLocal := by
  induction room with
  | zero => exact isLocal_deepen isLocal_noRoom
  | succ room ih => exact isLocal_deepen ih

end Grammar

/-! ### The statements of a text -/

/-- An assignment or an operand takes a token at least. -/
theorem Parsed.ne_nil {room : Nat} {part : Part} {used : List Token} {e : Expr}
    (h : Parsed room part used e) (hpart : ∀ level left, part ≠ .chain level left) : used ≠ [] := by
  induction h with
  | leaf => exact List.cons_ne_nil _ _
  | parens => simp
  | unary => exact List.cons_ne_nil _ _
  | operand _ _ ihfront => simp [ihfront nofun]
  | last => exact absurd rfl (hpart _ _)
  | link => exact absurd rfl (hpart _ _)
  | expression _ ih => exact ih nofun
  | assign => simp

/-- The grammar that statements are read with. -/
abbrev statementGrammar : Grammar := withRoom maxNesting

theorem length_lt_of_assignment {tokens rest : List Token} {e : Expr}
    (h : statementGrammar.assignment tokens = .ok (e, rest)) : rest.length < tokens.length := by
  obtain ⟨room, _, used, rfl, hparsed⟩ := derives_withRoom maxNesting .assignment tokens e rest h
  have := List.length_pos_of_ne_nil (hparsed.ne_nil nofun)
  rw [List.length_append]
  omega

/-- The token separates statements. -/
abbrev Token.separates (token : Token) : Bool :=
  token.kind = .semicolon

/-- The statements of a list of tokens. -/
def statementsOf (tokens : List Token) : Except ExprError (List Expr) :=
  statementsUpTo statementGrammar tokens.length tokens

/-- More statements than tokens are never read. -/
theorem statementsUpTo_of_le {n : Nat} {tokens : List Token} (h : tokens.length ≤ n) :
    statementsUpTo statementGrammar n tokens = statementsOf tokens := by
  suffices hboth : ∀ n m (tokens : List Token), tokens.length ≤ n → tokens.length ≤ m →
      statementsUpTo statementGrammar n tokens = statementsUpTo statementGrammar m tokens by
    exact hboth n tokens.length tokens h le_rfl
  intro n
  induction n with
  | zero =>
      intro m tokens hn _
      obtain rfl := List.length_eq_zero_iff.1 (Nat.le_zero.1 hn)
      cases m <;> rfl
  | succ n ih =>
      intro m tokens hn hm
      cases m with
      | zero =>
          obtain rfl := List.length_eq_zero_iff.1 (Nat.le_zero.1 hm)
          rfl
      | succ m =>
          have hdrop := (List.dropWhile_sublist Token.separates (l := tokens)).length_le
          rw [statementsUpTo, statementsUpTo]
          split
          · rfl
          · rename_i first more hcons
            rw [hcons] at hdrop
            split
            · rfl
            · rfl
            · rename_i statement token rest hstatement
              have hless := length_lt_of_assignment hstatement
              simp only [List.length_cons] at hdrop hless
              rw [ih m rest (by omega) (by omega)]

/-- Statements are read one by one. -/
theorem statementsOf_eq (tokens : List Token) :
    statementsOf tokens =
      match tokens.dropWhile Token.separates with
      | [] => .ok []
      | first :: more =>
        match statementGrammar.assignment (first :: more) with
        | .error e => .error e
        | .ok (statement, []) => .ok [statement]
        | .ok (statement, token :: rest) =>
          if token.kind = .semicolon then (statementsOf rest).map (statement :: ·)
          else .error (.misspelled (.unexpectedToken token.text) token.start) := by
  rw [← statementsUpTo_of_le (Nat.le_succ _), statementsUpTo]
  have hdrop := (List.dropWhile_sublist Token.separates (l := tokens)).length_le
  split
  · rename_i hnil
    rw [hnil]
  · rename_i first more hcons
    rw [hcons] at hdrop ⊢
    dsimp only
    rcases hstatement : statementGrammar.assignment (first :: more) with
      e | ⟨statement, _ | ⟨token, rest⟩⟩
    · rfl
    · rfl
    · have hless := length_lt_of_assignment hstatement
      simp only [List.length_cons] at hdrop hless
      have hrest : rest.length ≤ tokens.length := by omega
      dsimp only
      rw [statementsUpTo_of_le hrest]
      split
      · cases statementsOf rest <;> rfl
      · rfl

/-- Semicolons in front are skipped. -/
theorem statementsOf_append {front : List Token} (h : ∀ token ∈ front, token.separates)
    (rest : List Token) : statementsOf (front ++ rest) = statementsOf rest := by
  rw [statementsOf_eq, statementsOf_eq rest, List.dropWhile_append_of_pos h]

theorem statementsOf_semicolon {token : Token} (h : token.kind = .semicolon) (rest : List Token) :
    statementsOf (token :: rest) = statementsOf rest := by
  have hfront : ∀ other ∈ [token], other.separates :=
    List.forall_mem_singleton.2 (decide_eq_true h)
  exact statementsOf_append hfront rest

/-- The semicolons in front may be skipped on both sides. -/
theorem Prolonged.skip {tail : List Piece} {tokens tokens' : List Token}
    (h : Prolonged tail tokens tokens') :
    ∃ more', statementsOf tokens' = statementsOf more' ∧
      Prolonged tail (tokens.dropWhile Token.separates) more' := by
  have hfront : ∀ token ∈ tokens.takeWhile Token.separates, token.separates :=
    fun _ => List.mem_takeWhile_imp
  rw [← List.takeWhile_append_dropWhile (p := Token.separates) (l := tokens), Prolonged,
    List.map_append, List.append_assoc] at h
  obtain ⟨front', more', rfl, hpieces, hmore⟩ := List.map_eq_append_iff.1 h
  refine ⟨more', statementsOf_append ?_ more', hmore⟩
  intro token' htoken'
  have hmem := List.mem_map_of_mem (f := Token.piece) htoken'
  rw [hpieces, List.mem_map] at hmem
  obtain ⟨token, htoken, hpiece⟩ := hmem
  have hkind : token'.kind = token.kind := (congrArg Piece.kind hpiece).symm
  simpa only [Token.separates, hkind] using hfront token htoken

/-- What stands behind the pieces of some statements is read as if it stood alone. -/
theorem statementsOf_continued {tail : List Piece} (htail : Bounds tail) {tokens tokens' : List Token}
    {first : List Expr} (h : statementsOf tokens = .ok first)
    (hprolonged : Prolonged tail tokens tokens') :
    ∃ rest', rest'.map Token.piece = tail ∧
      statementsOf tokens' = (statementsOf rest').map (first ++ ·) := by
  induction hn : tokens.length using Nat.strong_induction_on generalizing tokens tokens' first with
  | _ n ih =>
    obtain ⟨more', hskip, hprolonged⟩ := hprolonged.skip
    have hlength := (List.dropWhile_sublist Token.separates (l := tokens)).length_le
    rw [statementsOf_eq] at h
    rw [hskip]
    cases hmore : tokens.dropWhile Token.separates with
    | nil =>
        rw [hmore] at h hprolonged
        obtain rfl := Except.ok.inj h
        refine ⟨more', hprolonged, ?_⟩
        cases statementsOf more' <;> rfl
    | cons next more =>
        have hnext : ¬ next.separates = true := by
          have := List.head?_dropWhile_not Token.separates tokens
          simpa [hmore] using this
        rw [hmore] at h hprolonged hlength
        obtain ⟨next', more', rfl, hkind, -, -⟩ := hprolonged.cons
        have hnext' : (next' :: more').dropWhile Token.separates = next' :: more' := by
          apply List.dropWhile_cons_of_neg
          rwa [Token.separates, hkind]
        rw [statementsOf_eq, hnext']
        dsimp only at h ⊢
        split at h
        · cases h
        · -- the last of the statements, with the tail right behind it
          rename_i statement hstatement
          obtain rfl := Except.ok.inj h
          obtain ⟨rest', hstatement', hrest⟩ :=
            isLocal_withRoom maxNesting .assignment htail hprolonged hstatement
          replace hstatement' :
            statementGrammar.assignment (next' :: more') = .ok (statement, rest') := hstatement'
          refine ⟨rest', hrest, ?_⟩
          rw [hstatement']
          rcases hrest.nil htail with rfl | ⟨token', rest', rfl, hsemicolon⟩
          · rfl
          · dsimp only
            rw [if_pos hsemicolon, statementsOf_semicolon hsemicolon]
            rfl
        · rename_i statement token rest hstatement
          split at h
          · rename_i hsemicolon
            have hless := length_lt_of_assignment hstatement
            obtain ⟨_, hstatement', hrest⟩ :=
              isLocal_withRoom maxNesting .assignment htail hprolonged hstatement
            obtain ⟨token', rest', rfl, hkind', -, hrest⟩ := hrest.cons
            replace hstatement' : statementGrammar.assignment (next' :: more') =
              .ok (statement, token' :: rest') := hstatement'
            cases hfollowing : statementsOf rest with
            | error e =>
                rw [hfollowing] at h
                cases h
            | ok following =>
                rw [hfollowing] at h
                obtain rfl := Except.ok.inj h
                have hlt : rest.length < n := by
                  simp only [List.length_cons] at hless hlength
                  omega
                obtain ⟨last', hlast, hread⟩ := ih _ hlt hfollowing hrest rfl
                refine ⟨last', hlast, ?_⟩
                rw [hstatement']
                dsimp only
                rw [hkind', if_pos hsemicolon, hread]
                cases statementsOf last' <;> rfl
          · cases h

/-- Tokens with the same pieces make the same statements, if they make any. -/
theorem toOption_statementsOf {tokens tokens' : List Token}
    (h : tokens'.map Token.piece = tokens.map Token.piece) :
    (statementsOf tokens').toOption = (statementsOf tokens).toOption := by
  have hread {tokens tokens' : List Token} {statements : List Expr}
      (hpieces : tokens'.map Token.piece = tokens.map Token.piece)
      (hok : statementsOf tokens = .ok statements) : statementsOf tokens' = .ok statements := by
    obtain ⟨rest', hrest, hread⟩ := statementsOf_continued (.inl rfl) hok
      (show Prolonged [] tokens tokens' by rw [Prolonged, hpieces, List.append_nil])
    obtain rfl := List.map_eq_nil_iff.1 hrest
    rw [hread, show statementsOf [] = .ok [] from rfl]
    exact congrArg Except.ok (List.append_nil statements)
  cases hok : statementsOf tokens with
  | ok statements => rw [hread h hok]
  | error e =>
      cases hok' : statementsOf tokens' with
      | error e' => rfl
      | ok statements =>
          rw [hread h.symm hok'] at hok
          cases hok

/-- The statements of a text are those of its tokens, if all of them are good. -/
theorem toOption_parseStatements_of_good {source : String}
    (h : ∀ piece ∈ piecesOf source.toList, piece.kind.isBad = false) :
    (parseStatements source).toOption = (statementsOf (scanTokens 0 source.toList)).toOption := by
  rw [parseStatements, tokenize_eq_ok_iff.2 ⟨h, rfl⟩]
  rfl

theorem toOption_parseStatements_of_bad {source : String}
    (h : ¬ ∀ piece ∈ piecesOf source.toList, piece.kind.isBad = false) :
    (parseStatements source).toOption = none := by
  rw [parseStatements]
  split
  · rfl
  · rename_i htokens
    exact absurd (tokenize_eq_ok_iff.1 htokens).1 h

/-- Behind a text that can be read, and a semicolon, a text is read as if it stood alone, and cannot
be read if it could not then. -/
theorem parseStatements_append {s₁ : String} {first : List Expr}
    (h : parseStatements s₁ = .ok first) (s₂ : String) :
    (parseStatements (s₁ ++ ";" ++ s₂)).toOption =
      (parseStatements s₂).toOption.map (first ++ ·) := by
  have hchars : (s₁ ++ ";" ++ s₂).toList = s₁.toList ++ ';' :: s₂.toList := by
    simp
  rw [parseStatements] at h
  split at h
  · cases h
  · rename_i tokens htokens
    obtain ⟨hgood, rfl⟩ := tokenize_eq_ok_iff.1 htokens
    have hpieces := piecesOf_append_semicolon hgood s₂.toList
    rw [← hchars] at hpieces
    by_cases hgood₂ : ∀ piece ∈ piecesOf s₂.toList, piece.kind.isBad = false
    · have hboth : ∀ piece ∈ piecesOf (s₁ ++ ";" ++ s₂).toList, piece.kind.isBad = false := by
        rw [hpieces, List.forall_mem_append, List.forall_mem_cons]
        exact ⟨hgood, rfl, hgood₂⟩
      obtain ⟨rest', hrest, hread⟩ := statementsOf_continued (.inr ⟨_, rfl⟩) h hpieces
      obtain ⟨token', more', rfl, hsemicolon, hmore⟩ := List.map_eq_cons_iff.1 hrest
      rw [toOption_parseStatements_of_good hboth, toOption_parseStatements_of_good hgood₂, hread,
        statementsOf_semicolon (congrArg Piece.kind hsemicolon), ← toOption_statementsOf hmore]
      cases statementsOf more' <;> rfl
    · have hbad : ¬ ∀ piece ∈ piecesOf (s₁ ++ ";" ++ s₂).toList, piece.kind.isBad = false := by
        rw [hpieces, List.forall_mem_append, List.forall_mem_cons]
        exact fun hall => hgood₂ hall.2.2
      rw [toOption_parseStatements_of_bad hbad, toOption_parseStatements_of_bad hgood₂]
      rfl

/-! ### Evaluation -/

theorem evalStatements_append (first second : List Expr) (last : Value) :
    evalStatements (first ++ second) last = evalStatements first last >>= evalStatements second := by
  induction first generalizing last with
  | nil => rfl
  | cons statement rest ih =>
      rw [List.cons_append, evalStatements, evalStatements, bind_assoc]
      exact congrArg _ (funext ih)

/-- The value so far only counts if there are no more statements. -/
theorem evalStatements_last (statements : List Expr) (last : Value) :
    evalStatements statements last = (do
      let value ← evalStatements statements .null
      return if statements.isEmpty then last else value) := by
  cases statements with
  | nil => rfl
  | cons statement rest =>
      show evalStatements (statement :: rest) last = (evalStatements (statement :: rest) .null >>= pure)
      rw [bind_pure]
      rfl

theorem evaluate_of_ok {source : String} {statements : List Expr}
    (h : parseStatements source = .ok statements) :
    evaluate source = evalStatements statements .null := by
  rw [evaluate, h]

/-- A text that cannot be read has an error and no effect. -/
theorem evaluate_of_unread {source : String} (h : (parseStatements source).toOption = none) :
    ∃ error, ∀ s : State, evaluate source s = (.error error, s) ∧
      evaluateCondition source s = (.error error, s) := by
  cases hparse : parseStatements source with
  | error e =>
      have hevaluate : evaluate source = throw e := by
        rw [evaluate, hparse]
      refine ⟨e, fun s => ?_⟩
      rw [evaluateCondition, hevaluate]
      exact ⟨rfl, rfl⟩
  | ok statements =>
      rw [hparse] at h
      cases h

/-- The text has statements, however many. -/
def IsReadable (source : String) : Prop :=
  ∃ statements, parseStatements source = .ok statements

theorem toOption_of_not_isReadable {source : String} (h : ¬ IsReadable source) :
    (parseStatements source).toOption = none := by
  cases hparse : parseStatements source with
  | error e => rfl
  | ok statements => exact absurd ⟨statements, hparse⟩ h

/-- Two texts with a semicolon between them are evaluated one after the other, if both can be read,
and the value of the second counts unless there are no statements in it. A text that cannot be read
has an error and changes nothing, and no statements in front of it do either. -/
theorem statements_compose {s₁ : String} {first : List Expr} (h₁ : parseStatements s₁ = .ok first) :
    (∀ s₂ second, parseStatements s₂ = .ok second →
      evaluate (s₁ ++ ";" ++ s₂) = do
        let value ← evaluate s₁
        let last ← evaluate s₂
        return if second.isEmpty then value else last) ∧
    (∀ source, ¬ IsReadable source → ∃ error, ∀ s : State,
      evaluate source s = (.error error, s) ∧ evaluateCondition source s = (.error error, s)) ∧
    (∀ s₂, ¬ IsReadable s₂ → ∃ error, ∀ s : State,
      evaluate (s₁ ++ ";" ++ s₂) s = (.error error, s) ∧
        evaluateCondition (s₁ ++ ";" ++ s₂) s = (.error error, s)) := by
  refine ⟨?_, fun source h => evaluate_of_unread (toOption_of_not_isReadable h), ?_⟩
  · intro s₂ second h₂
    have hboth : parseStatements (s₁ ++ ";" ++ s₂) = .ok (first ++ second) := by
      have happend := parseStatements_append h₁ s₂
      rw [h₂] at happend
      cases hparse : parseStatements (s₁ ++ ";" ++ s₂) with
      | error e =>
          rw [hparse] at happend
          cases happend
      | ok statements =>
          rw [hparse] at happend
          exact congrArg Except.ok (Option.some.inj happend)
    rw [evaluate_of_ok hboth, evaluate_of_ok h₁, evaluate_of_ok h₂, evalStatements_append]
    exact congrArg _ (funext (evalStatements_last second))
  · intro s₂ h₂
    apply evaluate_of_unread
    rw [parseStatements_append h₁, toOption_of_not_isReadable h₂]
    rfl

/-- What is set in front of a semicolon is read behind it; and it is not set if a string behind it is
not closed. -/
theorem statements_compose_of_flag :
    parseStatements "$a to true" = .ok [.assign .set "$a" (.literal (.bool true))] ∧
      parseStatements "not $a" = .ok [.not (.var "$a")] ∧ ¬ IsReadable "'" ∧
      evaluate ("$a to true" ++ ";" ++ "not $a") = (do
        let _ ← evaluate "$a to true"
        evaluate "not $a") ∧
      ∃ error, ∀ s : State, evaluate ("$a to true" ++ ";" ++ "'") s = (.error error, s) := by
  have h₁ : parseStatements "$a to true" = .ok [.assign .set "$a" (.literal (.bool true))] := by cbv
  have h₂ : parseStatements "not $a" = .ok [.not (.var "$a")] := by cbv
  have hopen : parseStatements "'" = .error (.misspelled .openSingle 0) := by cbv
  have hnot : ¬ IsReadable "'" := by
    rintro ⟨statements, h⟩
    rw [hopen] at h
    cases h
  obtain ⟨hcompose, -, hatomic⟩ := statements_compose h₁
  have hlast : evaluate ("$a to true" ++ ";" ++ "not $a") =
      evaluate "$a to true" >>= fun _ => evaluate "not $a" >>= pure := hcompose "not $a" _ h₂
  obtain ⟨error, herror⟩ := hatomic "'" hnot
  exact ⟨h₁, h₂, hnot, by simpa only [bind_pure] using hlast, error, fun s => (herror s).1⟩

end StoryEngine
