import StoryEngine.Proofs.Argument.Scanner
import StoryEngine.Proofs.Expr.Nesting
import StoryEngine.Proofs.Expr.Scanner
import StoryEngine.Proofs.Expr.Targets
/-!
# StoryEngine.Proofs.Expr.Quoted

The string tokens of a scan stand for strings. A token that the scan takes for a string ends in the
quote that it begins with, so it is never refused when it is read (`unquote_of_scanTokens`,
`unquote_of_scanArguments`). The parser reads no other literals: an expression is not refused for a
literal that is not closed, and if it is refused because it ends too early, then it does end there,
for with one more token behind it it is refused for another reason (`Grammar.spells_withRoom`).
-/

namespace StoryEngine

open Grammar

/-! ### Literals that are closed -/

/-- A literal that ends in the character that it begins with stands for a string. -/
theorem unquote_of_getLast? {quote : Char} {inside : List Char}
    (h : inside.getLast? = some quote) :
    ∃ s, unquote (String.ofList (quote :: inside)) = .ok s := by
  cases inside with
  | nil => cases h
  | cons c cs =>
      refine ⟨String.ofList (readEscapes (c :: cs).dropLast), ?_⟩
      rw [unquote, String.toList_ofList]
      dsimp only
      rw [h, if_pos (beq_self_eq_true _)]

theorem getLast?_of_spanQuoted? {quote : Char} {bare escaped : Char → Bool}
    {cs inside rest : List Char} (h : spanQuoted? quote bare escaped cs = some (inside, rest)) :
    inside.getLast? = some quote := by
  have hcons {c : Char} {ds : List Char} (hds : ds.getLast? = some quote) :
      (c :: ds).getLast? = some quote := by
    rw [List.getLast?_cons, hds]
    rfl
  fun_induction spanQuoted? quote bare escaped cs generalizing inside rest with
  | case1 => cases h
  | case2 => cases h
  | case3 => cases h
  | case4 c cs _ ih =>
      obtain ⟨⟨more, after⟩, hspan, heq⟩ := Option.map_eq_some_iff.mp h
      obtain ⟨rfl, rfl⟩ := Prod.mk.inj heq
      exact hcons (hcons (ih hspan))
  | case5 c cs _ _ hquote =>
      obtain ⟨rfl, rfl⟩ := Prod.mk.inj (Option.some.inj h)
      rw [beq_iff_eq.mp hquote]
      rfl
  | case6 => cases h
  | case7 c cs _ _ _ _ ih =>
      obtain ⟨⟨more, after⟩, hspan, heq⟩ := Option.map_eq_some_iff.mp h
      obtain ⟨rfl, rfl⟩ := Prod.mk.inj heq
      exact hcons (ih hspan)

theorem getLast?_of_quotedLexeme {quote : Char} {kind : ArgumentKind} {fault : ArgumentFault}
    {cs : List Char} (h : (quotedLexeme quote kind fault cs).kind.isBad = false) :
    (quotedLexeme quote kind fault cs).more.getLast? = some quote := by
  have hcons {c : Char} {ds : List Char} (hds : ds.getLast? = some quote) :
      (c :: ds).getLast? = some quote := by
    rw [List.getLast?_cons, hds]
    rfl
  fun_induction quotedLexeme quote kind fault cs with
  | case1 => cases h
  | case2 => cases h
  | case3 => cases h
  | case4 c cs _ ih => exact hcons (hcons (ih h))
  | case5 => cases h
  | case6 c cs _ _ _ hquote => rw [beq_iff_eq.mp hquote]; rfl
  | case7 c cs _ _ _ _ ih => exact hcons (ih h)

/-! ### String tokens -/

theorem getLast?_of_stringLexeme {quote : Char} {fault : SpellingFault} {cs : List Char}
    (h : (stringLexeme quote fault cs).kind = .string) :
    (stringLexeme quote fault cs).more.getLast? = some quote := by
  rw [stringLexeme] at h ⊢
  split at h
  · rename_i inside rest hspan
    exact getLast?_of_spanQuoted? hspan
  · cases h

theorem operatorLexeme_ne_string (c : Char) (cs : List Char) :
    (operatorLexeme c cs).kind ≠ .string := by
  unfold operatorLexeme
  split
  · split
    · split <;> simp
    · simp
  · split <;> simp

/-- A lexeme that is a string ends in the character that it begins with. -/
theorem getLast?_of_lexeme {c : Char} {cs : List Char} (h : (lexeme c cs).kind = .string) :
    (lexeme c cs).more.getLast? = some c := by
  unfold lexeme at h ⊢
  split at h
  · cases h
  rename_i hnumber
  rw [if_neg hnumber]
  split at h
  · rename_i hdouble
    rw [if_pos hdouble, beq_iff_eq.mp hdouble]
    exact getLast?_of_stringLexeme h
  rename_i hdouble
  rw [if_neg hdouble]
  split at h
  · rename_i hsingle
    rw [if_pos hsingle, beq_iff_eq.mp hsingle]
    exact getLast?_of_stringLexeme h
  -- no other token is a string
  exfalso
  repeat' split at h
  all_goals first | cases h | exact operatorLexeme_ne_string c cs h

theorem markupLexeme_ne_string (cs : List Char) : (markupLexeme cs).kind ≠ .string := by
  intro h
  rw [markupLexeme] at h
  split at h
  · rename_i rest _
    rcases kind_bracketLexeme rest (if (cs.takeWhile isImageMark).isEmpty then .link else .image) 2
      with hkind | ⟨fault, hkind⟩
    · cases hkind.symm.trans h
    · cases hkind.symm.trans h
  · cases h

/-- An argument that is a string ends in the character that it begins with. -/
theorem getLast?_of_argumentLexeme {c : Char} {cs : List Char}
    (h : (argumentLexeme c cs).kind = .string) : (argumentLexeme c cs).more.getLast? = some c := by
  have hquoted {kind : ArgumentKind} {fault : ArgumentFault}
      (hkind : (quotedLexeme c kind fault cs).kind = .string) :
      (quotedLexeme c kind fault cs).more.getLast? = some c :=
    getLast?_of_quotedLexeme (by rw [hkind]; rfl)
  unfold argumentLexeme at h ⊢
  by_cases hback : (c == '\x60') = true
  · rw [if_pos hback] at h ⊢
    exact hquoted h
  rw [if_neg hback] at h ⊢
  by_cases hdouble : (c == '"') = true
  · rw [if_pos hdouble] at h ⊢
    exact hquoted h
  rw [if_neg hdouble] at h ⊢
  by_cases hsingle : (c == '\'') = true
  · rw [if_pos hsingle] at h ⊢
    exact hquoted h
  rw [if_neg hsingle] at h ⊢
  by_cases hbracket : (c == '[') = true
  · rw [if_pos hbracket] at h
    exact absurd h (markupLexeme_ne_string cs)
  · rw [if_neg hbracket] at h
    cases h

theorem unquote_of_scanTokens (position : Nat) (cs : List Char) :
    ∀ token ∈ scanTokens position cs, token.kind = .string →
      ∃ s, unquote token.text = .ok s := by
  fun_induction scanTokens position cs with
  | case1 => simp
  | case2 position cs c rest hcs start next stop token fault hkind =>
      refine List.forall_mem_singleton.mpr fun hstring => ?_
      rw [show token.kind = next.kind from rfl, hkind] at hstring
      cases hstring
  | case3 position cs c rest hcs start next stop token hkind ih =>
      exact List.forall_mem_cons.mpr
        ⟨fun hstring => unquote_of_getLast? (getLast?_of_lexeme hstring), ih⟩

theorem unquote_of_scanArguments (position : Nat) (cs : List Char) :
    ∀ token ∈ scanArguments position cs, token.kind = .string →
      ∃ s, unquote token.text = .ok s := by
  fun_induction scanArguments position cs with
  | case1 => simp
  | case2 position cs c rest hcs start next stop token fault hkind =>
      refine List.forall_mem_singleton.mpr fun hstring => ?_
      rw [show token.kind = next.kind from rfl, hkind] at hstring
      cases hstring
  | case3 position cs c rest hcs start next stop token hkind ih =>
      exact List.forall_mem_cons.mpr
        ⟨fun hstring => unquote_of_getLast? (getLast?_of_argumentLexeme hstring), ih⟩

/-! ### What the parser refuses -/

/-- Every string token among the tokens stands for a string. -/
def AreQuoted (tokens : List Token) : Prop :=
  ∀ token ∈ tokens, token.kind = .string → ∃ s, unquote token.text = .ok s

/-- The last token is a semicolon. -/
def EndsInSemicolon (tokens : List Token) : Prop :=
  ∃ token, tokens.getLast? = some token ∧ token.kind = .semicolon

/-- The error says that a literal is not closed. -/
def ExprError.IsOpenLiteral (e : ExprError) : Prop :=
  ∃ position, e = .misspelled .openLiteral position

/-- What is read off the tokens leaves the last ones, not without a semicolon at their end. What is
refused is not refused for a literal that is not closed, nor for an end that comes too early if
there is a semicolon at it. -/
def ReadsFrom (tokens : List Token) : Except ExprError (Expr × List Token) → Prop
  | .ok (_, rest) => rest <:+ tokens ∧ (EndsInSemicolon tokens → EndsInSemicolon rest)
  | .error e => ¬ e.IsOpenLiteral ∧ (EndsInSemicolon tokens → e ≠ .unexpectedEnd)

section Parser

variable {below : Grammar} {token : Token} {tokens more : List Token} {e : Expr}

theorem EndsInSemicolon.tail (h : EndsInSemicolon (token :: more)) (hkind : token.kind ≠ .semicolon) :
    EndsInSemicolon more := by
  obtain ⟨last, hlast, hsemicolon⟩ := h
  cases more with
  | nil =>
      rw [List.getLast?_singleton, Option.some.injEq] at hlast
      exact absurd (hlast ▸ hsemicolon) hkind
  | cons next more => exact ⟨last, by rwa [List.getLast?_cons_cons] at hlast, hsemicolon⟩

theorem not_endsInSemicolon_nil : ¬ EndsInSemicolon [] := by
  rintro ⟨token, hlast, -⟩
  cases hlast

/-- A token that is no semicolon is left out of the rest. -/
theorem ReadsFrom.taken (hkind : token.kind ≠ .semicolon) :
    ReadsFrom (token :: more) (.ok (e, more)) :=
  ⟨List.suffix_cons token more, fun h => h.tail hkind⟩

theorem ReadsFrom.all : ReadsFrom tokens (.ok (e, tokens)) :=
  ⟨List.suffix_refl tokens, id⟩

/-- What is read off the rest is read off all tokens. -/
theorem ReadsFrom.trans {rest : List Token} {result : Except ExprError (Expr × List Token)}
    (hrest : rest <:+ tokens) (hends : EndsInSemicolon tokens → EndsInSemicolon rest)
    (h : ReadsFrom rest result) : ReadsFrom tokens result := by
  cases result with
  | ok read => exact ⟨h.1.trans hrest, fun htokens => h.2 (hends htokens)⟩
  | error error => exact ⟨h.1, fun htokens => h.2 (hends htokens)⟩

theorem AreQuoted.suffix {rest : List Token} (h : AreQuoted tokens) (hrest : rest <:+ tokens) :
    AreQuoted rest :=
  fun token htoken => h token (hrest.subset htoken)

theorem Token.ne_semicolon_of_spelled? {α : Type} {find? : String → Option α} {op : α}
    (h : token.spelled? find? = some op) : token.kind ≠ .semicolon := by
  intro hkind
  rw [spelled?, hkind] at h
  cases h

/-- The parts of the grammar read off the front of tokens that are quoted. -/
def Grammar.Spells (g : Grammar) : Prop :=
  ∀ part tokens, AreQuoted tokens → ReadsFrom tokens (g.at part tokens)

theorem readsFrom_closing : ReadsFrom tokens (closing e tokens) := by
  cases tokens with
  | nil =>
      refine ⟨?_, fun h => absurd h not_endsInSemicolon_nil⟩
      rintro ⟨position, h⟩
      cases h
  | cons token rest =>
      rw [closing]
      split
      · rename_i hclose
        exact .taken (by rw [hclose]; simp)
      · refine ⟨?_, fun _ => by simp⟩
        rintro ⟨position, h⟩
        cases h

/-- Any error but the two that a literal can be refused with. -/
theorem ReadsFrom.refused {error : ExprError} (hopen : ¬ error.IsOpenLiteral)
    (hend : error ≠ .unexpectedEnd) : ReadsFrom tokens (.error error) :=
  ⟨hopen, fun _ => hend⟩

/-- The end comes too early. -/
theorem ReadsFrom.ended : ReadsFrom [] (.error .unexpectedEnd) := by
  refine ⟨?_, fun h => absurd h not_endsInSemicolon_nil⟩
  rintro ⟨position, h⟩
  cases h

/-- Another fault than an open literal. -/
theorem ReadsFrom.misspelled {fault : SpellingFault} {position : Nat} (h : fault ≠ .openLiteral) :
    ReadsFrom tokens (.error (.misspelled fault position)) := by
  refine .refused ?_ (by simp)
  rintro ⟨position', heq⟩
  exact h (ExprError.misspelled.inj heq).1

theorem numberLiteral_refused {error : ExprError} (h : numberLiteral token = .error error) :
    ReadsFrom tokens (.error error) := by
  rw [numberLiteral] at h
  split at h
  · cases h
    exact .misspelled (by simp)
  · split at h
    · cases h
      refine .refused ?_ (by simp)
      rintro ⟨position, heq⟩
      cases heq
    · cases h

theorem readsFrom_primary (hbelow : below.Spells) (hquoted : AreQuoted tokens) :
    ReadsFrom tokens (primary below tokens) := by
  cases tokens with
  | nil => exact .ended
  | cons token rest =>
      rw [primary]
      split
      · rename_i hkind
        split
        · rename_i error hnumber
          exact numberLiteral_refused hnumber
        · exact .taken (by rw [hkind]; simp)
      · rename_i hkind
        obtain ⟨s, hs⟩ := hquoted token List.mem_cons_self hkind
        rw [hs]
        exact .taken (by rw [hkind]; simp)
      · rename_i hkind
        exact .taken (by rw [hkind]; simp)
      · rename_i hkind
        split
        · exact .taken (by rw [hkind]; simp)
        · exact .misspelled (by simp)
      · rename_i hkind
        have hrest : rest <:+ token :: rest := List.suffix_cons token rest
        have hends (h : EndsInSemicolon (token :: rest)) : EndsInSemicolon rest :=
          h.tail (by rw [hkind]; simp)
        have hinner := hbelow .assignment rest (hquoted.suffix hrest)
        rw [Grammar.at] at hinner
        split
        · rename_i error hassignment
          rw [hassignment] at hinner
          exact hinner.trans hrest hends
        · rename_i inner after hassignment
          rw [hassignment] at hinner
          exact readsFrom_closing.trans (hinner.1.trans hrest) fun h => hinner.2 (hends h)
      · exact .misspelled (by simp)

theorem readsFrom_unary (hbelow : below.Spells) (hquoted : AreQuoted tokens) :
    ReadsFrom tokens (unary below tokens) := by
  cases tokens with
  | nil => exact readsFrom_primary hbelow hquoted
  | cons token rest =>
      rw [unary]
      split
      · exact readsFrom_primary hbelow hquoted
      · rename_i op hop
        have hrest : rest <:+ token :: rest := List.suffix_cons token rest
        have hends (h : EndsInSemicolon (token :: rest)) : EndsInSemicolon rest :=
          h.tail (Token.ne_semicolon_of_spelled? hop)
        have hoperand := hbelow (.operand 0) rest (hquoted.suffix hrest)
        rw [Grammar.at] at hoperand
        split
        · rename_i error hread
          rw [hread] at hoperand
          exact hoperand.trans hrest hends
        · rename_i operand after hread
          rw [hread] at hoperand
          exact ⟨hoperand.1.trans hrest, fun h => hoperand.2 (hends h)⟩

theorem readsFrom_links (hbelow : below.Spells) (hquoted : AreQuoted tokens) (level : Nat)
    (left : Expr) : ReadsFrom tokens (Grammar.links below level left tokens) := by
  cases tokens with
  | nil => exact .all
  | cons token rest =>
      rw [Grammar.links]
      split
      · exact .all
      · rename_i op hop
        have hrest : rest <:+ token :: rest := List.suffix_cons token rest
        have hends (h : EndsInSemicolon (token :: rest)) : EndsInSemicolon rest :=
          h.tail (Token.ne_semicolon_of_spelled? hop)
        have hright := hbelow (.operand (level - 1)) rest (hquoted.suffix hrest)
        rw [Grammar.at] at hright
        split
        · rename_i error hread
          rw [hread] at hright
          exact hright.trans hrest hends
        · rename_i right after hread
          rw [hread] at hright
          have hafter := hright.1.trans hrest
          exact (hbelow (.chain level (.binary op left right)) after (hquoted.suffix hafter)).trans
            hafter fun h => hright.2 (hends h)

theorem readsFrom_operand (hbelow : below.Spells) (hquoted : AreQuoted tokens) (level : Nat) :
    ReadsFrom tokens (operandOf below level tokens) := by
  induction level with
  | zero => exact readsFrom_unary hbelow hquoted
  | succ level ih =>
      rw [operandOf]
      dsimp only
      split
      · rename_i error hread
        rwa [hread] at ih
      · rename_i left rest hread
        rw [hread] at ih
        exact (readsFrom_links hbelow (hquoted.suffix ih.1) _ left).trans ih.1 ih.2

theorem readsFrom_assignment (hbelow : below.Spells) (hquoted : AreQuoted tokens) :
    ReadsFrom tokens (assignmentOf below tokens) := by
  have hoperand := readsFrom_operand hbelow hquoted loosest
  rw [assignmentOf]
  split
  · rename_i error hread
    rwa [hread] at hoperand
  · rename_i target hread
    rwa [hread] at hoperand
  · rename_i target token rest hread
    rw [hread] at hoperand
    split
    · exact hoperand
    · rename_i op hop
      have hrest : rest <:+ tokens := (List.suffix_cons token rest).trans hoperand.1
      have hends (h : EndsInSemicolon tokens) : EndsInSemicolon rest :=
        (hoperand.2 h).tail (Token.ne_semicolon_of_spelled? hop)
      split
      · rename_i name
        have hvalue := hbelow .assignment rest (hquoted.suffix hrest)
        rw [Grammar.at] at hvalue
        split
        · rename_i error hassignment
          rw [hassignment] at hvalue
          exact hvalue.trans hrest hends
        · rename_i value after hassignment
          rw [hassignment] at hvalue
          exact ⟨hvalue.1.trans hrest, fun h => hvalue.2 (hends h)⟩
      · refine .refused ?_ (by simp)
        rintro ⟨position, heq⟩
        cases heq

theorem spells_noRoom : noRoom.Spells := by
  intro part tokens _
  have hdeep : ReadsFrom tokens (.error .tooDeep) := by
    refine .refused ?_ (by simp)
    rintro ⟨position, heq⟩
    cases heq
  cases part <;> exact hdeep

theorem spells_deepen (hbelow : below.Spells) : (deepen below).Spells := by
  intro part tokens hquoted
  cases part with
  | operand level => exact readsFrom_operand hbelow hquoted level
  | chain level left => exact readsFrom_links hbelow hquoted level left
  | assignment => exact readsFrom_assignment hbelow hquoted

theorem Grammar.spells_withRoom (room : Nat) : (withRoom room).Spells := by
  induction room with
  | zero => exact spells_deepen spells_noRoom
  | succ room ih => exact spells_deepen ih

theorem EndsInSemicolon.suffix {rest : List Token} (h : EndsInSemicolon tokens)
    (hrest : rest <:+ tokens) (hnil : rest ≠ []) : EndsInSemicolon rest := by
  obtain ⟨last, hlast, hsemicolon⟩ := h
  obtain ⟨front, rfl⟩ := hrest
  exact ⟨last, by rwa [List.getLast?_append_of_ne_nil _ hnil] at hlast, hsemicolon⟩

/-- Statements are refused neither for an open literal, nor for an end that comes too early if there
is a semicolon at it. -/
theorem statements_refused {g : Grammar} (hg : g.Spells) {n : Nat} {error : ExprError}
    (hquoted : AreQuoted tokens) (h : statementsUpTo g n tokens = .error error) :
    ¬ error.IsOpenLiteral ∧ (EndsInSemicolon tokens → error ≠ .unexpectedEnd) := by
  induction n generalizing tokens with
  | zero => cases h
  | succ n ih =>
      have hdrop : tokens.dropWhile (fun token => token.kind = .semicolon) <:+ tokens :=
        List.dropWhile_suffix _
      rw [statementsUpTo] at h
      split at h
      · cases h
      · rename_i first more hfirst
        rw [hfirst] at hdrop
        have hends (htokens : EndsInSemicolon tokens) : EndsInSemicolon (first :: more) :=
          htokens.suffix hdrop (List.cons_ne_nil first more)
        have hread := hg .assignment (first :: more) (hquoted.suffix hdrop)
        rw [Grammar.at] at hread
        split at h
        · rename_i error' hassignment
          cases h
          rw [hassignment] at hread
          exact ⟨hread.1, fun htokens => hread.2 (hends htokens)⟩
        · cases h
        · rename_i statement token rest hassignment
          rw [hassignment] at hread
          have hrest : rest <:+ tokens :=
            (List.suffix_cons token rest).trans (hread.1.trans hdrop)
          split at h
          · split at h
            · rename_i error' hstatements
              cases h
              obtain ⟨hopen, hend⟩ := ih (hquoted.suffix hrest) hstatements
              refine ⟨hopen, fun htokens => ?_⟩
              cases rest with
              | nil => cases n <;> cases hstatements
              | cons next rest => exact hend (htokens.suffix hrest (List.cons_ne_nil next rest))
            · cases h
          · cases h
            refine ⟨?_, fun _ => by simp⟩
            rintro ⟨position, heq⟩
            cases heq

end Parser

end StoryEngine
