import StoryEngine.Proofs.Expr.Spelled
/-!
# StoryEngine.Proofs.Expr.Pieces

The pieces of a text are its tokens without their places. They do not depend on where the text
stands, and a semicolon that is no part of a string ends whatever stands in front of it: the pieces
of two texts with a semicolon between them are those of the first, the semicolon, and those of the
second (`piecesOf_append_semicolon`).
-/

namespace StoryEngine

/-! ### The scan in front of a semicolon -/

section Scan

variable {test : Char → Bool}

theorem takeWhile_append_semicolon (htest : test ';' = false) (cs ds : List Char) :
    (cs ++ ';' :: ds).takeWhile test = cs.takeWhile test := by
  induction cs with
  | nil => simp [htest]
  | cons c cs ih => by_cases hc : test c = true <;> simp [hc, ih]

theorem dropWhile_append_semicolon (htest : test ';' = false) (cs ds : List Char) :
    (cs ++ ';' :: ds).dropWhile test = cs.dropWhile test ++ ';' :: ds := by
  induction cs with
  | nil => simp [htest]
  | cons c cs ih => by_cases hc : test c = true <;> simp [hc, ih]

theorem headIs_append_semicolon (htest : test ';' = false) (cs ds : List Char) :
    headIs test (cs ++ ';' :: ds) = headIs test cs := by
  cases cs with
  | nil => exact htest
  | cons c cs => rfl

theorem spanDigits_append_semicolon (cs ds : List Char) :
    spanDigits (cs ++ ';' :: ds) = ((spanDigits cs).1, (spanDigits cs).2 ++ ';' :: ds) := by
  rw [spanDigits, takeWhile_append_semicolon rfl, dropWhile_append_semicolon rfl, spanDigits]

theorem spanFraction_append_semicolon (cs ds : List Char) :
    spanFraction (cs ++ ';' :: ds) = ((spanFraction cs).1, (spanFraction cs).2 ++ ';' :: ds) := by
  cases cs with
  | nil => rfl
  | cons c cs =>
      rw [List.cons_append, spanFraction, spanFraction, spanDigits_append_semicolon]
      split <;> rfl

theorem spanSign_append_semicolon (cs ds : List Char) :
    spanSign (cs ++ ';' :: ds) = ((spanSign cs).1, (spanSign cs).2 ++ ';' :: ds) := by
  cases cs with
  | nil => rfl
  | cons c cs =>
      rw [List.cons_append, spanSign, spanSign]
      split <;> rfl

theorem spanExponent_append_semicolon (cs ds : List Char) :
    spanExponent (cs ++ ';' :: ds) = ((spanExponent cs).1, (spanExponent cs).2 ++ ';' :: ds) := by
  cases cs with
  | nil => rfl
  | cons c cs =>
      rw [List.cons_append, spanExponent, spanExponent, spanSign_append_semicolon]
      dsimp only
      rw [spanDigits_append_semicolon]
      split <;> rfl

theorem spanNumber_append_semicolon (cs ds : List Char) :
    spanNumber (cs ++ ';' :: ds) = ((spanNumber cs).1, (spanNumber cs).2 ++ ';' :: ds) := by
  simp only [spanNumber, spanDigits_append_semicolon, spanFraction_append_semicolon,
    spanExponent_append_semicolon]

/-- A string that is closed ends where it does, whatever follows. -/
theorem spanQuoted?_append_of_some {quote : Char} {bare escaped : Char → Bool}
    {cs inside rest : List Char} (h : spanQuoted? quote bare escaped cs = some (inside, rest))
    (ds : List Char) : spanQuoted? quote bare escaped (cs ++ ds) = some (inside, rest ++ ds) := by
  fun_induction spanQuoted? quote bare escaped cs generalizing inside rest with
  | case1 => cases h
  | case2 => cases h
  | case3 => cases h
  | case4 c cs hc ih =>
      obtain ⟨⟨a, b⟩, hab, heq⟩ := Option.map_eq_some_iff.1 h
      obtain ⟨rfl, rfl⟩ := Prod.mk.inj heq
      simp [spanQuoted?, hc, ih hab]
  | case5 c cs hlone hpair hc =>
      obtain ⟨rfl, rfl⟩ := Prod.mk.inj (Option.some.inj h)
      cases cs with
      | nil => simp_all [spanQuoted?]
      | cons d cs => simp_all [spanQuoted?]
  | case6 => cases h
  | case7 c cs hlone hpair hquote hbare ih =>
      obtain ⟨⟨a, b⟩, hab, heq⟩ := Option.map_eq_some_iff.1 h
      obtain ⟨rfl, rfl⟩ := Prod.mk.inj heq
      cases cs with
      | nil => simp [spanQuoted?] at hab
      | cons d cs => simp_all [spanQuoted?]

end Scan

/-- It is no token. -/
def TokenKind.isBad : TokenKind → Bool
  | .bad _ => true
  | _ => false

namespace Lexeme

/-- The division of a text that goes on. -/
def followedBy (lexeme : Lexeme) (ds : List Char) : Lexeme :=
  { lexeme with rest := lexeme.rest ++ ds }

/-- What follows decides about a choice as it decides about what is chosen. -/
theorem followedBy_ite {p : Prop} [Decidable p] {a b a' b' : Lexeme} {ds : List Char}
    (hgood : (if p then a else b).kind.isBad = false)
    (ha : a.kind.isBad = false → a' = a.followedBy ds)
    (hb : b.kind.isBad = false → b' = b.followedBy ds) :
    (if p then a' else b') = (if p then a else b).followedBy ds := by
  by_cases h : p
  · rw [if_pos h] at hgood ⊢
    rw [if_pos h, ha hgood]
  · rw [if_neg h] at hgood ⊢
    rw [if_neg h, hb hgood]

end Lexeme

theorem stringLexeme_append_semicolon {quote : Char} {fault : SpellingFault} {cs : List Char}
    (h : (stringLexeme quote fault cs).kind.isBad = false) (ds : List Char) :
    stringLexeme quote fault (cs ++ ';' :: ds) =
      (stringLexeme quote fault cs).followedBy (';' :: ds) := by
  rw [stringLexeme] at h
  cases hspan : spanQuoted? quote noChar noChar cs with
  | none =>
      rw [hspan] at h
      cases h
  | some found =>
      obtain ⟨inside, rest⟩ := found
      rw [stringLexeme, stringLexeme, hspan, spanQuoted?_append_of_some hspan]
      rfl

theorem operatorLexeme_append_semicolon {c : Char} {cs : List Char}
    (h : (operatorLexeme c cs).kind.isBad = false) (ds : List Char) :
    operatorLexeme c (cs ++ ';' :: ds) = (operatorLexeme c cs).followedBy (';' :: ds) := by
  unfold operatorLexeme at h ⊢
  refine Lexeme.followedBy_ite h (fun h => ?_) fun _ => ?_
  · cases cs with
    | nil => cases h
    | cons d cs => exact Lexeme.followedBy_ite h (fun _ => rfl) nofun
  · -- up to two equality signs belong to the operator
    cases cs with
    | nil => rfl
    | cons d cs =>
        by_cases hd : d = '='
        · subst hd
          cases cs with
          | nil => rfl
          | cons d cs =>
              by_cases hd : d = '='
              · subst hd
                rfl
              · simp [hd, Lexeme.followedBy]
        · simp [hd, Lexeme.followedBy]

/-- The first token is the same whether a semicolon follows later or not, unless it is bad. -/
theorem lexeme_append_semicolon {c : Char} {cs : List Char}
    (h : (lexeme c cs).kind.isBad = false) (ds : List Char) :
    lexeme c (cs ++ ';' :: ds) = (lexeme c cs).followedBy (';' :: ds) := by
  have hdigit : Char.isDigit ';' = false := rfl
  have hident : isIdentChar ';' = false := rfl
  unfold lexeme at h ⊢
  rw [headIs_append_semicolon hdigit, headIs_append_semicolon hident,
    spanNumber_append_semicolon, takeWhile_append_semicolon hident,
    dropWhile_append_semicolon hident]
  refine Lexeme.followedBy_ite h (fun _ => rfl) fun h => ?_
  refine Lexeme.followedBy_ite h (stringLexeme_append_semicolon · ds) fun h => ?_
  refine Lexeme.followedBy_ite h (stringLexeme_append_semicolon · ds) fun h => ?_
  refine Lexeme.followedBy_ite h (fun _ => rfl) fun h => ?_
  refine Lexeme.followedBy_ite h (fun _ => rfl) fun h => ?_
  refine Lexeme.followedBy_ite h (fun _ => rfl) fun h => ?_
  refine Lexeme.followedBy_ite h (fun _ => rfl) fun h => ?_
  refine Lexeme.followedBy_ite h (fun _ => rfl) fun h => ?_
  exact Lexeme.followedBy_ite h (operatorLexeme_append_semicolon · ds) nofun

/-! ### The pieces of a text -/

/-- The pieces of a text, wherever it stands. -/
def piecesOf (cs : List Char) : List Piece :=
  (scanTokens 0 cs).map Token.piece

theorem scanTokens_nil {cs : List Char} (h : dropBlanks cs = []) (position : Nat) :
    scanTokens position cs = [] := by
  rw [scanTokens]
  split
  · rfl
  · rename_i hcons
    rw [h] at hcons
    cases hcons

theorem scanTokens_cons {cs rest : List Char} {c : Char} (h : dropBlanks cs = c :: rest)
    (position : Nat) : ∃ token next,
      token.piece = ⟨(lexeme c rest).kind, String.ofList (c :: (lexeme c rest).more)⟩ ∧
      scanTokens position cs =
        token :: if (lexeme c rest).kind.isBad then [] else scanTokens next (lexeme c rest).rest := by
  rw [scanTokens]
  split
  · rename_i hnil
    rw [h] at hnil
    cases hnil
  · rename_i d after hcons
    rw [h] at hcons
    obtain ⟨rfl, rfl⟩ := List.cons.inj hcons
    dsimp only
    cases (lexeme c rest).kind with
    | bad fault => exact ⟨_, 0, rfl, rfl⟩
    | _ => exact ⟨_, _, rfl, rfl⟩

/-- The pieces are the same wherever the text begins. -/
theorem map_piece_scanTokens (position : Nat) (cs : List Char) :
    (scanTokens position cs).map Token.piece = piecesOf cs := by
  suffices h : ∀ n position position' (cs : List Char), cs.length ≤ n →
      (scanTokens position cs).map Token.piece = (scanTokens position' cs).map Token.piece by
    exact h cs.length position 0 cs le_rfl
  intro n
  induction n with
  | zero =>
      intro position position' cs hlength
      obtain rfl := List.length_eq_zero_iff.1 (Nat.le_zero.1 hlength)
      rw [scanTokens_nil rfl, scanTokens_nil rfl]
  | succ n ih =>
      intro position position' cs hlength
      cases hdrop : dropBlanks cs with
      | nil => rw [scanTokens_nil hdrop, scanTokens_nil hdrop]
      | cons c rest =>
          obtain ⟨token, next, htoken, hscan⟩ := scanTokens_cons hdrop position
          obtain ⟨token', next', htoken', hscan'⟩ := scanTokens_cons hdrop position'
          have hless := length_lexeme_rest_lt hdrop
          rw [hscan, hscan', List.map_cons, List.map_cons, htoken, htoken']
          split
          · rfl
          · rw [ih next next' _ (by omega)]

theorem piecesOf_nil {cs : List Char} (h : dropBlanks cs = []) : piecesOf cs = [] := by
  rw [piecesOf, scanTokens_nil h, List.map_nil]

theorem piecesOf_cons {cs rest : List Char} {c : Char} (h : dropBlanks cs = c :: rest) :
    piecesOf cs = ⟨(lexeme c rest).kind, String.ofList (c :: (lexeme c rest).more)⟩ ::
      if (lexeme c rest).kind.isBad then [] else piecesOf (lexeme c rest).rest := by
  obtain ⟨token, next, htoken, hscan⟩ := scanTokens_cons h 0
  rw [piecesOf, hscan, List.map_cons, htoken]
  split
  · rfl
  · rw [map_piece_scanTokens]

/-- A semicolon with the source around it. -/
def Piece.semicolon : Piece := ⟨.semicolon, ";"⟩

/-- If the pieces in front of a semicolon are good, what follows has its own. -/
theorem piecesOf_append_semicolon {cs : List Char}
    (h : ∀ piece ∈ piecesOf cs, piece.kind.isBad = false) (ds : List Char) :
    piecesOf (cs ++ ';' :: ds) = piecesOf cs ++ .semicolon :: piecesOf ds := by
  induction hn : cs.length using Nat.strong_induction_on generalizing cs with
  | _ n ih =>
    have hdrop : dropBlanks (cs ++ ';' :: ds) = dropBlanks cs ++ ';' :: ds :=
      dropWhile_append_semicolon rfl cs ds
    cases hcs : dropBlanks cs with
    | nil =>
        rw [hcs, List.nil_append] at hdrop
        rw [piecesOf_cons hdrop, piecesOf_nil hcs]
        rfl
    | cons c rest =>
        rw [hcs, List.cons_append] at hdrop
        rw [piecesOf_cons hcs] at h
        have hgood : (lexeme c rest).kind.isBad = false := h _ List.mem_cons_self
        have hlexeme := lexeme_append_semicolon hgood ds
        rw [hgood, if_neg Bool.false_ne_true] at h
        have hrest := ih _ (hn ▸ length_lexeme_rest_lt hcs)
          (fun piece hpiece => h piece (List.mem_cons_of_mem _ hpiece)) rfl
        rw [piecesOf_cons hdrop, hlexeme, piecesOf_cons hcs]
        simp only [Lexeme.followedBy, hgood]
        rw [if_neg Bool.false_ne_true, if_neg Bool.false_ne_true, hrest]
        rfl

theorem badToken?_eq_none_iff {tokens : List Token} :
    badToken? tokens = none ↔ ∀ piece ∈ tokens.map Token.piece, piece.kind.isBad = false := by
  induction tokens with
  | nil => simp [badToken?]
  | cons token rest ih =>
      rw [badToken?, List.map_cons, List.forall_mem_cons, ← ih]
      show _ ↔ token.kind.isBad = false ∧ _
      cases token.kind <;> simp [TokenKind.isBad]

/-- A text is divided into tokens exactly if its pieces are good. -/
theorem tokenize_eq_ok_iff {source : String} {tokens : List Token} :
    tokenize source = .ok tokens ↔
      (∀ piece ∈ piecesOf source.toList, piece.kind.isBad = false) ∧
        tokens = scanTokens 0 source.toList := by
  rw [piecesOf, ← badToken?_eq_none_iff, tokenize]
  cases badToken? (scanTokens 0 source.toList) with
  | none => simp [eq_comm]
  | some error => simp

end StoryEngine
