import Mathlib.Data.List.TakeWhile
import StoryEngine.Argument.List
/-!
# StoryEngine.Proofs.Argument.Scan

Where one argument ends and the next one begins. Whatever follows it, an argument that is spelled
well is read alike, except that a bareword goes on if no blank follows. So arguments that are
complete can be read on their own, and what follows them as well (`scanArguments_append`).
-/

namespace StoryEngine

/-! ### One argument, whatever follows -/

section Ends

variable {p : Char → Bool} {cs : List Char}

/-- A run of characters that ends in the text ends there, whatever follows. -/
theorem takeWhile_append_of_ends (h : cs.dropWhile p ≠ []) (more : List Char) :
    (cs ++ more).takeWhile p = cs.takeWhile p := by
  have hwhole := congrArg List.length (List.takeWhile_append_dropWhile (p := p) (l := cs))
  have hrest := List.length_pos_iff.2 h
  rw [List.length_append] at hwhole
  rw [List.takeWhile_append, if_neg (by omega)]

theorem dropWhile_append_of_ends (h : cs.dropWhile p ≠ []) (more : List Char) :
    (cs ++ more).dropWhile p = cs.dropWhile p ++ more := by
  rw [List.dropWhile_append, if_neg (by simpa using h)]

end Ends

/-- The kind is that of no argument at all. -/
def ArgumentKind.isBad : ArgumentKind → Bool
  | .bad _ => true
  | _ => false

/-- The lexeme with more characters behind what is left. -/
def ArgumentLexeme.followedBy (l : ArgumentLexeme) (more : List Char) : ArgumentLexeme :=
  { l with rest := l.rest ++ more }

section Lexemes

variable {kind : ArgumentKind} {fault : ArgumentFault} {markup : MarkupKind} {quote c : Char}
  {depth : Nat} {cs : List Char}

@[simp] theorem ArgumentLexeme.behind_kind (l : ArgumentLexeme) (c : Char) :
    (l.behind c).kind = l.kind := rfl

@[simp] theorem ArgumentLexeme.followedBy_behind (l : ArgumentLexeme) (c : Char)
    (more : List Char) : (l.behind c).followedBy more = (l.followedBy more).behind c := rfl

/-- A character that neither is a last backslash nor begins an escape is no backslash. -/
theorem ne_backslash (hlast : c = '\\' → cs = [] → False)
    (hescape : ∀ d ds, c = '\\' → cs = d :: ds → False) : c ≠ '\\' := by
  rintro rfl
  cases cs with
  | nil => exact hlast rfl rfl
  | cons d ds => exact hescape d ds rfl rfl

theorem quotedLexeme_cons (h : c ≠ '\\') :
    quotedLexeme quote kind fault (c :: cs) =
      if isLineFeed c then ⟨.bad fault, [c], cs⟩
      else if c == quote then ⟨kind, [c], cs⟩
      else (quotedLexeme quote kind fault cs).behind c := by
  rw [quotedLexeme]
  · exact fun hc _ => h hc
  · exact fun _ _ hc _ => h hc

theorem quotedLexeme_followedBy
    (h : (quotedLexeme quote kind fault cs).kind.isBad = false) (more : List Char) :
    quotedLexeme quote kind fault (cs ++ more) =
      (quotedLexeme quote kind fault cs).followedBy more := by
  fun_induction quotedLexeme quote kind fault cs with
  | case1 => cases h
  | case2 => cases h
  | case3 c cs hfeed => cases h
  | case4 c cs hfeed ih =>
      rw [List.cons_append, List.cons_append, quotedLexeme, if_neg hfeed, ih h]
      rfl
  | case5 c cs _ _ hfeed => cases h
  | case6 c cs hlast hescape hfeed hquote =>
      have hc := ne_backslash hlast hescape
      rw [List.cons_append, quotedLexeme_cons hc, if_neg hfeed, if_pos hquote]
      rfl
  | case7 c cs hlast hescape hfeed hquote ih =>
      have hc := ne_backslash hlast hescape
      rw [List.cons_append, quotedLexeme_cons hc, if_neg hfeed, if_neg hquote, ih h]
      rfl

theorem bracketLexeme_cons (hslash : c ≠ '\\') (hopen : c ≠ '[') (hclose : c ≠ ']') :
    bracketLexeme markup depth (c :: cs) =
      if isLineFeed c then ⟨.bad (.openMarkup markup), [c], cs⟩
      else (bracketLexeme markup depth cs).behind c := by
  rw [bracketLexeme]
  -- no other pattern fits
  all_goals simp [hslash, hopen, hclose]

/-- A closing bracket that is not the first of the two that end the markup. -/
theorem bracketLexeme_close (h : depth = 1 → ∀ ds, cs ≠ ']' :: ds) :
    bracketLexeme markup (depth + 1) (']' :: cs) = (bracketLexeme markup depth cs).behind ']' := by
  rw [bracketLexeme]
  rintro ds hdepth rfl
  exact h (by omega) ds rfl

theorem bracketLexeme_followedBy
    (h : (bracketLexeme markup depth cs).kind.isBad = false) (more : List Char) :
    bracketLexeme markup depth (cs ++ more) =
      (bracketLexeme markup depth cs).followedBy more := by
  fun_induction bracketLexeme markup depth cs with
  | case1 => cases h
  | case2 => cases h
  | case3 => cases h
  | case4 depth c cs hfeed ih =>
      rw [List.cons_append, List.cons_append, bracketLexeme, if_neg hfeed, ih h]
      rfl
  | case5 depth cs ih =>
      rw [List.cons_append, bracketLexeme, ih h]
      rfl
  | case6 => cases h
  | case7 => rfl
  | case8 depth cs hlast ih =>
      have hnext : depth = 1 → ∀ ds, cs ++ more ≠ ']' :: ds := by
        rintro rfl ds hds
        cases cs with
        | nil => cases h
        | cons d cs =>
            obtain ⟨rfl, -⟩ := List.cons.inj hds
            exact hlast cs rfl rfl
      rw [List.cons_append, bracketLexeme_close hnext, ih h]
      rfl
  | case9 => cases h
  | case10 depth c cs hlast hescape hopen hstray _ hclosing hfeed ih =>
      have hslash := ne_backslash hlast hescape
      have hclose : c ≠ ']' := by
        cases depth with
        | zero => exact fun hc => hstray rfl hc
        | succ depth => exact fun hc => hclosing depth rfl hc
      rw [List.cons_append, bracketLexeme_cons hslash hopen hclose, if_neg hfeed, ih h]
      rfl

theorem markupLexeme_marks {marks : List Char} (hmarks : ∀ c ∈ marks, isImageMark c = true)
    (rest : List Char) :
    markupLexeme (marks ++ '[' :: rest) =
      let inside := bracketLexeme (if marks.isEmpty then .link else .image) 2 rest
      { inside with more := marks ++ '[' :: inside.more } := by
  have htake : (marks ++ '[' :: rest).takeWhile isImageMark = marks := by
    rw [List.takeWhile_append_of_pos hmarks]
    exact List.append_nil marks
  have hdrop : (marks ++ '[' :: rest).dropWhile isImageMark = '[' :: rest := by
    rw [List.dropWhile_append_of_pos hmarks]
    rfl
  rw [markupLexeme, htake, hdrop]
  rfl

/-- Markup has a second opening bracket behind the marks. -/
theorem exists_marks (h : (markupLexeme cs).kind.isBad = false) :
    ∃ marks rest, cs = marks ++ '[' :: rest ∧ ∀ c ∈ marks, isImageMark c = true := by
  have hcs : cs.takeWhile isImageMark ++ cs.dropWhile isImageMark = cs :=
    List.takeWhile_append_dropWhile
  rw [markupLexeme] at h
  split at h
  · rename_i rest hrest
    rw [hrest] at hcs
    exact ⟨_, rest, hcs.symm, List.all_eq_true.1 List.all_takeWhile⟩
  · cases h

theorem markupLexeme_followedBy (h : (markupLexeme cs).kind.isBad = false) (more : List Char) :
    markupLexeme (cs ++ more) = (markupLexeme cs).followedBy more := by
  obtain ⟨marks, rest, rfl, hmarks⟩ := exists_marks h
  rw [markupLexeme_marks hmarks] at h
  rw [List.append_assoc, List.cons_append, markupLexeme_marks hmarks, markupLexeme_marks hmarks,
    bracketLexeme_followedBy h]
  rfl

/-- A bareword goes on to the next blank. -/
theorem argumentLexeme_bareword (hback : c ≠ '\x60') (hdouble : c ≠ '"') (hsingle : c ≠ '\'')
    (hbracket : c ≠ '[') :
    argumentLexeme c cs = ⟨.bareword, cs.takeWhile (!isBlank ·), cs.dropWhile (!isBlank ·)⟩ := by
  simp [argumentLexeme, hback, hdouble, hsingle, hbracket]

/-- Unless it is a bareword that reaches the end of the text, an argument that is spelled well is
read alike, whatever follows. -/
theorem argumentLexeme_followedBy (h : (argumentLexeme c cs).kind.isBad = false)
    (hends : (argumentLexeme c cs).kind = .bareword → (argumentLexeme c cs).rest ≠ [])
    (more : List Char) :
    argumentLexeme c (cs ++ more) = (argumentLexeme c cs).followedBy more := by
  by_cases hback : c = '\x60'
  · subst hback
    exact quotedLexeme_followedBy h more
  by_cases hdouble : c = '"'
  · subst hdouble
    exact quotedLexeme_followedBy h more
  by_cases hsingle : c = '\''
  · subst hsingle
    exact quotedLexeme_followedBy h more
  by_cases hbracket : c = '['
  · subst hbracket
    exact markupLexeme_followedBy h more
  · rw [argumentLexeme_bareword hback hdouble hsingle hbracket] at hends ⊢
    rw [argumentLexeme_bareword hback hdouble hsingle hbracket]
    -- the blank that ends it is there already
    have hrest : cs.dropWhile (!isBlank ·) ≠ [] := hends rfl
    rw [takeWhile_append_of_ends hrest, dropWhile_append_of_ends hrest]
    rfl

end Lexemes

/-! ### Complete arguments -/

section Scan

variable {position : Nat} {c : Char} {cs rest more : List Char}

/-- The token of the lexeme that begins with the character at the place. -/
def ArgumentLexeme.token (l : ArgumentLexeme) (c : Char) (start : Nat) : ArgumentToken :=
  ⟨l.kind, String.ofList (c :: l.more), start, start + 1 + l.more.length⟩

theorem scanArguments_of_blank (h : dropBlanks cs = []) : scanArguments position cs = [] := by
  rw [scanArguments]
  split
  · rfl
  · rename_i hcons
    rw [h] at hcons
    cases hcons

theorem scanArguments_of_lexeme (h : dropBlanks cs = c :: rest) :
    scanArguments position cs =
      let token := (argumentLexeme c rest).token c (position + (cs.takeWhile isBlank).length)
      token :: if token.kind.isBad then []
        else scanArguments token.stop (argumentLexeme c rest).rest := by
  rw [scanArguments]
  split
  · rename_i hnil
    rw [h] at hnil
    cases hnil
  · rename_i d ds hcons
    rw [h] at hcons
    obtain ⟨rfl, rfl⟩ := List.cons.inj hcons
    dsimp only [ArgumentLexeme.token]
    cases (argumentLexeme c rest).kind with
    | bareword => rfl
    | expression => rfl
    | string => rfl
    | brackets => rfl
    | bad fault => rfl

/-- Blanks before the arguments only move them. -/
theorem scanArguments_blanks {blanks : List Char} (h : ∀ c ∈ blanks, isBlank c = true)
    (position : Nat) (more : List Char) :
    scanArguments position (blanks ++ more) = scanArguments (position + blanks.length) more := by
  have hdrop : dropBlanks (blanks ++ more) = dropBlanks more :=
    List.dropWhile_append_of_pos h
  cases hmore : dropBlanks more with
  | nil => rw [scanArguments_of_blank (hdrop.trans hmore), scanArguments_of_blank hmore]
  | cons c rest =>
      rw [scanArguments_of_lexeme (hdrop.trans hmore), scanArguments_of_lexeme hmore,
        List.takeWhile_append_of_pos h, List.length_append, Nat.add_assoc]

/-- What is known of a token whose lexeme begins behind blanks: where it ends, as much is left as of
the text. -/
theorem stop_token (h : dropBlanks cs = c :: rest) (position : Nat) :
    ((argumentLexeme c rest).token c (position + (cs.takeWhile isBlank).length)).stop +
      (argumentLexeme c rest).rest.length = position + cs.length := by
  have hcs : cs.takeWhile isBlank ++ c :: rest = cs := by
    rw [← h]
    exact List.takeWhile_append_dropWhile
  have hlength := congrArg List.length hcs
  have hrest := congrArg List.length (argumentLexeme_append c rest)
  simp only [List.length_append, List.length_cons] at hlength hrest
  simp only [ArgumentLexeme.token]
  omega

theorem scanArguments_append_at (position : Nat) (cs more : List Char)
    (h : ∀ token ∈ scanArguments position cs,
      token.kind.isBad = false ∧ (token.kind = .bareword → token.stop < position + cs.length)) :
    scanArguments position (cs ++ more) =
      scanArguments position cs ++ scanArguments (position + cs.length) more := by
  cases hcs : dropBlanks cs with
  | nil =>
      rw [scanArguments_of_blank hcs]
      exact scanArguments_blanks (List.dropWhile_eq_nil_iff.1 hcs) position more
  | cons c rest =>
      have hends : cs.dropWhile isBlank ≠ [] := fun hnil => by
        rw [dropBlanks, hnil] at hcs
        cases hcs
      have hmore : dropBlanks (cs ++ more) = c :: (rest ++ more) := by
        rw [dropBlanks, dropWhile_append_of_ends hends, ← dropBlanks, hcs, List.cons_append]
      have hstop := stop_token hcs position
      rw [scanArguments_of_lexeme hcs] at h ⊢
      rw [scanArguments_of_lexeme hmore, takeWhile_append_of_ends hends]
      generalize position + (cs.takeWhile isBlank).length = start at h hstop ⊢
      obtain ⟨⟨hgood, hbareword⟩, hrest⟩ := List.forall_mem_cons.1 h
      have hbad : ¬ ((argumentLexeme c rest).token c start).kind.isBad = true := by simp [hgood]
      have hleft : (argumentLexeme c rest).kind = .bareword →
          (argumentLexeme c rest).rest ≠ [] := by
        intro hkind hnil
        have hshort := hbareword hkind
        rw [hnil, List.length_nil] at hstop
        omega
      rw [if_neg hbad, ← hstop] at hrest
      have hbehind := scanArguments_append_at _ _ more hrest
      rw [argumentLexeme_followedBy hgood hleft more, ← hstop, List.cons_append, if_neg hbad,
        ← hbehind]
      exact congrArg _ (if_neg hbad)
termination_by cs.length
decreasing_by exact length_argumentLexeme_rest_lt hcs

/-- The text ends where another argument may begin: all arguments in it are spelled well, and none
is a bareword that reaches its end. -/
def EndsBetweenArguments (cs : List Char) : Prop :=
  ∀ token ∈ scanArguments 0 cs,
    token.kind.isBad = false ∧ (token.kind = .bareword → token.stop < cs.length)

instance (cs : List Char) : Decidable (EndsBetweenArguments cs) :=
  inferInstanceAs (Decidable (∀ token ∈ scanArguments 0 cs,
    token.kind.isBad = false ∧ (token.kind = .bareword → token.stop < cs.length)))

/-- Arguments that are complete are read alike, whatever follows, and what follows is read as if
they were not there. -/
theorem scanArguments_append (h : EndsBetweenArguments cs) (more : List Char) :
    scanArguments 0 (cs ++ more) = scanArguments 0 cs ++ scanArguments cs.length more := by
  rw [EndsBetweenArguments, ← Nat.zero_add cs.length] at h
  rw [scanArguments_append_at 0 cs more h, Nat.zero_add]

end Scan

/-! ### The values -/

theorem tokenValues_append (tokens more : List ArgumentToken) :
    tokenValues (tokens ++ more) = do
      let front ← tokenValues tokens
      let back ← tokenValues more
      return front ++ back := by
  induction tokens with
  | nil => simp [tokenValues]
  | cons token tokens ih => simp [tokenValues, ih]

end StoryEngine
