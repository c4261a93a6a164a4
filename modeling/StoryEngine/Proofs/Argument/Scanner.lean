import StoryEngine.Proofs.Argument.Scan
import StoryEngine.Proofs.Lexer.Scanned
/-!
# StoryEngine.Proofs.Argument.Scanner

The scan of a tag's arguments as a grammar of states that move the cursor (`argumentGrammar`). The
state for markup counts brackets in the depth of the lexer; behind a bracket that could be the first
of the last two it looks at the next character and steps back, and so it reads a last bracket of the
source twice. The items are the arguments that are scanned at once (`argumentGrammar_scansWords`,
`scanned_scanArguments`).
-/

namespace StoryEngine

/-- Between arguments, or behind the first character of one. -/
inductive ArgumentState where
  | space
  | expression
  | doubleQuote
  | singleQuote
  | squareBracket
  | bareword
deriving Repr, DecidableEq

/-- The wording of what is wrong with the argument. -/
def ArgumentKind.message? : ArgumentKind → Option String
  | .bad fault => some fault.message
  | _ => none

/-- The argument as an item of a scan. -/
def ArgumentToken.item (token : ArgumentToken) : LexerItem ArgumentKind :=
  ⟨token.kind, token.text, token.start, token.stop, token.kind.message?⟩

/-- The lexeme as a word of a scan. -/
def ArgumentLexeme.word (l : ArgumentLexeme) : Word ArgumentKind :=
  ⟨l.kind, l.kind.message?, l.more, l.rest⟩

theorem ArgumentKind.message?_eq_none {kind : ArgumentKind} (h : ∀ fault, kind ≠ .bad fault) :
    kind.message? = none := by
  cases kind with
  | bad fault => exact absurd rfl (h fault)
  | _ => rfl

theorem ArgumentLexeme.item_token (l : ArgumentLexeme) (c : Char) (start : Nat) :
    (l.token c start).item = l.word.item c start := by
  rw [ArgumentLexeme.token, Nat.add_assoc, Nat.add_comm 1]
  rfl

namespace Lexer

section Bounds

variable {κ σ : Type} {l after : Lexer κ σ} {c : Char}

theorem of_next_some (h : l.next = (some c, after)) :
    after = { l with pos := l.pos + 1 } ∧ l.pos < l.source.size := by
  rw [next] at h
  split at h
  · rename_i d hpeek
    obtain ⟨-, rfl⟩ := Prod.mk.inj h
    exact ⟨rfl, (Array.getElem?_eq_some_iff.mp hpeek).1⟩
  · cases h

theorem of_next_none (h : l.next = (none, after)) : after = l ∧ l.source.size ≤ l.pos := by
  rw [next] at h
  split at h
  · cases h
  · rename_i hpeek
    obtain ⟨-, rfl⟩ := Prod.mk.inj h
    exact ⟨rfl, Array.getElem?_eq_none_iff.mp hpeek⟩

end Bounds

variable {σ : Type}

/-- An error item for the fault ends the scan. -/
def decline (l : Lexer ArgumentKind σ) (fault : ArgumentFault) : Lexer ArgumentKind σ × Option σ :=
  (l.error (.bad fault) fault.message, none)

/-- What is closed on its line is an argument, what is not closed an error. -/
def takeQuoted (l : Lexer ArgumentKind ArgumentState) (quote : Char) (kind : ArgumentKind)
    (fault : ArgumentFault) : Lexer ArgumentKind ArgumentState × Option ArgumentState :=
  match l.slurpQuote quote isLineFeed with
  | (true, after) => (after.emit kind, some .space)
  | (false, after) => after.decline fault

/-- Move over markup whose opening brackets are behind the cursor, to the two brackets in a row that
leave none of the brackets open that the depth counts. What is wrong with it, if anything is. -/
def slurpMarkup (kind : MarkupKind) (l : Lexer ArgumentKind σ) :
    Option ArgumentFault × Lexer ArgumentKind σ :=
  match _hnext : l.next with
  | (none, after) => (some (.openMarkup kind), after)
  | (some c, after) =>
    if c == '\\' then
      match _hescaped : after.next with
      | (none, after) => (some (.openMarkup kind), after)
      | (some d, after) =>
        if isLineFeed d then (some (.openMarkup kind), after) else slurpMarkup kind after
    else if isLineFeed c then (some (.openMarkup kind), after)
    else if c == '[' then slurpMarkup kind (after.deepen 1)
    else if c == ']' then
      let after := after.deepen (-1)
      if _hstray : after.depth < 0 then (some .strayBracket, after)
      else if after.depth = 1 then
        match _hlast : after.next with
        | (some d, last) =>
          if d == ']' then (none, last.deepen (-1)) else slurpMarkup kind (last.backup 1)
        | (none, last) => slurpMarkup kind (last.backup 1)
      else slurpMarkup kind after
    else slurpMarkup kind after
termination_by (l.length - l.pos, l.depth.toNat)
decreasing_by
  all_goals
    obtain ⟨rfl, hlt⟩ := of_next_some _hnext
    dsimp only [length] at *
  · obtain ⟨rfl, -⟩ := of_next_some _hescaped
    exact .left _ _ (by dsimp only; omega)
  · exact .left _ _ (by dsimp only [deepen]; omega)
  · obtain ⟨rfl, -⟩ := of_next_some _hlast
    exact .left _ _ (by dsimp only [backup, after, deepen]; omega)
  · -- the bracket at the end is read again, with one bracket less to close
    obtain ⟨rfl, -⟩ := of_next_none _hlast
    exact .right' _ (Nat.le_of_eq rfl) (by dsimp only [backup, after, deepen] at *; omega)
  · exact .left _ _ (by dsimp only [after, deepen]; omega)
  · exact .left _ _ (by omega)

/-- Move over the marks of image markup, if there are any. -/
def skipMarks (l : Lexer ArgumentKind σ) : MarkupKind × Lexer ArgumentKind σ :=
  match l.accept isImageMark with
  | (true, after) => (.image, after.acceptRun isImageMark)
  | (false, after) => (.link, after)

/-- Markup from its second bracket on. -/
def takeBrackets (l : Lexer ArgumentKind ArgumentState) (kind : MarkupKind) :
    Lexer ArgumentKind ArgumentState × Option ArgumentState :=
  match l.accept (· == '[') with
  | (false, after) => after.decline (.malformedMarkup kind)
  | (true, after) =>
    match slurpMarkup kind { after with depth := 2 } with
    | (none, after) => (after.emit .brackets, some .space)
    | (some fault, after) => after.decline fault

end Lexer

/-- The steps of the scan of arguments. A bareword at the end of the source is the last one. -/
def argumentGrammar : LexerGrammar ArgumentKind ArgumentState
  | .space, l =>
    match (l.acceptRun isBlank).ignore.next with
    | (none, l) => (l, none)
    | (some c, l) =>
      if c == '\x60' then (l, some .expression)
      else if c == '"' then (l, some .doubleQuote)
      else if c == '\'' then (l, some .singleQuote)
      else if c == '[' then (l, some .squareBracket)
      else (l, some .bareword)
  | .expression, l => l.takeQuoted '\x60' .expression .openBackquote
  | .doubleQuote, l => l.takeQuoted '"' .string .openDouble
  | .singleQuote, l => l.takeQuoted '\'' .string .openSingle
  | .squareBracket, l => l.skipMarks.2.takeBrackets l.skipMarks.1
  | .bareword, l =>
    let after := (l.acceptRun (!isBlank ·)).emit .bareword
    (after, if after.atEnd then none else some .space)

/-! ### Quoted arguments -/

section States

open Lexer

variable (l : Lexer ArgumentKind ArgumentState) (before current : List Char) (c : Char)
  (cs : List Char)

/-- What is queued when an argument ends is the word. -/
theorem emit_argument (kind : ArgumentKind) (more rest : List Char) (h : kind.message? = none)
    (following : Option ArgumentState) :
    (((l.reading before (c :: more) rest).emit kind, following) :
        Lexer ArgumentKind ArgumentState × Option ArgumentState) =
      (ArgumentLexeme.word ⟨kind, more, rest⟩).taken l before c following := by
  rw [Word.taken]
  simp only [ArgumentLexeme.word, h]
  rw [emit_reading]
  simp only [Word.item, wordItem]

theorem decline_argument (fault : ArgumentFault) (more rest : List Char)
    (following : Option ArgumentState) :
    (l.reading before (c :: more) rest).decline fault =
      (ArgumentLexeme.word ⟨.bad fault, more, rest⟩).taken l before c following := by
  rw [decline, error_reading]
  rfl

theorem slurpQuote_isLineFeed (quote : Char) {kind : ArgumentKind} (fault : ArgumentFault)
    (h : kind.isBad = false) :
    (l.reading before current cs).slurpQuote quote isLineFeed =
      (!(quotedLexeme quote kind fault cs).kind.isBad,
        l.reading before (current ++ (quotedLexeme quote kind fault cs).more)
          (quotedLexeme quote kind fault cs).rest) := by
  fun_induction quotedLexeme quote kind fault cs generalizing current with
  | case1 => rw [slurpQuote_reading_nil, List.append_nil]; rfl
  | case2 => rw [slurpQuote_reading_escape]; rfl
  | case3 c cs hfeed =>
      rw [slurpQuote_reading_escape]
      dsimp only
      rw [if_pos hfeed]
      rfl
  | case4 c cs hfeed ih =>
      rw [slurpQuote_reading_escape]
      dsimp only
      rw [if_neg hfeed, ih, List.append_assoc]
      rfl
  | case5 c cs hlast hescape hfeed =>
      rw [slurpQuote_reading_cons _ _ _ _ _ _ (ne_backslash hlast hescape), if_pos hfeed]
      rfl
  | case6 c cs hlast hescape hfeed hquote =>
      rw [slurpQuote_reading_cons _ _ _ _ _ _ (ne_backslash hlast hescape), if_neg hfeed,
        if_pos hquote]
      simp [h]
  | case7 c cs hlast hescape hfeed hquote ih =>
      rw [slurpQuote_reading_cons _ _ _ _ _ _ (ne_backslash hlast hescape), if_neg hfeed,
        if_neg hquote, ih, List.append_assoc]
      rfl

/-- A quoted argument is of the kind of its quote, or it is not closed. -/
theorem kind_quotedLexeme (quote : Char) (kind : ArgumentKind) (fault : ArgumentFault) :
    (quotedLexeme quote kind fault cs).kind = kind ∨
      (quotedLexeme quote kind fault cs).kind = .bad fault := by
  fun_induction quotedLexeme quote kind fault cs <;> simp_all

theorem takeQuoted_argument {quote : Char} {kind : ArgumentKind} {fault : ArgumentFault}
    (h : kind.isBad = false) :
    (l.reading before [c] cs).takeQuoted quote kind fault =
      (quotedLexeme quote kind fault cs).word.taken l before c (some .space) := by
  rw [takeQuoted, slurpQuote_isLineFeed l before [c] cs quote fault h]
  have hkind := kind_quotedLexeme cs quote kind fault
  generalize quotedLexeme quote kind fault cs = lexeme at hkind
  obtain ⟨kind', more, rest⟩ := lexeme
  rcases hkind with rfl | rfl
  · rw [h]
    exact emit_argument l before c _ more rest
      (ArgumentKind.message?_eq_none (by rintro fault rfl; cases h)) _
  · exact decline_argument l before c fault more rest _

/-! ### Markup -/

section Markup

variable (kind : MarkupKind) (ahead : List Char) {c}

theorem slurpMarkup_reading_nil :
    slurpMarkup kind (l.reading before current []) =
      (some (.openMarkup kind), l.reading before current []) := by
  rw [slurpMarkup]
  split
  · rename_i after hnext
    rw [next_reading_nil] at hnext
    cases hnext
    rfl
  · rename_i c after hnext
    rw [next_reading_nil] at hnext
    cases hnext

theorem slurpMarkup_reading_escape :
    slurpMarkup kind (l.reading before current ('\\' :: ahead)) =
      match ahead with
      | [] => (some (.openMarkup kind), l.reading before (current ++ ['\\']) [])
      | d :: ds =>
        if isLineFeed d then (some (.openMarkup kind), l.reading before (current ++ ['\\', d]) ds)
        else slurpMarkup kind (l.reading before (current ++ ['\\', d]) ds) := by
  conv => lhs; rw [slurpMarkup]
  split
  · rename_i after hnext
    rw [next_reading_cons] at hnext
    cases hnext
  · rename_i c after hnext
    rw [next_reading_cons] at hnext
    cases hnext
    rw [if_pos (beq_self_eq_true _)]
    split
    · rename_i final hescaped
      cases ahead with
      | nil =>
          rw [next_reading_nil] at hescaped
          cases hescaped
          rfl
      | cons d ds =>
          rw [next_reading_cons] at hescaped
          cases hescaped
    · rename_i d final hescaped
      cases ahead with
      | nil =>
          rw [next_reading_nil] at hescaped
          cases hescaped
      | cons e ds =>
          rw [next_reading_cons, List.append_assoc] at hescaped
          cases hescaped
          rfl

/-- A character that no backslash is in front of. The look at the character behind a bracket is
undone, at the end of the source together with the bracket. -/
theorem slurpMarkup_reading_cons (h : c ≠ '\\') :
    slurpMarkup kind (l.reading before current (c :: ahead)) =
      if isLineFeed c then (some (.openMarkup kind), l.reading before (current ++ [c]) ahead)
      else if c == '[' then slurpMarkup kind ((l.deepen 1).reading before (current ++ [c]) ahead)
      else if c == ']' then
        if l.depth - 1 < 0 then
          (some .strayBracket, (l.deepen (-1)).reading before (current ++ [c]) ahead)
        else if l.depth - 1 = 1 then
          match ahead with
          | [] => slurpMarkup kind ((l.deepen (-1)).reading before current [c])
          | d :: ds =>
            if d == ']' then
              (none, ((l.deepen (-1)).deepen (-1)).reading before (current ++ [c, d]) ds)
            else slurpMarkup kind ((l.deepen (-1)).reading before (current ++ [c]) (d :: ds))
        else slurpMarkup kind ((l.deepen (-1)).reading before (current ++ [c]) ahead)
      else slurpMarkup kind (l.reading before (current ++ [c]) ahead) := by
  conv => lhs; rw [slurpMarkup]
  split
  · rename_i after hnext
    rw [next_reading_cons] at hnext
    cases hnext
  · rename_i d after hnext
    rw [next_reading_cons] at hnext
    cases hnext
    rw [if_neg (by simpa using h)]
    by_cases hfeed : isLineFeed c = true
    · rw [if_pos hfeed, if_pos hfeed]
    rw [if_neg hfeed, if_neg hfeed]
    by_cases hopen : (c == '[') = true
    · rw [if_pos hopen, if_pos hopen]
      rfl
    rw [if_neg hopen, if_neg hopen]
    by_cases hclose : (c == ']') = true
    · rw [if_pos hclose, if_pos hclose]
      by_cases hstray : l.depth - 1 < 0
      · rw [if_pos hstray]
        exact dif_pos hstray
      rw [if_neg hstray]
      refine (dif_neg hstray).trans ?_
      by_cases hone : l.depth - 1 = 1
      · rw [if_pos hone]
        refine (if_pos hone).trans ?_
        split
        · rename_i d last hlast
          cases ahead with
          | nil => cases (next_reading_nil (l.deepen (-1)) before (current ++ [c])).symm.trans hlast
          | cons e ds =>
              cases (next_reading_cons (l.deepen (-1)) before (current ++ [c]) ds e).symm.trans hlast
              rw [backup_reading_snoc, List.append_assoc]
              rfl
        · rename_i last hlast
          cases ahead with
          | nil =>
              cases (next_reading_nil (l.deepen (-1)) before (current ++ [c])).symm.trans hlast
              rw [backup_reading_snoc]
          | cons e ds =>
              cases (next_reading_cons (l.deepen (-1)) before (current ++ [c]) ds e).symm.trans hlast
      · rw [if_neg hone]
        exact if_neg hone
    · rw [if_neg hclose, if_neg hclose]

/-- A closing bracket that leaves neither one bracket open nor less than none. -/
theorem slurpMarkup_reading_close (hstray : ¬ l.depth - 1 < 0) (hone : ¬ l.depth - 1 = 1) :
    slurpMarkup kind (l.reading before current (']' :: ahead)) =
      slurpMarkup kind ((l.deepen (-1)).reading before (current ++ [']']) ahead) := by
  rw [slurpMarkup_reading_cons l before current kind ahead (by decide), if_neg (by decide),
    if_neg (by decide), if_pos (beq_self_eq_true _), if_neg hstray, if_neg hone]

/-- A closing bracket that leaves one bracket open. -/
theorem slurpMarkup_reading_last (hone : l.depth - 1 = 1) :
    slurpMarkup kind (l.reading before current (']' :: ahead)) =
      match ahead with
      | [] => slurpMarkup kind ((l.deepen (-1)).reading before current [']'])
      | d :: ds =>
        if d == ']' then
          (none, ((l.deepen (-1)).deepen (-1)).reading before (current ++ [']', d]) ds)
        else slurpMarkup kind ((l.deepen (-1)).reading before (current ++ [']']) (d :: ds)) := by
  rw [slurpMarkup_reading_cons l before current kind ahead (by decide), if_neg (by decide),
    if_neg (by decide), if_pos (beq_self_eq_true _), if_neg (by omega), if_pos hone]

/-- What is wrong with an argument of the kind. -/
def ArgumentKind.fault? : ArgumentKind → Option ArgumentFault
  | .bad fault => some fault
  | _ => none

/-- The brackets are counted in the depth, of which nothing but the count is left behind. -/
theorem slurpMarkup_reading (depth : Nat) (hdepth : l.depth = depth) :
    ∃ after : Lexer ArgumentKind ArgumentState, after.items = l.items ∧
      slurpMarkup kind (l.reading before current cs) =
        ((bracketLexeme kind depth cs).kind.fault?,
          after.reading before (current ++ (bracketLexeme kind depth cs).more)
            (bracketLexeme kind depth cs).rest) := by
  fun_induction bracketLexeme kind depth cs generalizing l current with
  | case1 depth => exact ⟨l, rfl, by rw [slurpMarkup_reading_nil, List.append_nil]; rfl⟩
  | case2 depth => exact ⟨l, rfl, by rw [slurpMarkup_reading_escape]; rfl⟩
  | case3 depth c cs hfeed =>
      refine ⟨l, rfl, ?_⟩
      rw [slurpMarkup_reading_escape]
      dsimp only
      rw [if_pos hfeed]
      rfl
  | case4 depth c cs hfeed ih =>
      obtain ⟨after, hitems, hslurp⟩ := ih l (current ++ ['\\', c]) hdepth
      refine ⟨after, hitems, ?_⟩
      rw [slurpMarkup_reading_escape]
      dsimp only
      rw [if_neg hfeed, hslurp, List.append_assoc]
      rfl
  | case5 depth cs ih =>
      obtain ⟨after, hitems, hslurp⟩ := ih (l.deepen 1) (current ++ ['['])
        (by rw [deepen, hdepth]; rfl)
      refine ⟨after, hitems, ?_⟩
      rw [slurpMarkup_reading_cons _ _ _ _ _ (by decide), if_neg (by decide),
        if_pos (beq_self_eq_true _), hslurp, List.append_assoc]
      rfl
  | case6 cs =>
      refine ⟨l.deepen (-1), rfl, ?_⟩
      rw [slurpMarkup_reading_cons _ _ _ _ _ (by decide), if_neg (by decide), if_neg (by decide),
        if_pos (beq_self_eq_true _), if_pos (by omega)]
      rfl
  | case7 cs =>
      refine ⟨(l.deepen (-1)).deepen (-1), rfl, ?_⟩
      rw [slurpMarkup_reading_last _ _ _ _ _ (by omega)]
      dsimp only
      rw [if_pos (beq_self_eq_true _)]
      rfl
  | case8 depth cs hlast ih =>
      have hless : (l.deepen (-1)).depth = depth := by
        rw [deepen, hdepth]
        dsimp only
        omega
      obtain ⟨after, hitems, hslurp⟩ := ih (l.deepen (-1)) (current ++ [']']) hless
      by_cases hone : l.depth - 1 = 1
      · obtain rfl : depth = 1 := by omega
        rw [slurpMarkup_reading_last _ _ _ _ _ hone]
        cases cs with
        | nil =>
            -- the bracket is read once more, and there are none behind it
            refine ⟨(l.deepen (-1)).deepen (-1), rfl, ?_⟩
            dsimp only
            rw [slurpMarkup_reading_close _ _ _ _ _ (by omega) (by omega), slurpMarkup_reading_nil]
            rfl
        | cons d ds =>
            have hd : ¬ (d == ']') = true := fun hd => hlast ds rfl (by rw [beq_iff_eq.mp hd])
            refine ⟨after, hitems, ?_⟩
            dsimp only
            rw [if_neg hd, hslurp, List.append_assoc]
            rfl
      · refine ⟨after, hitems, ?_⟩
        rw [slurpMarkup_reading_close _ _ _ _ _ (by omega) hone, hslurp, List.append_assoc]
        rfl
  | case9 depth c cs hlast hescape _ _ _ _ hfeed =>
      refine ⟨l, rfl, ?_⟩
      rw [slurpMarkup_reading_cons _ _ _ _ _ (ne_backslash hlast hescape), if_pos hfeed]
      rfl
  | case10 depth c cs hlast hescape hopen hstray _ hclosing hfeed ih =>
      have hclose : c ≠ ']' := by
        cases depth with
        | zero => exact fun hc => hstray rfl hc
        | succ depth => exact fun hc => hclosing depth rfl hc
      obtain ⟨after, hitems, hslurp⟩ := ih l (current ++ [c]) hdepth
      refine ⟨after, hitems, ?_⟩
      rw [slurpMarkup_reading_cons _ _ _ _ _ (ne_backslash hlast hescape), if_neg hfeed,
        if_neg (by simpa using hopen), if_neg (by simpa using hclose), hslurp, List.append_assoc]
      rfl

/-- Markup is in brackets, or something is wrong with it. -/
theorem kind_bracketLexeme (depth : Nat) :
    (bracketLexeme kind depth cs).kind = .brackets ∨
      ∃ fault, (bracketLexeme kind depth cs).kind = .bad fault := by
  fun_induction bracketLexeme kind depth cs <;> simp_all

theorem skipMarks_reading :
    (l.reading before current cs).skipMarks =
      (if (cs.takeWhile isImageMark).isEmpty then .link else .image,
        l.reading before (current ++ cs.takeWhile isImageMark) (cs.dropWhile isImageMark)) := by
  rw [skipMarks]
  cases cs with
  | nil => rw [accept_reading_nil, List.takeWhile_nil, List.append_nil]; rfl
  | cons d ds =>
      rw [accept_reading_cons]
      by_cases hmark : isImageMark d = true
      · rw [if_pos hmark, List.takeWhile_cons_of_pos hmark, List.dropWhile_cons_of_pos hmark]
        dsimp only
        rw [acceptRun_reading, List.append_assoc]
        rfl
      · rw [if_neg hmark, List.takeWhile_cons_of_neg hmark, List.dropWhile_cons_of_neg hmark,
          List.append_nil]
        rfl

theorem takeBrackets_argument (c : Char) (marks : List Char) :
    ∃ after : Lexer ArgumentKind ArgumentState, after.items = l.items ∧
      (l.reading before (c :: marks) ('[' :: cs)).takeBrackets kind =
        (ArgumentLexeme.word { bracketLexeme kind 2 cs with
          more := marks ++ '[' :: (bracketLexeme kind 2 cs).more }).taken after before c
            (some .space) := by
  obtain ⟨after, hitems, hslurp⟩ := slurpMarkup_reading { l with depth := 2 } before
    (c :: marks ++ ['[']) cs kind 2 rfl
  have hdepth : slurpMarkup kind { l.reading before (c :: marks ++ ['[']) cs with depth := 2 } =
      slurpMarkup kind (Lexer.reading { l with depth := 2 } before (c :: marks ++ ['[']) cs) := rfl
  refine ⟨after, hitems, ?_⟩
  rw [takeBrackets, accept_reading_cons, if_pos (beq_self_eq_true _)]
  dsimp only
  rw [hdepth, hslurp, List.append_assoc, List.singleton_append, List.cons_append]
  rcases kind_bracketLexeme cs kind 2 with hkind | ⟨fault, hkind⟩
  · rw [hkind]
    exact emit_argument after before c .brackets _ _ rfl _
  · rw [hkind]
    exact decline_argument after before c fault _ _ _

theorem takeBrackets_malformed (h : ∀ inner, cs ≠ '[' :: inner) :
    (l.reading before current cs).takeBrackets kind =
      (l.reading before current cs).decline (.malformedMarkup kind) := by
  rw [takeBrackets]
  cases cs with
  | nil => rw [accept_reading_nil]
  | cons d ds =>
      rw [accept_reading_cons, if_neg fun hd => h ds (by rw [beq_iff_eq.mp hd])]

theorem squareBracket_argument (c : Char) :
    ∃ after : Lexer ArgumentKind ArgumentState, after.items = l.items ∧
      argumentGrammar .squareBracket (l.reading before [c] cs) =
        (markupLexeme cs).word.taken after before c (some .space) := by
  rw [argumentGrammar, skipMarks_reading, markupLexeme]
  dsimp only
  generalize (if (cs.takeWhile isImageMark).isEmpty then MarkupKind.link else MarkupKind.image) =
    kind
  split
  · rename_i inner hrest
    rw [hrest]
    exact takeBrackets_argument l before inner _ c _
  · rename_i hnone
    rw [takeBrackets_malformed _ _ _ _ _ hnone]
    exact ⟨l, rfl, decline_argument l before c _ _ _ _⟩

end Markup

/-- A bareword that reaches the end of the source ends the scan. -/
theorem bareword_argument :
    ∃ following, (ArgumentLexeme.word
        ⟨.bareword, cs.takeWhile (!isBlank ·), cs.dropWhile (!isBlank ·)⟩).Precedes .space following ∧
      argumentGrammar .bareword (l.reading before [c] cs) =
        (ArgumentLexeme.word ⟨.bareword, cs.takeWhile (!isBlank ·),
          cs.dropWhile (!isBlank ·)⟩).taken l before c following := by
  have hemit := emit_argument l before c .bareword (cs.takeWhile (!isBlank ·))
    (cs.dropWhile (!isBlank ·)) rfl
  refine ⟨if (cs.dropWhile (!isBlank ·)).isEmpty then none else some .space, ?_, ?_⟩
  · split
    · rename_i hend
      exact .inr ⟨rfl, List.isEmpty_iff.mp hend⟩
    · exact .inl rfl
  · rw [← hemit, argumentGrammar, acceptRun_reading, List.singleton_append]
    rw [emit_reading, atEnd_reading]

end States

/-- The grammar takes arguments. -/
theorem argumentGrammar_scansWords :
    ScansWords argumentGrammar .space fun c cs => (argumentLexeme c cs).word where
  append := argumentLexeme_append
  done := by
    intro l before gap hgap
    rw [argumentGrammar, Lexer.next_blanks l before hgap]
  taken := by
    intro l before gap c cs hgap hc
    refine .inr ?_
    rw [argumentGrammar, Lexer.next_word l before hgap hc cs, argumentLexeme]
    dsimp only
    generalize before ++ gap = before
    by_cases hback : (c == '\x60') = true
    · rw [if_pos hback, if_pos hback, beq_iff_eq.mp hback]
      exact ⟨.expression, rfl, fun l => ⟨l, _, rfl, .inl rfl, takeQuoted_argument l before _ cs rfl⟩⟩
    rw [if_neg hback, if_neg hback]
    by_cases hdouble : (c == '"') = true
    · rw [if_pos hdouble, if_pos hdouble, beq_iff_eq.mp hdouble]
      exact ⟨.doubleQuote, rfl,
        fun l => ⟨l, _, rfl, .inl rfl, takeQuoted_argument l before _ cs rfl⟩⟩
    rw [if_neg hdouble, if_neg hdouble]
    by_cases hsingle : (c == '\'') = true
    · rw [if_pos hsingle, if_pos hsingle, beq_iff_eq.mp hsingle]
      exact ⟨.singleQuote, rfl,
        fun l => ⟨l, _, rfl, .inl rfl, takeQuoted_argument l before _ cs rfl⟩⟩
    rw [if_neg hsingle, if_neg hsingle]
    by_cases hbracket : (c == '[') = true
    · rw [if_pos hbracket, if_pos hbracket]
      refine ⟨.squareBracket, rfl, fun l => ?_⟩
      obtain ⟨after, hitems, hafter⟩ := squareBracket_argument l before cs c
      exact ⟨after, _, hitems, .inl rfl, hafter⟩
    · rw [if_neg hbracket, if_neg hbracket]
      refine ⟨.bareword, rfl, fun l => ?_⟩
      obtain ⟨following, hprecedes, hfollowing⟩ := bareword_argument l before c cs
      exact ⟨l, following, rfl, hprecedes, hfollowing⟩

/-- The arguments that are scanned at once are the items of the scan. -/
theorem scanned_scanArguments (position : Nat) (cs : List Char) :
    Scanned (fun c cs => (argumentLexeme c cs).word) position cs
      ((scanArguments position cs).map ArgumentToken.item) := by
  fun_induction scanArguments position cs with
  | case1 position cs hcs =>
      exact .done (List.dropWhile_eq_nil_iff.mp hcs)
  | case2 position cs c rest hcs start next stop token fault hkind =>
      have htoken : token.item = next.word.item c start := ArgumentLexeme.item_token next c start
      rw [List.map_singleton, htoken]
      exact .of_error hcs (congrArg ArgumentKind.message? hkind)
  | case3 position cs c rest hcs start next stop token hkind ih =>
      have htoken : token.item = next.word.item c start := ArgumentLexeme.item_token next c start
      rw [List.map_cons, htoken]
      refine .of_item hcs (ArgumentKind.message?_eq_none hkind) ?_
      rw [List.length_cons, Nat.add_comm _ 1, ← Nat.add_assoc]
      exact ih

end StoryEngine
