import StoryEngine.Proofs.Passage.Cut
/-!
# StoryEngine.Proofs.Passage.Grammar

The grammar of passage source, as parsing expressions. A parsing expression reads characters from
the front or fails, and nothing in it is undone: of two alternatives the second counts only where
the first fails, and a repetition goes on for as long as it can. So a piece of arguments that is
taken is never given back, even where the tag would come to its end without it.

`Peg.Reads` says what each expression reads and `Grammar` writes out the rules of a passage. The
scans of `StoryEngine.Passage.Segment` read what the rules read: each theorem of the last part is
about one rule and one scan.
-/

namespace StoryEngine

/-- A parsing expression. -/
inductive Peg where
  /-- One character of a class. -/
  | char (ok : Char → Bool)
  /-- The characters as they are. -/
  | lit (cs : List Char)
  /-- The end of the source. -/
  | ends
  | seq (first second : Peg)
  | alt (first second : Peg)
  /-- As many times as it reads, none included. -/
  | star (each : Peg)
  /-- Nothing, where the expression fails. -/
  | neg (refused : Peg)

/-- What an expression reads: the characters and those behind them, or nothing if it fails. -/
abbrev Peg.Reading := Option (List Char × List Char)

/-- The reading that begins earlier, with the characters in front. -/
def Peg.Reading.behind (front : List Char) (reading : Peg.Reading) : Peg.Reading :=
  reading.map fun (cs, rest) => (front ++ cs, rest)

@[simp] theorem Peg.Reading.behind_none (front : List Char) :
    Peg.Reading.behind front none = none := rfl

@[simp] theorem Peg.Reading.behind_some (front : List Char) (found : List Char × List Char) :
    Peg.Reading.behind front (some found) = some (front ++ found.1, found.2) := rfl

/-- The expression, at the front of the characters, has the reading. -/
inductive Peg.Reads : Peg → List Char → Peg.Reading → Prop where
  | char {ok : Char → Bool} {c : Char} {cs : List Char} (h : ok c = true) :
    Reads (.char ok) (c :: cs) (some ([c], cs))
  | charFails {ok : Char → Bool} {c : Char} {cs : List Char} (h : ¬ ok c = true) :
    Reads (.char ok) (c :: cs) none
  | charAtEnd {ok : Char → Bool} : Reads (.char ok) [] none
  | lit {cs rest : List Char} : Reads (.lit cs) (cs ++ rest) (some (cs, rest))
  | litFails {cs source : List Char} (h : ¬ cs <+: source) : Reads (.lit cs) source none
  | ends : Reads .ends [] (some ([], []))
  | endsFails {c : Char} {cs : List Char} : Reads .ends (c :: cs) none
  | seq {first second : Peg} {source front mid : List Char} {reading : Peg.Reading} :
    Reads first source (some (front, mid)) → Reads second mid reading →
      Reads (.seq first second) source (reading.behind front)
  | seqFails {first second : Peg} {source : List Char} :
    Reads first source none → Reads (.seq first second) source none
  | altFirst {first second : Peg} {source front rest : List Char} :
    Reads first source (some (front, rest)) → Reads (.alt first second) source (some (front, rest))
  | altSecond {first second : Peg} {source : List Char} {reading : Peg.Reading} :
    Reads first source none → Reads second source reading →
      Reads (.alt first second) source reading
  | starMore {each : Peg} {source front mid : List Char} {reading : Peg.Reading} :
    Reads each source (some (front, mid)) → Reads (.star each) mid reading →
      Reads (.star each) source (reading.behind front)
  | starStops {each : Peg} {source : List Char} :
    Reads each source none → Reads (.star each) source (some ([], source))
  | neg {refused : Peg} {source : List Char} :
    Reads refused source none → Reads (.neg refused) source (some ([], source))
  | negFails {refused : Peg} {source front rest : List Char} :
    Reads refused source (some (front, rest)) → Reads (.neg refused) source none

namespace Peg

variable {first second each refused : Peg} {source front rest : List Char} {reading : Reading}

/-! ### Parsing expressions in general -/

/-- What is read is the front of the source. -/
theorem Reads.append {p : Peg} (h : p.Reads source reading) :
    ∀ front rest, reading = some (front, rest) → front ++ rest = source := by
  induction h with
  | char | lit | ends | starStops | neg => rintro _ _ ⟨⟩; simp
  | charFails | charAtEnd | litFails | endsFails | seqFails | negFails => rintro _ _ ⟨⟩
  | altFirst _ ih => exact ih
  | altSecond _ _ _ ih => exact ih
  | seq _ _ ih₁ ih₂ | starMore _ _ ih₁ ih₂ =>
    intro front rest h
    obtain ⟨⟨cs, behind⟩, hreading, heq⟩ := Option.map_eq_some_iff.1 h
    obtain ⟨rfl, rfl⟩ := Prod.mk.inj heq
    rw [List.append_assoc, ih₂ _ _ hreading, ih₁ _ _ rfl]

/-- An expression has one reading. -/
theorem Reads.unique {p : Peg} {reading' : Reading} (h : p.Reads source reading)
    (h' : p.Reads source reading') : reading = reading' := by
  induction h generalizing reading' with
  | char hok =>
    cases h' with
    | char => rfl
    | charFails hnot => exact absurd hok hnot
  | charFails hnot =>
    cases h' with
    | char hok => exact absurd hok hnot
    | charFails => rfl
  | charAtEnd => cases h'; rfl
  | @lit cs rest =>
    generalize hsource : cs ++ rest = source at h'
    cases h' with
    | lit => rw [List.append_cancel_left hsource]
    | litFails hnot => exact absurd ⟨rest, hsource⟩ hnot
  | litFails hnot =>
    cases h' with
    | @lit _ rest => exact absurd ⟨rest, rfl⟩ hnot
    | litFails => rfl
  | ends => cases h'; rfl
  | endsFails => cases h'; rfl
  | seq _ _ ih₁ ih₂ =>
    cases h' with
    | seq h₁ h₂ =>
      obtain ⟨rfl, rfl⟩ := Prod.mk.inj (Option.some.inj (ih₁ h₁))
      rw [ih₂ h₂]
    | seqFails h₁ => cases ih₁ h₁
  | seqFails _ ih =>
    cases h' with
    | seq h₁ => cases ih h₁
    | seqFails => rfl
  | altFirst _ ih =>
    cases h' with
    | altFirst h₁ => exact ih h₁
    | altSecond h₁ => cases ih h₁
  | altSecond _ _ ih₁ ih₂ =>
    cases h' with
    | altFirst h₁ => cases ih₁ h₁
    | altSecond _ h₂ => exact ih₂ h₂
  | starMore _ _ ih₁ ih₂ =>
    cases h' with
    | starMore h₁ h₂ =>
      obtain ⟨rfl, rfl⟩ := Prod.mk.inj (Option.some.inj (ih₁ h₁))
      rw [ih₂ h₂]
    | starStops h₁ => cases ih₁ h₁
  | starStops _ ih =>
    cases h' with
    | starMore h₁ => cases ih h₁
    | starStops => rfl
  | neg _ ih =>
    cases h' with
    | neg => rfl
    | negFails h₁ => cases ih h₁
  | negFails _ ih =>
    cases h' with
    | neg h₁ => cases ih h₁
    | negFails => rfl

theorem Reads.as {p : Peg} {reading' : Reading} (h : p.Reads source reading)
    (heq : reading = reading') : p.Reads source reading' := heq ▸ h

@[simp] theorem Reading.behind_nil (reading : Reading) : reading.behind [] = reading := by
  cases reading <;> rfl

@[simp] theorem Reading.behind_behind (front front' : List Char) (reading : Reading) :
    (reading.behind front').behind front = reading.behind (front ++ front') := by
  cases reading <;> simp

/-- A repetition and what follows it, where the repetition goes on. -/
theorem Reads.star_seq_more {mid : List Char} (hfirst : each.Reads source (some (front, mid)))
    (hrest : (Peg.seq (.star each) second).Reads mid reading) :
    (Peg.seq (.star each) second).Reads source (reading.behind front) := by
  cases hrest with
  | seq hstar hsecond => exact (Reads.seq (.starMore hfirst hstar) hsecond).as (by simp)
  | seqFails hstar => exact .seqFails (.starMore hfirst hstar)

/-- A repetition and what follows it, where the repetition stops. -/
theorem Reads.star_seq_stops (hfirst : each.Reads source none)
    (hsecond : second.Reads source reading) :
    (Peg.seq (.star each) second).Reads source reading :=
  (Reads.seq (.starStops hfirst) hsecond).as (by simp)

/-- Nothing, and then what follows. -/
theorem Reads.neg_seq (hrefused : refused.Reads source none)
    (hsecond : second.Reads source reading) :
    (Peg.seq (.neg refused) second).Reads source reading :=
  (Reads.seq (.neg hrefused) hsecond).as (by simp)

theorem Reads.neg_seq_fails (hrefused : refused.Reads source (some (front, rest))) :
    (Peg.seq (.neg refused) second).Reads source none :=
  .seqFails (.negFails hrefused)

/-- The second alternative makes no difference where it fails. -/
theorem Reads.alt_of_fails (hfirst : first.Reads source reading)
    (hsecond : second.Reads source none) :
    (Peg.alt first second).Reads source reading := by
  cases reading with
  | none => exact .altSecond hfirst hsecond
  | some found => exact .altFirst hfirst

/-- Any character. -/
def any : Peg := char fun _ => true

theorem reads_any (c : Char) (cs : List Char) : any.Reads (c :: cs) (some ([c], cs)) := .char rfl

theorem reads_any_nil : any.Reads [] none := .charAtEnd

/-- The expression or nothing. -/
def opt (p : Peg) : Peg := alt p (lit [])

theorem Reads.lit_of_eq {cs : List Char} (h : source = cs ++ rest) :
    (Peg.lit cs).Reads source (some (cs, rest)) := h ▸ .lit

theorem Reads.literal (cs rest : List Char) : (Peg.lit cs).Reads (cs ++ rest) (some (cs, rest)) :=
  .lit

/-- A single character is read where the source begins with it. -/
theorem reads_lit_singleton (c d : Char) (cs : List Char) :
    (Peg.lit [c]).Reads (d :: cs) (if d == c then some ([c], cs) else none) := by
  split
  · rename_i hd
    obtain rfl := eq_of_beq hd
    exact .lit
  · rename_i hd
    refine .litFails fun ⟨_, h⟩ => hd ?_
    simp only [List.singleton_append, List.cons.injEq] at h
    simp [h.1]

theorem reads_lit_nil {c : Char} {cs : List Char} : (Peg.lit (c :: cs)).Reads [] none :=
  .litFails (by simp)

/-- A class of characters, repeated. -/
theorem reads_star_char (ok : Char → Bool) (cs : List Char) :
    (star (char ok)).Reads cs (some (cs.takeWhile ok, cs.dropWhile ok)) := by
  induction cs with
  | nil => exact .starStops .charAtEnd
  | cons c cs ih =>
    by_cases hc : ok c = true
    · simpa [hc] using Reads.starMore (.char hc) ih
    · simpa [hc] using Reads.starStops (Reads.charFails hc)

end Peg

/-! ### The rules of a passage -/

namespace Grammar

open Peg

def newline : Peg := alt (lit ['\n']) (alt (lit ['\r', '\n']) (lit ['\r']))

/-- A backslash and any character, or one character that `closer` does not refuse. -/
def inQuotes (closer : Peg) : Peg :=
  alt (seq (lit ['\\']) any) (seq (neg closer) any)

def doubleQuoted : Peg :=
  seq (lit ['"']) (seq (star (inQuotes (alt (lit ['"']) newline))) (lit ['"']))

def singleQuoted : Peg :=
  seq (lit ['\'']) (seq (star (inQuotes (alt (lit ['\'']) newline))) (lit ['\'']))

def backquoted : Peg :=
  seq (lit ['\x60']) (seq (star (inQuotes (lit ['\x60']))) (lit ['\x60']))

def blockComment : Peg :=
  seq (lit ['/', '*']) (seq (star (seq (neg (lit ['*', '/'])) any)) (lit ['*', '/']))

def linkMarkup : Peg :=
  seq (lit ['[', '[']) (seq (star (seq (neg (lit [']', ']'])) any)) (lit [']', ']']))

/-- A piece of arguments that may contain `>>`. -/
def closedPiece : Peg :=
  alt doubleQuoted (alt singleQuoted (alt backquoted (alt blockComment linkMarkup)))

def argPiece : Peg := alt closedPiece (seq (neg (lit ['>', '>'])) any)

def tagArgs : Peg := star argPiece

def tagName : Peg :=
  alt (seq (opt (lit ['/'])) (seq (char Char.isAlpha) (star (char isTagNameChar))))
    (alt (lit ['=']) (lit ['-']))

def macroTag : Peg :=
  seq (lit ['<', '<']) (seq tagName (seq tagArgs (lit ['>', '>'])))

/-- A character where no `<<` begins. -/
def textChar : Peg := seq (neg (lit ['<', '<'])) any

/-- As many such characters as there are, or a `<<`. -/
def text : Peg := alt (seq textChar (star textChar)) (lit ['<', '<'])

def node : Peg := alt macroTag text

def passage : Peg := seq (star node) ends

/-! ### The scans read what the rules read -/

/-- The expression reads something exactly where the source begins with a character of the
class. -/
structure Begins (p : Peg) (ok : Char → Bool) : Prop where
  nil : p.Reads [] none
  reads : ∀ {c}, ok c = true → ∀ cs, ∃ front rest, p.Reads (c :: cs) (some (front, rest))
  fails : ∀ {c}, ¬ ok c = true → ∀ cs, p.Reads (c :: cs) none

theorem begins_lit (quote : Char) : Begins (lit [quote]) (· == quote) where
  nil := reads_lit_nil
  reads := by
    intro c hc cs
    have := reads_lit_singleton quote c cs
    rw [if_pos hc] at this
    exact ⟨_, _, this⟩
  fails := by
    intro c hc cs
    have := reads_lit_singleton quote c cs
    rwa [if_neg hc] at this

theorem begins_newline : Begins newline isLineEnd where
  nil := .altSecond reads_lit_nil (.altSecond reads_lit_nil reads_lit_nil)
  reads := by
    intro c hc cs
    simp only [isLineEnd, Bool.or_eq_true, beq_iff_eq] at hc
    obtain rfl | rfl := hc
    · exact ⟨_, _, .altFirst .lit⟩
    · -- the line end is one character long or two
      by_cases htwo : ['\r', '\n'] <+: '\r' :: cs
      · obtain ⟨rest, hrest⟩ := htwo
        have hread : (lit ['\r', '\n']).Reads ('\r' :: cs) (some (['\r', '\n'], rest)) :=
          .lit_of_eq hrest.symm
        exact ⟨_, _, .altSecond (reads_lit_singleton _ _ _) (.altFirst hread)⟩
      · exact ⟨_, _, .altSecond (reads_lit_singleton _ _ _) (.altSecond (.litFails htwo) .lit)⟩
  fails := by
    intro c hc cs
    simp only [isLineEnd, Bool.or_eq_true, beq_iff_eq, not_or] at hc
    refine .altSecond (.litFails ?_) (.altSecond (.litFails ?_) (.litFails ?_))
    all_goals
      simp only [List.cons_prefix_cons, not_and]
      intro h
      simp [← h] at hc

theorem begins_alt {p q : Peg} {ok ok' : Char → Bool} (hp : Begins p ok) (hq : Begins q ok') :
    Begins (alt p q) fun c => ok c || ok' c where
  nil := .altSecond hp.nil hq.nil
  reads := by
    intro c hc cs
    by_cases hok : ok c = true
    · obtain ⟨front, rest, h⟩ := hp.reads hok cs
      exact ⟨front, rest, .altFirst h⟩
    · obtain ⟨front, rest, h⟩ := hq.reads (by simpa [hok] using hc) cs
      exact ⟨front, rest, .altSecond (hp.fails hok cs) h⟩
  fails := by
    intro c hc cs
    simp only [Bool.or_eq_true, not_or] at hc
    exact .altSecond (hp.fails hc.1 cs) (hq.fails hc.2 cs)

section Quoted

variable {closer : Peg} {stop : Char → Bool}

theorem reads_inQuotes_escaped (c : Char) (cs : List Char) :
    (inQuotes closer).Reads ('\\' :: c :: cs) (some (['\\', c], cs)) :=
  .altFirst (.seq (.literal ['\\'] (c :: cs)) (reads_any c cs))

theorem reads_inQuotes_lone (hcloser : Begins closer stop) (hstop : ¬ stop '\\' = true) :
    (inQuotes closer).Reads ['\\'] (some (['\\'], [])) :=
  .altSecond (.seq (.literal ['\\'] []) reads_any_nil)
    (.neg_seq (hcloser.fails hstop []) (reads_any _ _))

theorem not_prefix_backslash {c : Char} (hc : c ≠ '\\') (cs : List Char) : ¬ ['\\'] <+: c :: cs := by
  simpa using hc.symm

theorem reads_inQuotes_bare (hcloser : Begins closer stop) {c : Char} (hc : c ≠ '\\')
    (hstop : ¬ stop c = true) (cs : List Char) :
    (inQuotes closer).Reads (c :: cs) (some ([c], cs)) :=
  .altSecond (.seqFails (.litFails (not_prefix_backslash hc cs)))
    (.neg_seq (hcloser.fails hstop cs) (reads_any c cs))

theorem reads_inQuotes_stop (hcloser : Begins closer stop) {c : Char} (hc : c ≠ '\\')
    (hstop : stop c = true) (cs : List Char) : (inQuotes closer).Reads (c :: cs) none := by
  obtain ⟨front, rest, h⟩ := hcloser.reads hstop cs
  exact .altSecond (.seqFails (.litFails (not_prefix_backslash hc cs))) (.neg_seq_fails h)

theorem reads_inQuotes_nil (hcloser : Begins closer stop) : (inQuotes closer).Reads [] none :=
  .altSecond (.seqFails reads_lit_nil) (by
    simpa using Reads.neg_seq hcloser.nil reads_any_nil)

/-- What stands behind an opening quote, up to the closing one. -/
theorem reads_quoted {quote : Char} {bare : Char → Bool} (hquote : quote ≠ '\\')
    (hbare : bare '\\' = false) (hcloser : Begins closer fun c => c == quote || bare c)
    (cs : List Char) :
    (seq (star (inQuotes closer)) (lit [quote])).Reads cs (spanQuoted? quote bare noChar cs) := by
  fun_induction spanQuoted? quote bare noChar cs with
  | case1 => exact .star_seq_stops (reads_inQuotes_nil hcloser) reads_lit_nil
  | case2 =>
    have hlone := reads_inQuotes_lone hcloser (by simp [hbare, hquote.symm])
    exact .star_seq_more hlone (.star_seq_stops (reads_inQuotes_nil hcloser) reads_lit_nil)
  | case3 c cs he => cases he
  | case4 c cs _ ih => exact .star_seq_more (reads_inQuotes_escaped c cs) ih
  | case5 c cs h1 h2 hq =>
    obtain rfl := eq_of_beq hq
    exact .star_seq_stops (reads_inQuotes_stop hcloser hquote (by simp) cs) .lit
  | case6 c cs h1 h2 hq hb =>
    have hc : c ≠ '\\' := by
      rintro rfl
      simp [hbare] at hb
    have hlit := reads_lit_singleton quote c cs
    rw [if_neg hq] at hlit
    exact .star_seq_stops (reads_inQuotes_stop hcloser hc (by simp [hb]) cs) hlit
  | case7 c cs h1 h2 hq hb ih =>
    have hc : c ≠ '\\' := by
      rintro rfl
      cases cs with
      | nil => exact h1 rfl rfl
      | cons d ds => exact h2 d ds rfl rfl
    exact .star_seq_more (reads_inQuotes_bare hcloser hc (by simp [hq, hb]) cs) ih

end Quoted

/-- What stands behind an opening pair, up to the closing one. -/
theorem reads_untilPair (x y : Char) (cs : List Char) :
    (seq (star (seq (neg (lit [x, y])) any)) (lit [x, y])).Reads cs (spanUntilPair? x y cs) := by
  fun_induction spanUntilPair? x y cs with
  | case1 =>
    exact .star_seq_stops (.neg_seq reads_lit_nil reads_any_nil) reads_lit_nil
  | case2 c =>
    have hpair : (lit [x, y]).Reads [c] none := .litFails (by simp)
    exact .star_seq_more (.neg_seq hpair (reads_any c []))
      (.star_seq_stops (.neg_seq reads_lit_nil reads_any_nil) reads_lit_nil)
  | case3 a b cs hab =>
    obtain ⟨rfl, rfl⟩ : a = x ∧ b = y := by simpa using hab
    exact .star_seq_stops (.neg_seq_fails (.literal [a, b] cs)) .lit
  | case4 a b cs hab ih =>
    have hpair : (lit [x, y]).Reads (a :: b :: cs) none := by
      refine .litFails fun h => hab ?_
      simp only [List.cons_prefix_cons] at h
      simp [h]
    exact .star_seq_more (.neg_seq hpair (reads_any a (b :: cs))) ih

/-! ### Pieces of arguments -/

/-- A rule that begins with another character fails. -/
theorem lit_seq_fails {p : Peg} {opening : Char} {more : List Char} {c : Char} (h : c ≠ opening)
    (cs : List Char) : (seq (lit (opening :: more)) p).Reads (c :: cs) none := by
  refine .seqFails (.litFails fun hprefix => h ?_)
  exact (List.cons_prefix_cons.1 hprefix).1.symm

theorem reads_doubleQuoted (cs : List Char) :
    doubleQuoted.Reads ('"' :: cs) (Reading.behind ['"'] (spanPiece? '"' cs)) :=
  .seq (.literal ['"'] _) (reads_quoted (by decide) (by decide)
    (begins_alt (begins_lit '"') begins_newline) cs)

theorem reads_singleQuoted (cs : List Char) :
    singleQuoted.Reads ('\'' :: cs) (Reading.behind ['\''] (spanPiece? '\'' cs)) :=
  .seq (.literal ['\''] _) (reads_quoted (by decide) (by decide)
    (begins_alt (begins_lit '\'') begins_newline) cs)

theorem reads_backquoted (cs : List Char) :
    backquoted.Reads ('\x60' :: cs) (Reading.behind ['\x60'] (spanPiece? '\x60' cs)) := by
  have hcloser : Begins (lit ['\x60']) fun c => c == '\x60' || noChar c := by
    simpa [noChar] using begins_lit '\x60'
  exact .seq (.literal ['\x60'] _) (reads_quoted (by decide) (by decide) hcloser cs)

theorem reads_blockComment (cs : List Char) :
    blockComment.Reads ('/' :: '*' :: cs) (Reading.behind ['/'] (spanPiece? '/' ('*' :: cs))) := by
  refine (Reads.seq (.literal ['/', '*'] _) (reads_untilPair '*' '/' cs)).as ?_
  cases hspan : spanUntilPair? '*' '/' cs <;> simp [spanPiece?, hspan]

theorem reads_linkMarkup (cs : List Char) :
    linkMarkup.Reads ('[' :: '[' :: cs) (Reading.behind ['['] (spanPiece? '[' ('[' :: cs))) := by
  refine (Reads.seq (.literal ['[', '['] _) (reads_untilPair ']' ']' cs)).as ?_
  cases hspan : spanUntilPair? ']' ']' cs <;> simp [spanPiece?, hspan]

theorem pair_fails {p : Peg} {a b c : Char} {cs : List Char}
    (h : ∀ rest, c = a → cs = b :: rest → False) : (seq (lit [a, b]) p).Reads (c :: cs) none := by
  refine .seqFails (.litFails fun ⟨rest, hrest⟩ => ?_)
  obtain ⟨rfl, rfl⟩ := List.cons.inj hrest
  exact h rest rfl rfl

/-- Every piece that may contain `>>` has an opening of its own. -/
theorem reads_closedPiece (c : Char) (cs : List Char) :
    closedPiece.Reads (c :: cs) (Reading.behind [c] (spanPiece? c cs)) := by
  by_cases hdouble : c = '"'
  · subst hdouble
    refine .alt_of_fails (reads_doubleQuoted cs) ?_
    repeat' apply Reads.altSecond
    all_goals exact lit_seq_fails (by decide) cs
  refine .altSecond (lit_seq_fails hdouble cs) ?_
  by_cases hsingle : c = '\''
  · subst hsingle
    refine .alt_of_fails (reads_singleQuoted cs) ?_
    repeat' apply Reads.altSecond
    all_goals exact lit_seq_fails (by decide) cs
  refine .altSecond (lit_seq_fails hsingle cs) ?_
  by_cases hback : c = '\x60'
  · subst hback
    refine .alt_of_fails (reads_backquoted cs) ?_
    repeat' apply Reads.altSecond
    all_goals exact lit_seq_fails (by decide) cs
  refine .altSecond (lit_seq_fails hback cs) ?_
  by_cases hcomment : ∃ rest, c = '/' ∧ cs = '*' :: rest
  · obtain ⟨rest, rfl, rfl⟩ := hcomment
    exact .alt_of_fails (reads_blockComment rest) (lit_seq_fails (by decide) _)
  refine .altSecond (pair_fails fun rest hc hcs => hcomment ⟨rest, hc, hcs⟩) ?_
  by_cases hlink : ∃ rest, c = '[' ∧ cs = '[' :: rest
  · obtain ⟨rest, rfl, rfl⟩ := hlink
    exact reads_linkMarkup rest
  have hnone : spanPiece? c cs = none := by
    cases cs with
    | nil => simp [spanPiece?, hdouble, hsingle, hback]
    | cons d ds =>
      have hc : ¬ (c = '/' ∧ d = '*') := fun h => hcomment ⟨ds, h.1, by rw [h.2]⟩
      have hl : ¬ (c = '[' ∧ d = '[') := fun h => hlink ⟨ds, h.1, by rw [h.2]⟩
      simp [spanPiece?, hdouble, hsingle, hback, hc, hl]
  rw [hnone]
  exact pair_fails fun rest hc hcs => hlink ⟨rest, hc, hcs⟩

theorem reads_closedPiece_nil : closedPiece.Reads [] none := by
  repeat' apply Reads.altSecond
  all_goals exact .seqFails reads_lit_nil

/-! ### Tags -/

theorem reads_argPiece_nil : argPiece.Reads [] none :=
  .altSecond reads_closedPiece_nil (.neg_seq reads_lit_nil reads_any_nil)

theorem reads_argPiece_close (rest : List Char) : argPiece.Reads ('>' :: '>' :: rest) none := by
  have hpiece := reads_closedPiece '>' ('>' :: rest)
  rw [spanPiece?_close] at hpiece
  exact .altSecond hpiece (.neg_seq_fails (.literal ['>', '>'] rest))

theorem reads_close_fails {c : Char} {cs : List Char}
    (hopen : ∀ rest, c = '>' → cs = '>' :: rest → False) :
    (lit ['>', '>']).Reads (c :: cs) none := by
  refine .litFails fun hclose => ?_
  obtain ⟨rest, hrest⟩ := hclose
  obtain ⟨rfl, rfl⟩ := List.cons.inj hrest
  exact hopen rest rfl rfl

/-- The arguments of a tag, where it has an end. -/
theorem reads_tagArgs_some {cs args rest : List Char} (h : spanArguments? cs = some (args, rest)) :
    tagArgs.Reads cs (some (args, '>' :: '>' :: rest)) := by
  fun_induction spanArguments? cs generalizing args with
  | case1 => cases h
  | case2 rest =>
    obtain ⟨rfl, rfl⟩ := Prod.mk.inj (Option.some.inj h)
    exact .starStops (reads_argPiece_close rest)
  | case3 c cs hopen inside after hpiece ih =>
    obtain ⟨⟨more, _⟩, hmore, heq⟩ := Option.map_eq_some_iff.1 h
    obtain ⟨rfl, rfl⟩ := Prod.mk.inj heq
    have hclosed := reads_closedPiece c cs
    rw [hpiece] at hclosed
    exact .starMore (.altFirst hclosed) (ih hmore)
  | case4 c cs hopen hpiece ih =>
    obtain ⟨⟨more, _⟩, hmore, heq⟩ := Option.map_eq_some_iff.1 h
    obtain ⟨rfl, rfl⟩ := Prod.mk.inj heq
    have hclosed := reads_closedPiece c cs
    rw [hpiece] at hclosed
    exact .starMore (.altSecond hclosed (.neg_seq (reads_close_fails hopen) (reads_any c cs))) (ih hmore)

/-- Where a tag has no end the arguments take all there is. -/
theorem reads_tagArgs_none {cs : List Char} (h : spanArguments? cs = none) :
    tagArgs.Reads cs (some (cs, [])) := by
  fun_induction spanArguments? cs with
  | case1 => exact .starStops reads_argPiece_nil
  | case2 => cases h
  | case3 c cs hopen inside after hpiece ih =>
    have hclosed := reads_closedPiece c cs
    rw [hpiece] at hclosed
    refine (Reads.starMore (.altFirst hclosed) (ih (Option.map_eq_none_iff.1 h))).as ?_
    simp [← spanPiece?_append hpiece]
  | case4 c cs hopen hpiece ih =>
    have hclosed := reads_closedPiece c cs
    rw [hpiece] at hclosed
    exact .starMore (.altSecond hclosed (.neg_seq (reads_close_fails hopen) (reads_any c cs)))
      (ih (Option.map_eq_none_iff.1 h))

theorem reads_wordName (cs : List Char) :
    (seq (char Char.isAlpha) (star (char isTagNameChar))).Reads cs (spanWordName? cs) := by
  cases cs with
  | nil => exact .seqFails .charAtEnd
  | cons c cs =>
    rw [spanWordName?]
    split
    · rename_i hc
      exact .seq (.char hc) (reads_star_char isTagNameChar cs)
    · rename_i hc
      exact .seqFails (.charFails hc)

theorem reads_opt_nil (cs : List Char) : (lit []).Reads cs (some ([], cs)) := .lit_of_eq rfl

/-- The name of a tag. -/
theorem reads_tagName (cs : List Char) : tagName.Reads cs (spanTagName? cs) := by
  have unslashed (cs : List Char) (h : ¬ ['/'] <+: cs) :
      (seq (opt (lit ['/'])) (seq (char Char.isAlpha) (star (char isTagNameChar)))).Reads cs
        (spanWordName? cs) :=
    (Reads.seq (.altSecond (.litFails h) (reads_opt_nil cs)) (reads_wordName cs)).as (by simp)
  unfold spanTagName?
  split
  next cs =>
    refine .alt_of_fails (.seq (.altFirst (.literal ['/'] _)) (reads_wordName cs)) ?_
    exact .altSecond (.litFails (by simp)) (.litFails (by simp))
  next cs =>
    have hword := unslashed ('=' :: cs) (by simp)
    exact .altSecond hword (.altFirst .lit)
  next cs =>
    have hword := unslashed ('-' :: cs) (by simp)
    exact .altSecond hword (.altSecond (.litFails (by simp)) .lit)
  next hslash heq hminus =>
    have differs {c : Char} (h : ∀ rest, cs = c :: rest → False) : ¬ [c] <+: cs :=
      fun ⟨rest, hrest⟩ => h rest hrest.symm
    refine .alt_of_fails (unslashed cs (differs hslash)) ?_
    exact .altSecond (.litFails (differs heq)) (.litFails (differs hminus))

/-- The name and the arguments behind a `<<`, where they make a tag. -/
theorem spanTag?_eq_some_iff {inner name args rest : List Char} :
    spanTag? inner = some (name, args, rest) ↔
      ∃ afterName, tagName.Reads inner (some (name, afterName)) ∧
        tagArgs.Reads afterName (some (args, '>' :: '>' :: rest)) := by
  constructor
  · intro h
    unfold spanTag? at h
    have hname := reads_tagName inner
    cases hspan : spanTagName? inner with
    | none => simp [hspan] at h
    | some found =>
      obtain ⟨name', afterName⟩ := found
      rw [hspan] at h hname
      dsimp only at h
      cases hargs : spanArguments? afterName with
      | none => simp [hargs] at h
      | some found =>
        obtain ⟨args', rest'⟩ := found
        rw [hargs] at h
        obtain ⟨rfl, rfl, rfl⟩ : name' = name ∧ args' = args ∧ rest' = rest := by simpa using h
        exact ⟨afterName, hname, reads_tagArgs_some hargs⟩
  · rintro ⟨afterName, hname, hargs⟩
    rw [spanTag?, (reads_tagName inner).unique hname]
    dsimp only
    cases hspan : spanArguments? afterName with
    | none => cases (reads_tagArgs_none hspan).unique hargs
    | some found =>
      cases (reads_tagArgs_some hspan).unique hargs
      rfl

/-- A tag as a whole. -/
theorem reads_macroTag (inner : List Char) :
    macroTag.Reads ('<' :: '<' :: inner)
      ((spanTag? inner).map fun (name, args, rest) =>
        ('<' :: '<' :: name ++ args ++ ['>', '>'], rest)) := by
  have hopen : (lit ['<', '<']).Reads ('<' :: '<' :: inner) (some (['<', '<'], inner)) := .lit
  cases hspan : spanTag? inner with
  | some found =>
    obtain ⟨name, args, rest⟩ := found
    obtain ⟨afterName, hname, hargs⟩ := spanTag?_eq_some_iff.1 hspan
    have := Reads.seq hopen (.seq hname (.seq hargs (.literal ['>', '>'] _)))
    simpa [macroTag] using this
  | none =>
    -- whatever part is missing, the rule fails behind the `<<`
    refine (@Reads.seq _ _ _ _ _ none hopen ?_).as rfl
    have hname := reads_tagName inner
    cases hword : spanTagName? inner with
    | none =>
      rw [hword] at hname
      exact .seqFails hname
    | some found =>
      obtain ⟨name, afterName⟩ := found
      rw [hword] at hname
      cases hargs : spanArguments? afterName with
      | none =>
        have hclose : (lit ['>', '>']).Reads [] none := reads_lit_nil
        exact (Reads.seq hname (.seq (reads_tagArgs_none hargs) hclose)).as rfl
      | some found => simp [spanTag?, hword, hargs] at hspan

/-- A tag begins with `<<`. -/
theorem macroTag_fails {cs : List Char} (h : ¬ ['<', '<'] <+: cs) : macroTag.Reads cs none :=
  .seqFails (.litFails h)

/-! ### Text -/

theorem reads_textChar {c : Char} {cs : List Char} (h : ¬ ['<', '<'] <+: c :: cs) :
    textChar.Reads (c :: cs) (some ([c], cs)) :=
  .neg_seq (.litFails h) (reads_any c cs)

/-- The characters up to the next `<<`. -/
theorem reads_run (cs : List Char) :
    (star textChar).Reads cs (some (spanText cs)) := by
  fun_induction spanText cs with
  | case1 => exact .starStops (.neg_seq reads_lit_nil reads_any_nil)
  | case2 cs => exact .starStops (.neg_seq_fails (.literal ['<', '<'] cs))
  | case3 c cs hopen run rest hrun ih =>
    have hne : ¬ ['<', '<'] <+: c :: cs := by
      rintro ⟨inner, hinner⟩
      obtain ⟨rfl, rfl⟩ := List.cons.inj hinner
      exact hopen inner rfl rfl
    rw [hrun] at ih
    exact .starMore (reads_textChar hne) ih

theorem reads_text_run {c : Char} {cs : List Char} (h : ¬ ['<', '<'] <+: c :: cs) :
    text.Reads (c :: cs) (some (c :: (spanText cs).1, (spanText cs).2)) :=
  .altFirst (.seq (reads_textChar h) (reads_run cs))

theorem reads_text_opening (inner : List Char) :
    text.Reads ('<' :: '<' :: inner) (some (['<', '<'], inner)) :=
  .altSecond (.seqFails (.neg_seq_fails (.literal ['<', '<'] inner))) .lit

end Grammar

end StoryEngine
