import StoryEngine.Argument.Token
import StoryEngine.Expr.Error
import StoryEngine.Passage.Segment
import StoryEngine.Proofs.Passage.Cut
/-!
# StoryEngine.Proofs.Text.Literal

How a string is written as a literal, so that it is read back as it is (`QuoteMark.literal`). A
backslash stands before every backslash and every quote of the kind that the literal stands between,
and line ends are written as `\n` and `\r`; all other characters stand for themselves.

Every scan that looks for the end of a quoted text finds that of a literal, whatever the string
holds and whatever follows: inside a literal there is no closing quote and no line end that does not
belong to an escape (`Writing`).
-/

namespace StoryEngine

/-- The marks that a literal can stand between. -/
inductive QuoteMark where
  | double
  | single
deriving Repr, DecidableEq

namespace QuoteMark

/-- The mark itself. -/
def char : QuoteMark → Char
  | double => '"'
  | single => '\''

/-- How a character is written between two marks. -/
def written (q : QuoteMark) (c : Char) : List Char :=
  if c = '\\' ∨ c = q.char then ['\\', c]
  else if c = '\n' then ['\\', 'n']
  else if c = '\r' then ['\\', 'r']
  else [c]

/-- What stands between the marks for the characters. -/
def inside (q : QuoteMark) (cs : List Char) : List Char :=
  cs.flatMap q.written

/-- The literal of the string. -/
def literal (q : QuoteMark) (s : String) : String :=
  String.ofList (q.char :: (q.inside s.toList ++ [q.char]))

variable {q : QuoteMark}

@[simp] theorem inside_nil : q.inside [] = [] := rfl

@[simp] theorem inside_cons (c : Char) (cs : List Char) :
    q.inside (c :: cs) = q.written c ++ q.inside cs := rfl

@[simp] theorem toList_literal (s : String) :
    (q.literal s).toList = q.char :: (q.inside s.toList ++ [q.char]) :=
  String.toList_ofList

theorem char_ne_backslash : q.char ≠ '\\' := by
  cases q <;> decide

theorem escapeMeaning_char : escapeMeaning q.char = q.char := by
  cases q <;> rfl

theorem isLineEnd_char : isLineEnd q.char = false := by
  cases q <;> rfl

end QuoteMark

/-- How a character is written between marks, in front of others: as an escape or as itself. -/
inductive Writing (q : QuoteMark) (c : Char) : Prop
  | escape (d : Char) (meaning : escapeMeaning d = c) (line : isLineEnd d = false)
    (written : ∀ cs, q.inside (c :: cs) = '\\' :: d :: q.inside cs)
  | itself (backslash : c ≠ '\\') (mark : c ≠ q.char) (line : isLineEnd c = false)
    (written : ∀ cs, q.inside (c :: cs) = c :: q.inside cs)

namespace QuoteMark

variable {q : QuoteMark}

theorem writing (q : QuoteMark) (c : Char) : Writing q c := by
  have hinside {text : List Char} (h : q.written c = text) (cs : List Char) :
      q.inside (c :: cs) = text ++ q.inside cs := by rw [inside_cons, h]
  by_cases hmark : c = '\\' ∨ c = q.char
  · have hwritten : q.written c = ['\\', c] := if_pos hmark
    rcases hmark with rfl | rfl
    · exact .escape '\\' rfl rfl (hinside hwritten)
    · exact .escape q.char escapeMeaning_char isLineEnd_char (hinside hwritten)
  · obtain ⟨hbackslash, hquote⟩ := not_or.1 hmark
    by_cases hfeed : c = '\n'
    · have hwritten : q.written c = ['\\', 'n'] := by rw [written, if_neg hmark, if_pos hfeed]
      exact .escape 'n' hfeed.symm rfl (hinside hwritten)
    · by_cases hreturn : c = '\r'
      · have hwritten : q.written c = ['\\', 'r'] := by
          rw [written, if_neg hmark, if_neg hfeed, if_pos hreturn]
        exact .escape 'r' hreturn.symm rfl (hinside hwritten)
      · have hwritten : q.written c = [c] := by
          rw [written, if_neg hmark, if_neg hfeed, if_neg hreturn]
        have hline : isLineEnd c = false := by simp [isLineEnd, hfeed, hreturn]
        exact .itself hbackslash hquote hline (hinside hwritten)

/-! ### The scans for the closing mark -/

/-- A scan that refuses line ends at most gets to the closing mark. -/
theorem spanQuoted?_inside {bare escaped : Char → Bool}
    (hbare : ∀ c, isLineEnd c = false → bare c = false)
    (hescaped : ∀ c, isLineEnd c = false → escaped c = false) (cs rest : List Char) :
    spanQuoted? q.char bare escaped (q.inside cs ++ q.char :: rest) =
      some (q.inside cs ++ [q.char], rest) := by
  induction cs with
  | nil =>
      rw [inside_nil, List.nil_append, spanQuoted?_of_ne char_ne_backslash]
      simp
  | cons c cs ih =>
      cases q.writing c with
      | escape d meaning line written =>
          rw [written, List.cons_append, List.cons_append, spanQuoted?, ih]
          simp [hescaped d line]
      | itself backslash mark line written =>
          rw [written, List.cons_append, spanQuoted?_of_ne backslash, ih]
          simp [mark, hbare c line]

theorem quotedLexeme_of_ne {mark : Char} {kind : ArgumentKind} {fault : ArgumentFault} {c : Char}
    (hc : c ≠ '\\') (cs : List Char) :
    quotedLexeme mark kind fault (c :: cs) =
      if isLineFeed c then ⟨.bad fault, [c], cs⟩
      else if c == mark then ⟨kind, [c], cs⟩
      else (quotedLexeme mark kind fault cs).behind c := by
  rw [quotedLexeme]
  · rintro rfl
    exact absurd rfl hc
  · rintro _ _ rfl
    exact absurd rfl hc

theorem isLineFeed_of_isLineEnd {c : Char} (h : isLineEnd c = false) : isLineFeed c = false := by
  simp only [isLineEnd, Bool.or_eq_false_iff] at h
  exact h.1

/-- The argument that begins with the mark is the literal. -/
theorem quotedLexeme_inside (kind : ArgumentKind) (fault : ArgumentFault) (cs rest : List Char) :
    quotedLexeme q.char kind fault (q.inside cs ++ q.char :: rest) =
      ⟨kind, q.inside cs ++ [q.char], rest⟩ := by
  induction cs with
  | nil =>
      have hline := isLineFeed_of_isLineEnd (isLineEnd_char (q := q))
      rw [inside_nil, List.nil_append, quotedLexeme_of_ne char_ne_backslash]
      simp [hline]
  | cons c cs ih =>
      cases q.writing c with
      | escape d meaning line written =>
          rw [written, List.cons_append, List.cons_append, quotedLexeme, ih]
          simp [isLineFeed_of_isLineEnd line, ArgumentLexeme.behind]
      | itself backslash mark line written =>
          rw [written, List.cons_append, quotedLexeme_of_ne backslash, ih]
          simp [isLineFeed_of_isLineEnd line, mark, ArgumentLexeme.behind]

/-! ### What the literal stands for -/

theorem readEscapes_of_ne {c : Char} (hc : c ≠ '\\') (cs : List Char) :
    readEscapes (c :: cs) = c :: readEscapes cs := by
  rw [readEscapes]
  · rintro rfl
    exact absurd rfl hc
  · rintro _ _ rfl
    exact absurd rfl hc

theorem readEscapes_inside (cs : List Char) : readEscapes (q.inside cs) = cs := by
  induction cs with
  | nil => rfl
  | cons c cs ih =>
      cases q.writing c with
      | escape d meaning line written => rw [written, readEscapes, meaning, ih]
      | itself backslash mark line written => rw [written, readEscapes_of_ne backslash, ih]

/-- The literal of a string stands for the string. -/
theorem unquote_literal (q : QuoteMark) (s : String) : unquote (q.literal s) = .ok s := by
  unfold unquote
  rw [toList_literal]
  cases hinside : q.inside s.toList ++ [q.char] with
  | nil => simp at hinside
  | cons c cs =>
      have hlast : (c :: cs).getLast? = some q.char := by
        rw [← hinside]
        simp
      have hread : readEscapes (c :: cs).dropLast = s.toList := by
        rw [← hinside, List.dropLast_concat, readEscapes_inside]
      simp [hlast, hread]

end QuoteMark

end StoryEngine
