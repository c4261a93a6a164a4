import StoryEngine.Lexer
/-!
# StoryEngine.Proofs.Lexer.Reading

A lexer in the middle of its source (`Lexer.reading`): some characters are done with, some belong to
the item being scanned, and some are still ahead. Every operation of the cursor moves characters
from one of the three parts to the next one, or back. So does the loop over the rest of a quoted text
(`Lexer.slurpQuote`): it takes the character behind a backslash with it, and stops behind the closing
quote, at the end of the source, or behind a character that may not stand in the text.
-/

namespace StoryEngine

variable {κ σ : Type}

namespace Lexer

/-- The lexer with its cursor in a source of three parts: the text in front of the current item,
what is scanned of the item, and what is ahead. -/
def reading (l : Lexer κ σ) (before current ahead : List Char) : Lexer κ σ :=
  { l with
    source := (before ++ current ++ ahead).toArray
    start := before.length
    pos := before.length + current.length }

/-- The lexer with a state to go on with, or none. -/
def going (l : Lexer κ σ) (state : Option σ) : Lexer κ σ :=
  { l with state := state }

/-- The lexer with one more item at the end of its queue. -/
def queued (l : Lexer κ σ) (item : LexerItem κ) : Lexer κ σ :=
  { l with items := l.items ++ [item] }

theorem ofSource_eq_reading (source : String) (initial : σ) :
    (ofSource source initial : Lexer κ σ) =
      ((ofSource "" initial).going (some initial)).reading [] [] source.toList :=
  rfl

section

variable (l : Lexer κ σ) (before current ahead : List Char) (c : Char)

@[simp] theorem reading_items : (l.reading before current ahead).items = l.items := rfl

@[simp] theorem reading_state : (l.reading before current ahead).state = l.state := rfl

@[simp] theorem reading_depth : (l.reading before current ahead).depth = l.depth := rfl

@[simp] theorem reading_pos :
    (l.reading before current ahead).pos = before.length + current.length := rfl

@[simp] theorem going_items (state : Option σ) : (l.going state).items = l.items := rfl

@[simp] theorem going_state (state : Option σ) : (l.going state).state = state := rfl

@[simp] theorem going_depth (state : Option σ) : (l.going state).depth = l.depth := rfl

@[simp] theorem queued_items (item : LexerItem κ) : (l.queued item).items = l.items ++ [item] := rfl

@[simp] theorem queued_state (item : LexerItem κ) : (l.queued item).state = l.state := rfl

theorem drop_pos_reading :
    (l.reading before current ahead).source.toList.drop (l.reading before current ahead).pos =
      ahead := by
  simp [reading, List.drop_append]

@[simp] theorem peek?_reading : (l.reading before current ahead).peek? = ahead.head? := by
  rw [peek?, ← Array.getElem?_toList, ← List.head?_drop, drop_pos_reading]

@[simp] theorem next_reading_nil :
    (l.reading before current []).next = (none, l.reading before current []) := by
  simp [next]

/-- What is ahead moves into the current item. -/
theorem reading_append (taken : List Char) :
    l.reading before (current ++ taken) ahead =
      { l.reading before current (taken ++ ahead) with
        pos := before.length + current.length + taken.length } := by
  simp [reading, Nat.add_assoc]

theorem reading_snoc :
    l.reading before (current ++ [c]) ahead =
      { l.reading before current (c :: ahead) with
        pos := (l.reading before current (c :: ahead)).pos + 1 } :=
  reading_append l before current ahead [c]

@[simp] theorem next_reading_cons :
    (l.reading before current (c :: ahead)).next =
      (some c, l.reading before (current ++ [c]) ahead) := by
  rw [next, peek?_reading, List.head?_cons, reading_snoc]

@[simp] theorem forward_reading_cons :
    (l.reading before current (c :: ahead)).forward 1 =
      l.reading before (current ++ [c]) ahead := by
  have hmin : min (before.length + current.length + 1)
      (before ++ current ++ c :: ahead).toArray.size = before.length + current.length + 1 := by
    simp only [List.size_toArray, List.length_append, List.length_cons]
    omega
  rw [forward, reading_snoc]
  exact congrArg (fun pos => { l.reading before current (c :: ahead) with pos := pos }) hmin

@[simp] theorem backup_reading_snoc :
    (l.reading before (current ++ [c]) ahead).backup 1 =
      l.reading before current (c :: ahead) := by
  rw [reading_snoc]
  rfl

@[simp] theorem accept_reading_nil (test : Char → Bool) :
    (l.reading before current []).accept test = (false, l.reading before current []) := by
  simp [accept]

@[simp] theorem accept_reading_cons (test : Char → Bool) :
    (l.reading before current (c :: ahead)).accept test =
      if test c then (true, l.reading before (current ++ [c]) ahead)
      else (false, l.reading before current (c :: ahead)) := by
  rw [accept, peek?_reading, List.head?_cons, reading_snoc]

@[simp] theorem acceptRun_reading (test : Char → Bool) :
    (l.reading before current ahead).acceptRun test =
      l.reading before (current ++ ahead.takeWhile test) (ahead.dropWhile test) := by
  rw [acceptRun, drop_pos_reading, reading_append, List.takeWhile_append_dropWhile]
  rfl

@[simp] theorem ignore_reading :
    (l.reading before current ahead).ignore = l.reading (before ++ current) [] ahead := by
  simp [ignore, reading]

@[simp] theorem pending_reading :
    (l.reading before current ahead).pending = String.ofList current := by
  simp [pending, slice, reading, List.extract_eq_take_drop]

@[simp] theorem atEnd_reading :
    (l.reading before current ahead).atEnd = ahead.isEmpty := by
  cases ahead <;> simp [atEnd, reading]

/-- The current item is queued, and the next one begins behind it. -/
@[simp] theorem emit_reading (kind : κ) :
    (l.reading before current ahead).emit kind =
      (l.queued ⟨kind, String.ofList current, before.length, before.length + current.length,
        none⟩).reading (before ++ current) [] ahead := by
  rw [emit, pending_reading]
  simp [reading, queued]

@[simp] theorem error_reading (kind : κ) (message : String) :
    (l.reading before current ahead).error kind message =
      (l.queued ⟨kind, String.ofList current, before.length, before.length + current.length,
        some message⟩).reading before current ahead := by
  rw [error, pending_reading]
  rfl

/-- A step from a place in the source. -/
theorem step?_reading (grammar : LexerGrammar κ σ) (state : σ) :
    ((l.going (some state)).reading before current ahead).step? grammar =
      some ((grammar state ((l.going (some state)).reading before current ahead)).1.going
        (grammar state ((l.going (some state)).reading before current ahead)).2) :=
  rfl

end

/-! ### Quoted texts -/

theorem length_sub_pos_lt_of_next {l after : Lexer κ σ} {c : Char} (h : l.next = (some c, after)) :
    after.length - after.pos < l.length - l.pos := by
  rw [next] at h
  split at h
  · rename_i d hpeek
    obtain ⟨-, rfl⟩ := Prod.mk.inj h
    have hlt : l.pos < l.source.size := (Array.getElem?_eq_some_iff.mp hpeek).1
    dsimp only [length]
    omega
  · cases h

/-- Move over the rest of a quoted text, and tell whether it is closed. -/
def slurpQuote (close : Char) (stops : Char → Bool) (l : Lexer κ σ) : Bool × Lexer κ σ :=
  match _hnext : l.next with
  | (none, after) => (false, after)
  | (some c, after) =>
    if c == '\\' then
      match _hescaped : after.next with
      | (none, after) => (false, after)
      | (some d, after) =>
        if stops d then (false, after) else slurpQuote close stops after
    else if stops c then (false, after)
    else if c == close then (true, after)
    else slurpQuote close stops after
termination_by l.length - l.pos
decreasing_by
  · exact Nat.lt_trans (length_sub_pos_lt_of_next _hescaped) (length_sub_pos_lt_of_next _hnext)
  · exact length_sub_pos_lt_of_next _hnext

section

variable (close : Char) (stops : Char → Bool) (l : Lexer κ σ) (before current ahead : List Char)
  {c : Char}

theorem slurpQuote_reading_nil :
    (l.reading before current []).slurpQuote close stops =
      (false, l.reading before current []) := by
  rw [slurpQuote]
  split
  · rename_i after hnext
    rw [next_reading_nil] at hnext
    cases hnext
    rfl
  · rename_i c after hnext
    rw [next_reading_nil] at hnext
    cases hnext

/-- A character that no backslash is in front of. -/
theorem slurpQuote_reading_cons (h : c ≠ '\\') :
    (l.reading before current (c :: ahead)).slurpQuote close stops =
      if stops c then (false, l.reading before (current ++ [c]) ahead)
      else if c == close then (true, l.reading before (current ++ [c]) ahead)
      else (l.reading before (current ++ [c]) ahead).slurpQuote close stops := by
  conv => lhs; rw [slurpQuote]
  split
  · rename_i after hnext
    rw [next_reading_cons] at hnext
    cases hnext
  · rename_i d after hnext
    rw [next_reading_cons] at hnext
    cases hnext
    rw [if_neg (by simpa using h)]

/-- A backslash and the character that it takes with it. -/
theorem slurpQuote_reading_escape :
    (l.reading before current ('\\' :: ahead)).slurpQuote close stops =
      match ahead with
      | [] => (false, l.reading before (current ++ ['\\']) [])
      | d :: ds =>
        if stops d then (false, l.reading before (current ++ ['\\', d]) ds)
        else (l.reading before (current ++ ['\\', d]) ds).slurpQuote close stops := by
  conv => lhs; rw [slurpQuote]
  split
  · rename_i after hnext
    rw [next_reading_cons] at hnext
    cases hnext
  · rename_i c after hnext
    rw [next_reading_cons] at hnext
    cases hnext
    rw [if_pos (beq_self_eq_true _)]
    split
    · rename_i final hescaped
      cases ahead with
      | nil =>
          rw [next_reading_nil] at hescaped
          cases hescaped
          rfl
      | cons d ds =>
          rw [next_reading_cons] at hescaped
          cases hescaped
    · rename_i d final hescaped
      cases ahead with
      | nil =>
          rw [next_reading_nil] at hescaped
          cases hescaped
      | cons e ds =>
          rw [next_reading_cons, List.append_assoc] at hescaped
          cases hescaped
          rfl

end

end Lexer

end StoryEngine
