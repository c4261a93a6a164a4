import Mathlib.Data.List.TakeWhile
import StoryEngine.Proofs.Lexer.Reading
import StoryEngine.Proofs.Lexer.Taken
import StoryEngine.Text.Blank
/-!
# StoryEngine.Proofs.Lexer.Scanned

Items that cover a text stand in order without sharing a character, each of them is exactly the
characters between its two positions, and blanks are all there is between them (`Tiled`). The
statement is built up from the last item to the first: a scan that finds only blanks, or an error,
tiles what is left of the text, and an item in front of what a tiling begins with makes a longer one.

Such are the items of scans that skip blanks, take a word and begin again. What the word is and where
it ends is told by its first character and what follows it (`Word`); an error is the last word. If
the states of a grammar do the same with the cursor (`ScansWords`), its scan ends, yields these items,
and they tile the text (`Scanned.reaches`).
-/

namespace StoryEngine

variable {κ σ : Type}

/-- The item that a word makes at the position. -/
def wordItem (kind : κ) (word : List Char) (position : Nat) (message : Option String) :
    LexerItem κ :=
  ⟨kind, String.ofList word, position, position + word.length, message⟩

/-- The items tile the text from the position on, as far as it has been scanned: to its end unless
one of them is an error, which is the last and ends the scan. -/
structure Tiled (position : Nat) (cs : List Char) (items : List (LexerItem κ)) (stop : Nat) :
    Prop where
  reach : position ≤ stop
  bound : stop ≤ cs.length
  span : ∀ item ∈ items, position ≤ item.start ∧ item.start < item.pos ∧ item.pos ≤ stop
  text : ∀ item ∈ items, item.text = String.ofList ((cs.take item.pos).drop item.start)
  ordered : items.Pairwise fun item next => item.pos ≤ next.start
  /-- What is in no item is blank. -/
  blank : ∀ i c, position ≤ i → i < stop → cs[i]? = some c →
    (∀ item ∈ items, i < item.start ∨ item.pos ≤ i) → isBlank c = true
  sound : ∀ item ∈ items.dropLast, item.isError = false
  ended : (∀ item ∈ items, item.isError = false) → stop = cs.length
  failed : ∀ item ∈ items, item.isError = true → stop = item.pos

namespace Tiled

variable {before gap word rest : List Char} {kind : κ} {message : String}

/-- A character behind the first part of a text and in front of the last one is in the middle. -/
theorem mem_middle {before middle rest : List Char} {i : Nat} {c : Char}
    (h : (before ++ (middle ++ rest))[i]? = some c) (hle : before.length ≤ i)
    (hlt : i < before.length + middle.length) : c ∈ middle := by
  rw [List.getElem?_append_right hle, List.getElem?_append_left (by omega)] at h
  exact List.mem_of_getElem? h

/-- A word is the part of the text between its positions. -/
theorem text_wordItem (message : Option String) :
    (wordItem kind word (before.length + gap.length) message).text =
      String.ofList (((before ++ (gap ++ (word ++ rest))).take
        (before.length + gap.length + word.length)).drop (before.length + gap.length)) := by
  have hsplit : before ++ (gap ++ (word ++ rest)) = before ++ gap ++ word ++ rest := by
    simp only [List.append_assoc]
  rw [hsplit, ← List.length_append, ← List.length_append, List.take_left, List.drop_left]
  rfl

/-- Nothing but blanks is left. -/
theorem of_blanks (hgap : ∀ c ∈ gap, isBlank c = true) :
    Tiled before.length (before ++ gap) ([] : List (LexerItem κ)) (before ++ gap).length where
  reach := by rw [List.length_append]; exact Nat.le_add_right _ _
  bound := Nat.le_refl _
  span := by simp
  text := by simp
  ordered := .nil
  blank := by
    intro i c hle hlt hc _
    rw [← List.append_nil gap] at hc
    exact hgap c (mem_middle hc hle (by rwa [List.length_append] at hlt))
  sound := by simp
  ended := fun _ => rfl
  failed := by simp

/-- An error behind blanks ends the scan. -/
theorem of_error (hgap : ∀ c ∈ gap, isBlank c = true) (hword : word ≠ []) :
    Tiled before.length (before ++ (gap ++ (word ++ rest)))
      [wordItem kind word (before.length + gap.length) (some message)]
      (before.length + gap.length + word.length) where
  reach := by omega
  bound := by simp only [List.length_append]; omega
  span := by
    have hlength := List.length_pos_iff.mpr hword
    refine List.forall_mem_singleton.mpr ⟨?_, ?_, ?_⟩ <;> dsimp only [wordItem] <;> omega
  text := List.forall_mem_singleton.mpr (text_wordItem (some message))
  ordered := List.pairwise_singleton _ _
  blank := by
    intro i c hle hlt hc hout
    have hin := hout _ (List.mem_singleton.mpr rfl)
    dsimp only [wordItem] at hin
    exact hgap c (mem_middle hc hle (by omega))
  sound := by simp
  ended := by simp [wordItem, LexerItem.isError]
  failed := List.forall_mem_singleton.mpr fun _ => rfl

/-- A word behind blanks, and what follows it. -/
theorem cons {items : List (LexerItem κ)} {stop : Nat} (hgap : ∀ c ∈ gap, isBlank c = true)
    (hword : word ≠ [])
    (h : Tiled (before.length + gap.length + word.length) (before ++ (gap ++ (word ++ rest)))
      items stop) :
    Tiled before.length (before ++ (gap ++ (word ++ rest)))
      (wordItem kind word (before.length + gap.length) none :: items) stop where
  reach := by have hreach := h.reach; omega
  bound := h.bound
  span := by
    have hlength := List.length_pos_iff.mpr hword
    have hreach := h.reach
    refine List.forall_mem_cons.mpr ⟨?_, fun item hitem => ?_⟩
    · dsimp only [wordItem]
      omega
    · have hspan := h.span item hitem
      omega
  text := List.forall_mem_cons.mpr ⟨text_wordItem none, h.text⟩
  ordered := List.pairwise_cons.mpr ⟨fun item hitem => (h.span item hitem).1, h.ordered⟩
  blank := by
    intro i c hle' hlt hc hout
    obtain ⟨hin, hout⟩ := List.forall_mem_cons.mp hout
    dsimp only [wordItem] at hin
    rcases hin with hin | hin
    · exact hgap c (mem_middle hc hle' hin)
    · exact h.blank i c hin hlt hc hout
  sound := by
    intro item hitem
    cases items with
    | nil => simp at hitem
    | cons next items =>
        rw [List.dropLast_cons_cons] at hitem
        rcases List.mem_cons.mp hitem with rfl | hitem
        · rfl
        · exact h.sound item hitem
  ended := fun hsound => h.ended (List.forall_mem_cons.mp hsound).2
  failed := List.forall_mem_cons.mpr ⟨fun herror => (by cases herror), h.failed⟩

end Tiled

/-! ### Words -/

/-- How the text after the first character of a word is divided, what the word is, and what is wrong
with it. -/
structure Word (κ : Type) where
  kind : κ
  message : Option String
  more : List Char
  rest : List Char

/-- The item of the word that begins with the character at the position. -/
def Word.item (w : Word κ) (c : Char) (position : Nat) : LexerItem κ :=
  wordItem w.kind (c :: w.more) position w.message

namespace Word

variable {w : Word κ} {before gap cs : List Char} {c : Char}

/-- A word with something wrong, behind blanks, ends the scan. -/
theorem tiled_error {message : String} (hcs : w.more ++ w.rest = cs)
    (hgap : ∀ c ∈ gap, isBlank c = true) (hmessage : w.message = some message) :
    Tiled before.length (before ++ (gap ++ c :: cs)) [w.item c (before.length + gap.length)]
      (before.length + gap.length + (c :: w.more).length) := by
  rw [← hcs, ← List.cons_append, item, hmessage]
  exact .of_error hgap (List.cons_ne_nil c w.more)

/-- A word behind blanks, and what follows it. -/
theorem tiled_item {items : List (LexerItem κ)} {stop : Nat} (hcs : w.more ++ w.rest = cs)
    (hgap : ∀ c ∈ gap, isBlank c = true) (hmessage : w.message = none)
    (h : Tiled (before ++ gap ++ c :: w.more).length (before ++ gap ++ c :: w.more ++ w.rest) items
      stop) :
    Tiled before.length (before ++ (gap ++ c :: cs))
      (w.item c (before.length + gap.length) :: items) stop := by
  have hsplit : before ++ gap ++ c :: w.more ++ w.rest =
      before ++ (gap ++ (c :: w.more ++ w.rest)) := by
    simp only [List.append_assoc]
  rw [hsplit, List.length_append, List.length_append] at h
  rw [← hcs, ← List.cons_append, item, hmessage]
  exact h.cons hgap (List.cons_ne_nil c w.more)

end Word

/-- The items are those of the characters, which begin at the position. -/
inductive Scanned (word : Char → List Char → Word κ) :
    Nat → List Char → List (LexerItem κ) → Prop where
  | done {position : Nat} {gap : List Char} (hgap : ∀ c ∈ gap, isBlank c = true) :
      Scanned word position gap []
  | error {position : Nat} {gap cs : List Char} {c : Char} {message : String}
      (hgap : ∀ c ∈ gap, isBlank c = true) (hc : isBlank c = false)
      (hmessage : (word c cs).message = some message) :
      Scanned word position (gap ++ c :: cs) [(word c cs).item c (position + gap.length)]
  | item {position : Nat} {gap cs : List Char} {c : Char} {items : List (LexerItem κ)}
      (hgap : ∀ c ∈ gap, isBlank c = true) (hc : isBlank c = false)
      (hmessage : (word c cs).message = none)
      (hrest : Scanned word (position + gap.length + (c :: (word c cs).more).length)
        (word c cs).rest items) :
      Scanned word position (gap ++ c :: cs) ((word c cs).item c (position + gap.length) :: items)

/-- The blanks in front of a word. -/
theorem exists_gap {cs rest : List Char} {c : Char} (h : dropBlanks cs = c :: rest) :
    cs.takeWhile isBlank ++ c :: rest = cs ∧ (∀ d ∈ cs.takeWhile isBlank, isBlank d = true) ∧
      isBlank c = false := by
  refine ⟨h ▸ List.takeWhile_append_dropWhile, fun d => List.mem_takeWhile_imp, ?_⟩
  have hhead := List.head?_dropWhile_not isBlank cs
  rw [← dropBlanks, h] at hhead
  exact hhead

/-! ### Skipping blanks -/

section Blanks

variable (l : Lexer κ σ) (before : List Char) {gap : List Char}

theorem Lexer.next_blanks (hgap : ∀ c ∈ gap, isBlank c = true) :
    ((l.reading before [] gap).acceptRun isBlank).ignore.next =
      (none, l.reading (before ++ gap) [] []) := by
  rw [acceptRun_reading, ignore_reading, List.takeWhile_eq_self_iff.mpr hgap,
    List.dropWhile_eq_nil_iff.mpr hgap, List.nil_append, next_reading_nil]

/-- The cursor skips blanks and takes the first character of a word. -/
theorem Lexer.next_word (hgap : ∀ c ∈ gap, isBlank c = true) {c : Char} (hc : isBlank c = false)
    (cs : List Char) :
    ((l.reading before [] (gap ++ c :: cs)).acceptRun isBlank).ignore.next =
      (some c, l.reading (before ++ gap) [c] cs) := by
  have hnot : ¬ isBlank c = true := by simp [hc]
  rw [acceptRun_reading, ignore_reading, List.takeWhile_append_of_pos hgap,
    List.dropWhile_append_of_pos hgap, List.takeWhile_cons_of_neg hnot,
    List.dropWhile_cons_of_neg hnot, List.append_nil, List.nil_append, next_reading_cons,
    List.nil_append]

end Blanks

/-! ### Grammars that take words -/

/-- What the lexer has become, and the state to go on with, when the word has been taken whose first
character begins behind the text. -/
def Word.taken (w : Word κ) (l : Lexer κ σ) (before : List Char) (c : Char)
    (following : Option σ) : Lexer κ σ × Option σ :=
  match w.message with
  | some _ => ((l.queued (w.item c before.length)).reading before (c :: w.more) w.rest, none)
  | none =>
    ((l.queued (w.item c before.length)).reading (before ++ c :: w.more) [] w.rest, following)

/-- The scan begins again behind the word, but it need not do so at the end of the text. -/
def Word.Precedes (w : Word κ) (first : σ) (following : Option σ) : Prop :=
  following = some first ∨ following = none ∧ w.rest = []

/-- From its first state the grammar skips blanks. At the first character of a word it either has
taken the word or goes on with a state that takes it, which may leave any depth behind. -/
structure ScansWords (grammar : LexerGrammar κ σ) (first : σ) (word : Char → List Char → Word κ) :
    Prop where
  append : ∀ c cs, (word c cs).more ++ (word c cs).rest = cs
  done : ∀ (l : Lexer κ σ) (before : List Char) {gap : List Char},
    (∀ c ∈ gap, isBlank c = true) →
    grammar first (l.reading before [] gap) = (l.reading (before ++ gap) [] [], none)
  taken : ∀ (l : Lexer κ σ) (before : List Char) {gap : List Char} {c : Char} (cs : List Char),
    (∀ c ∈ gap, isBlank c = true) → isBlank c = false →
    grammar first (l.reading before [] (gap ++ c :: cs)) =
        (word c cs).taken l (before ++ gap) c (some first) ∨
      ∃ state,
        grammar first (l.reading before [] (gap ++ c :: cs)) =
            (l.reading (before ++ gap) [c] cs, some state) ∧
          ∀ l : Lexer κ σ, ∃ (after : Lexer κ σ) (following : Option σ), after.items = l.items ∧
            (word c cs).Precedes first following ∧
            grammar state (l.reading (before ++ gap) [c] cs) =
              (word c cs).taken after (before ++ gap) c following

namespace ScansWords

variable {grammar : LexerGrammar κ σ} {first : σ} {word : Char → List Char → Word κ}

theorem steps_done (h : ScansWords grammar first word) (l : Lexer κ σ) (before : List Char)
    {gap : List Char} (hgap : ∀ c ∈ gap, isBlank c = true) :
    ((l.going (some first)).reading before [] gap).steps grammar 1 =
      (l.going none).reading (before ++ gap) [] [] := by
  rw [Lexer.steps, Lexer.step?_reading, h.done _ before hgap]
  rfl

/-- A word takes two steps at most. -/
theorem steps_taken (h : ScansWords grammar first word) (l : Lexer κ σ) (before : List Char)
    {gap : List Char} {c : Char} (cs : List Char) (hgap : ∀ c ∈ gap, isBlank c = true)
    (hc : isBlank c = false) :
    ∃ n ≤ 2, ∃ (after : Lexer κ σ) (following : Option σ), after.items = l.items ∧
      (word c cs).Precedes first following ∧
      ((l.going (some first)).reading before [] (gap ++ c :: cs)).steps grammar n =
        ((word c cs).taken after (before ++ gap) c following).1.going
          ((word c cs).taken after (before ++ gap) c following).2 := by
  rcases h.taken (l.going (some first)) before cs hgap hc with hone | ⟨state, hfirst, htwo⟩
  · refine ⟨1, by omega, l.going (some first), some first, rfl, .inl rfl, ?_⟩
    rw [Lexer.steps, Lexer.step?_reading, hone]
    rfl
  · obtain ⟨after, following, hitems, hprecedes, hstate⟩ := htwo (l.going (some state))
    refine ⟨2, by omega, after, following, hitems, hprecedes, ?_⟩
    have hstep : ((l.going (some first)).reading before [] (gap ++ c :: cs)).step? grammar =
        some ((l.going (some state)).reading (before ++ gap) [c] cs) := by
      rw [Lexer.step?_reading, hfirst]
      rfl
    rw [Lexer.steps_of_step? hstep, Lexer.steps, Lexer.step?_reading, hstate]
    rfl

end ScansWords

/-- The scan is at its end in so many steps, with the items behind those that were queued before, and
the cursor behind everything that has been scanned. -/
def Lexer.Reaches (grammar : LexerGrammar κ σ) (n : Nat) (l : Lexer κ σ)
    (items : List (LexerItem κ)) (stop : Nat) : Prop :=
  (l.steps grammar n).state = none ∧ (l.steps grammar n).items = l.items ++ items ∧
    (l.steps grammar n).pos = stop

theorem Lexer.Reaches.of_le {grammar : LexerGrammar κ σ} {m n : Nat} {l : Lexer κ σ}
    {items : List (LexerItem κ)} {stop : Nat} (h : l.Reaches grammar m items stop) (hle : m ≤ n) :
    l.Reaches grammar n items stop := by
  rw [Reaches, steps_of_le h.1 hle]
  exact h

namespace Scanned

variable {grammar : LexerGrammar κ σ} {first : σ} {word : Char → List Char → Word κ}
  {position : Nat} {items : List (LexerItem κ)}

theorem of_error {cs rest : List Char} {c : Char} {message : String} (h : dropBlanks cs = c :: rest)
    (hmessage : (word c rest).message = some message) :
    Scanned word position cs [(word c rest).item c (position + (cs.takeWhile isBlank).length)] := by
  obtain ⟨hcs, hgap, hc⟩ := exists_gap h
  rw [← hcs, List.takeWhile_append_of_pos hgap, List.takeWhile_cons_of_neg (by simp [hc]),
    List.append_nil]
  exact .error hgap hc hmessage

theorem of_item {cs rest : List Char} {c : Char} (h : dropBlanks cs = c :: rest)
    (hmessage : (word c rest).message = none)
    (hrest : Scanned word (position + (cs.takeWhile isBlank).length + (c :: (word c rest).more).length)
      (word c rest).rest items) :
    Scanned word position cs
      ((word c rest).item c (position + (cs.takeWhile isBlank).length) :: items) := by
  obtain ⟨hcs, hgap, hc⟩ := exists_gap h
  have hscanned := Scanned.item hgap hc hmessage hrest
  rwa [hcs] at hscanned

/-- There are no items in no text. -/
theorem eq_nil_of_nil {cs : List Char} (h : Scanned word position cs items) (hcs : cs = []) :
    items = [] := by
  cases h with
  | done => rfl
  | error => exact absurd hcs (by simp)
  | item => exact absurd hcs (by simp)

/-- The scan of a grammar that takes words ends, yields their items, and these tile the text. -/
theorem reaches (hscans : ScansWords grammar first word) (l : Lexer κ σ) {before cs : List Char}
    (h : Scanned word before.length cs items) :
    ∃ stop, ((l.going (some first)).reading before [] cs).Reaches grammar (2 * cs.length + 1)
        items stop ∧
      Tiled before.length (before ++ cs) items stop := by
  generalize hposition : before.length = position at h
  induction h generalizing l before with
  | @done position gap hgap =>
      subst hposition
      refine ⟨_, .of_le (m := 1) ?_ (by omega), .of_blanks hgap⟩
      rw [Lexer.Reaches, hscans.steps_done l before hgap]
      exact ⟨rfl, (List.append_nil _).symm, by simp⟩
  | @error position gap cs c message hgap hc hmessage =>
      subst hposition
      obtain ⟨n, hn, after, following, hafter, -, hsteps⟩ :=
        hscans.steps_taken l before cs hgap hc
      rw [Word.taken, hmessage] at hsteps
      refine ⟨_, .of_le (m := n) ?_ (by simp only [List.length_append, List.length_cons]; omega),
        Word.tiled_error (hscans.append c cs) hgap hmessage⟩
      rw [Lexer.Reaches, hsteps, ← List.length_append]
      exact ⟨rfl, congrArg (· ++ _) hafter, rfl⟩
  | @item position gap cs c items hgap hc hmessage hrest ih =>
      subst hposition
      obtain ⟨n, hn, after, state, hafter, hstate, hsteps⟩ :=
        hscans.steps_taken l before cs hgap hc
      rw [Word.taken, hmessage] at hsteps
      have hbehind : before.length + gap.length + (c :: (word c cs).more).length =
          (before ++ gap ++ c :: (word c cs).more).length := by
        rw [List.length_append, List.length_append]
      -- the scan ends behind the word, or it begins again
      obtain ⟨stop, hreaches, htiled⟩ : ∃ stop,
          (((after.queued ((word c cs).item c (before ++ gap).length)).going state).reading
            (before ++ gap ++ c :: (word c cs).more) [] (word c cs).rest).Reaches grammar
              (2 * (word c cs).rest.length + 1) items stop ∧
            Tiled (before ++ gap ++ c :: (word c cs).more).length
              (before ++ gap ++ c :: (word c cs).more ++ (word c cs).rest) items stop := by
        rcases hstate with rfl | ⟨rfl, hnil⟩
        · rw [← hbehind]
          exact ih _ hbehind.symm
        · obtain rfl := hrest.eq_nil_of_nil hnil
          rw [hnil]
          refine ⟨_, ?_, .of_blanks (by simp)⟩
          rw [Lexer.Reaches, Lexer.steps_of_ended rfl]
          exact ⟨rfl, (List.append_nil _).symm, by simp⟩
      have hcs := hscans.append c cs
      refine ⟨stop, ?_, Word.tiled_item hcs hgap hmessage htiled⟩
      have hlength := congrArg List.length hcs
      rw [List.length_append] at hlength
      refine .of_le (m := n + (2 * (word c cs).rest.length + 1)) ?_
        (by simp only [List.length_append, List.length_cons]; omega)
      obtain ⟨hended, hitems, hpos⟩ := hreaches
      rw [Lexer.Reaches, Lexer.steps_add, hsteps]
      refine ⟨hended, hitems.trans ?_, hpos⟩
      rw [Lexer.reading_items, Lexer.reading_items, Lexer.going_items, Lexer.going_items,
        Lexer.queued_items, hafter, List.append_assoc, List.length_append]
      rfl

end Scanned

end StoryEngine
