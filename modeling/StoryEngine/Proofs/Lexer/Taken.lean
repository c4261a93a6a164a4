import StoryEngine.Lexer.Runs
/-!
# StoryEngine.Proofs.Lexer.Taken

Items are taken from a lexer one by one, up to so many at a time, or all at once.

The states of a grammar read the source and the cursor, move the cursor, change the depth and queue
items (`CursorAction`); they do not look into the queue, and they do not know where the scan began.
So a step taken with items in front of the queue is the step taken without them, with the same items
in front (`Lexer.steps_behind`): this is what makes it harmless to take items while the scan is under
way. What a scan still yields (`Lexer.Yields`) is known before any of it is taken, and each way of
taking items takes them from its front and leaves the rest (`Lexer.Yields.take`). Whatever is done to
a lexer, a reset makes it a fresh one (`Lexer.Handled.reset_eq`).
-/

namespace StoryEngine

variable {κ σ α β : Type}

/-! ### Actions -/

/-- The lexer with items in front of its queue. -/
def Lexer.behind (l : Lexer κ σ) (earlier : List (LexerItem κ)) : Lexer κ σ :=
  { l with items := earlier ++ l.items }

@[simp] theorem Lexer.behind_items (l : Lexer κ σ) (earlier : List (LexerItem κ)) :
    (l.behind earlier).items = earlier ++ l.items :=
  rfl

@[simp] theorem Lexer.behind_state (l : Lexer κ σ) (earlier : List (LexerItem κ)) :
    (l.behind earlier).state = l.state :=
  rfl

/-- An action on a lexer that is made of the operations of the cursor, readings of the source, the
cursor and the depth, changes of the depth, and the queueing of items. -/
inductive CursorAction : {α : Type} → (Lexer κ σ → α × Lexer κ σ) → Prop where
  | pure {α : Type} (a : α) : CursorAction fun l => (a, l)
  | bind {α β : Type} {m : Lexer κ σ → α × Lexer κ σ} {f : α → Lexer κ σ → β × Lexer κ σ}
      (hm : CursorAction m) (hf : ∀ a, CursorAction (f a)) :
      CursorAction fun l => f (m l).1 (m l).2
  | read {α : Type} (f : Array Char → Nat → Nat → Int → α) :
      CursorAction fun l => (f l.source l.start l.pos l.depth, l)
  | next : CursorAction Lexer.next
  | backup (n : Nat) : CursorAction fun l => ((), l.backup n)
  | forward (n : Nat) : CursorAction fun l => ((), l.forward n)
  | ignore : CursorAction fun l => ((), l.ignore)
  | accept (test : Char → Bool) : CursorAction fun l => l.accept test
  | acceptRun (test : Char → Bool) : CursorAction fun l => ((), l.acceptRun test)
  | setDepth (depth : Int) : CursorAction fun l => ((), { l with depth := depth })
  | emit (kind : κ) : CursorAction fun l => ((), l.emit kind)
  | error (kind : κ) (message : String) : CursorAction fun l => ((), l.error kind message)

namespace CursorAction

variable {m : Lexer κ σ → α × Lexer κ σ}

theorem congr {m' : Lexer κ σ → α × Lexer κ σ} (h : CursorAction m) (heq : ∀ l, m l = m' l) :
    CursorAction m' :=
  funext heq ▸ h

theorem peek? : CursorAction fun l : Lexer κ σ => (l.peek?, l) :=
  .read fun source _ pos _ => source[pos]?

theorem pending : CursorAction fun l : Lexer κ σ => (l.pending, l) :=
  .read fun source start pos _ => String.ofList (source.extract start pos).toList

theorem rest : CursorAction fun l : Lexer κ σ => (l.rest, l) :=
  .read fun source _ pos _ => String.ofList (source.extract pos source.size).toList

theorem atEnd : CursorAction fun l : Lexer κ σ => (l.atEnd, l) :=
  .read fun source _ pos _ => decide (source.size ≤ pos)

theorem length : CursorAction fun l : Lexer κ σ => (l.length, l) :=
  .read fun source _ _ _ => source.size

theorem deepen (change : Int) : CursorAction fun l : Lexer κ σ => ((), l.deepen change) :=
  .bind (.read fun _ _ _ depth => depth) fun depth => .setDepth (depth + change)

/-- An action and an answer to it. -/
theorem andThen {after : Lexer κ σ → Lexer κ σ} (h : CursorAction fun l => ((), after l)) (a : α) :
    CursorAction fun l => (a, after l) :=
  .bind (f := fun _ l => (a, l)) h fun _ => .pure a

/-! ### What an action cannot see and does not touch -/

/-- An action does not look into the queue. -/
theorem behind (h : CursorAction m) (l : Lexer κ σ) (earlier : List (LexerItem κ)) :
    m (l.behind earlier) = ((m l).1, (m l).2.behind earlier) := by
  induction h generalizing l with
  | pure a => rfl
  | bind hm hf ihm ihf =>
      dsimp only
      rw [ihm]
      exact ihf _ _
  | read f => rfl
  | next =>
      simp only [Lexer.next, Lexer.peek?, Lexer.behind]
      cases l.source[l.pos]? <;> rfl
  | backup n => rfl
  | forward n => rfl
  | ignore => rfl
  | accept test =>
      simp only [Lexer.accept, Lexer.peek?, Lexer.behind]
      cases l.source[l.pos]? with
      | none => rfl
      | some c => by_cases htest : test c = true <;> simp [htest]
  | acceptRun test => rfl
  | setDepth depth => rfl
  | emit kind =>
      simp only [Lexer.emit, Lexer.behind, Lexer.pending, Lexer.slice, List.append_assoc]
  | error kind message =>
      simp only [Lexer.error, Lexer.behind, Lexer.pending, Lexer.slice, List.append_assoc]

/-- An action leaves the source and the state that the scan begins with alone. -/
theorem keeps (h : CursorAction m) (l : Lexer κ σ) :
    (m l).2.source = l.source ∧ (m l).2.initial = l.initial := by
  induction h generalizing l with
  | bind hm hf ihm ihf => exact ⟨(ihf _ _).1.trans (ihm l).1, (ihf _ _).2.trans (ihm l).2⟩
  | next =>
      rw [Lexer.next]
      split <;> exact ⟨rfl, rfl⟩
  | accept test =>
      simp only [Lexer.accept]
      split
      · split <;> exact ⟨rfl, rfl⟩
      · exact ⟨rfl, rfl⟩
  | _ => exact ⟨rfl, rfl⟩

end CursorAction

/-! ### Grammars -/

/-- The steps of the grammar are made of the operations of the cursor. -/
def LexerGrammar.Operates (grammar : LexerGrammar κ σ) : Prop :=
  ∀ state, CursorAction fun l => (grammar state l).swap

theorem runGrammar_operates : LexerGrammar.Operates runGrammar := by
  intro state
  cases state with
  | start =>
      refine .congr (.bind (f := fun c? l => c?.elim (none, l) fun c =>
        if c.isDigit then (some .digits, l)
        else if isAlphabetic c then (some .letters, l)
        else (none, (l.forward 1).error .error
          ("unexpected character '" ++ String.singleton c ++ "'"))) .peek? ?_) ?_
      · intro c?
        cases c? with
        | none => exact .pure none
        | some c =>
            simp only [Option.elim_some]
            split
            · exact .pure _
            · split
              · exact .pure _
              · exact .bind (.forward 1) fun _ => .andThen (.error _ _) none
      · intro l
        rw [runGrammar]
        cases l.peek? with
        | none => rfl
        | some c =>
            simp only [Option.elim_some]
            split
            · rfl
            · split <;> rfl
  | digits => exact .bind (.acceptRun _) fun _ => .andThen (.emit _) _
  | letters => exact .bind (.acceptRun _) fun _ => .andThen (.emit _) _

namespace Lexer

variable {grammar : LexerGrammar κ σ} {l l' : Lexer κ σ}

theorem step?_keeps (hops : grammar.Operates) (h : l.step? grammar = some l') :
    l'.source = l.source ∧ l'.initial = l.initial := by
  obtain ⟨state, -, rfl⟩ := Option.map_eq_some_iff.mp h
  exact (hops state).keeps l

theorem steps_keeps (hops : grammar.Operates) (n : Nat) (l : Lexer κ σ) :
    (l.steps grammar n).source = l.source ∧ (l.steps grammar n).initial = l.initial := by
  induction n generalizing l with
  | zero => exact ⟨rfl, rfl⟩
  | succ n ih =>
      rw [steps]
      split
      next after hstep =>
        have hkeeps := step?_keeps hops hstep
        exact ⟨(ih after).1.trans hkeeps.1, (ih after).2.trans hkeeps.2⟩
      next => exact ⟨rfl, rfl⟩

theorem step?_behind (hops : grammar.Operates) (l : Lexer κ σ) (earlier : List (LexerItem κ)) :
    (l.behind earlier).step? grammar = (l.step? grammar).map (·.behind earlier) := by
  rw [step?, step?, behind_state, Option.map_map]
  refine Option.map_congr fun state _ => ?_
  have hbehind := (hops state).behind l earlier
  rw [Prod.ext_iff] at hbehind
  obtain ⟨hstate, hlexer⟩ := hbehind
  simp only [Prod.fst_swap, Prod.snd_swap] at hstate hlexer
  simp only [Function.comp_apply, hstate, hlexer]
  rfl

/-- Items in front of the queue stay there, whatever steps are taken. -/
theorem steps_behind (hops : grammar.Operates) (n : Nat) (l : Lexer κ σ)
    (earlier : List (LexerItem κ)) :
    (l.behind earlier).steps grammar n = (l.steps grammar n).behind earlier := by
  induction n generalizing l with
  | zero => rfl
  | succ n ih =>
      rw [steps, steps, step?_behind hops]
      cases l.step? grammar with
      | none => rfl
      | some after => exact ih after

end Lexer

/-! ### Taking items -/

/-- A way to take items from a lexer. -/
inductive Taking where
  /-- The next item. -/
  | next
  /-- One item after another, up to so many of them. -/
  | upTo (count : Nat)
  /-- All items that are left. -/
  | all

/-- What is taken of the items that are left. -/
def Taking.of : Taking → List α → List α
  | .next, items => items.take 1
  | .upTo count, items => items.take count
  | .all, items => items

/-- What is left of them. -/
def Taking.leave : Taking → List α → List α
  | .next, items => items.drop 1
  | .upTo count, items => items.drop count
  | .all, _ => []

theorem Taking.of_append_leave (taking : Taking) (items : List α) :
    taking.of items ++ taking.leave items = items := by
  cases taking with
  | next => exact List.take_append_drop 1 items
  | upTo count => exact List.take_append_drop count items
  | all => exact List.append_nil items

namespace Lexer

/-- Take items in one way. -/
def take (grammar : LexerGrammar κ σ) (n : Nat) :
    Taking → Lexer κ σ → List (LexerItem κ) × Lexer κ σ
  | .next, l => ((l.nextItem grammar n).1.toList, (l.nextItem grammar n).2)
  | .upTo count, l => l.takeItems grammar n count
  | .all, l => l.run grammar n

/-- Take items in one way after another. -/
def takes (grammar : LexerGrammar κ σ) (n : Nat) :
    List Taking → Lexer κ σ → List (LexerItem κ) × Lexer κ σ
  | [], l => ([], l)
  | taking :: takings, l =>
    let further := takes grammar n takings (l.take grammar n taking).2
    ((l.take grammar n taking).1 ++ further.1, further.2)

/-! ### Steps -/

section Steps

variable {grammar : LexerGrammar κ σ} {l l' : Lexer κ σ}

theorem steps_of_step? (h : l.step? grammar = some l') (n : Nat) :
    l.steps grammar (n + 1) = l'.steps grammar n := by
  rw [steps, h]

theorem step?_eq_none_iff : l.step? grammar = none ↔ l.state = none := by
  rw [step?, Option.map_eq_none_iff]

theorem steps_of_ended (h : l.state = none) (n : Nat) : l.steps grammar n = l := by
  cases n with
  | zero => rfl
  | succ n => rw [steps, step?_eq_none_iff.mpr h]

theorem steps_add (m n : Nat) (l : Lexer κ σ) :
    l.steps grammar (m + n) = (l.steps grammar m).steps grammar n := by
  induction m generalizing l with
  | zero => rw [Nat.zero_add, steps]
  | succ m ih =>
      rw [Nat.succ_add_eq_add_succ, Nat.add_succ]
      cases hstep : l.step? grammar with
      | none =>
          rw [step?_eq_none_iff] at hstep
          rw [steps_of_ended hstep, steps_of_ended hstep, steps_of_ended hstep]
      | some after => rw [steps_of_step? hstep, steps_of_step? hstep, ih]

/-- More steps than the scan takes change nothing. -/
theorem steps_of_le {m n : Nat} (h : (l.steps grammar m).state = none) (hle : m ≤ n) :
    l.steps grammar n = l.steps grammar m := by
  obtain ⟨k, rfl⟩ := Nat.exists_eq_add_of_le hle
  rw [steps_add, steps_of_ended h]

end Steps

/-! ### What a scan yields -/

/-- Up to `n` steps bring the scan to its end, with these items in the queue. -/
structure Yields (grammar : LexerGrammar κ σ) (n : Nat) (l : Lexer κ σ)
    (items : List (LexerItem κ)) : Prop where
  ended : (l.steps grammar n).state = none
  items : (l.steps grammar n).items = items

namespace Yields

variable {grammar : LexerGrammar κ σ} {l after : Lexer κ σ} {items : List (LexerItem κ)} {n : Nat}

theorem run_eq (h : Yields grammar n l items) : (l.run grammar n).1 = items :=
  h.items

theorem of_step? (hstep : l.step? grammar = some after) (h : Yields grammar n after items) :
    Yields grammar (n + 1) l items :=
  ⟨steps_of_step? hstep n ▸ h.ended, steps_of_step? hstep n ▸ h.items⟩

theorem of_le {m : Nat} (h : Yields grammar n l items) (hle : n ≤ m) : Yields grammar m l items :=
  ⟨steps_of_le h.ended hle ▸ h.ended, steps_of_le h.ended hle ▸ h.items⟩

theorem of_ended (h : l.state = none) : Yields grammar n l l.items :=
  ⟨(steps_of_ended h n).symm ▸ h, by rw [steps_of_ended h n]⟩

/-- What is queued comes first. -/
theorem of_behind (hops : grammar.Operates) {earlier : List (LexerItem κ)}
    (h : Yields grammar n (l.behind earlier) items) :
    ∃ rest, items = earlier ++ rest ∧ Yields grammar n l rest := by
  obtain ⟨hended, rfl⟩ := h
  rw [steps_behind hops] at hended
  exact ⟨_, congrArg Lexer.items (steps_behind hops n l earlier), hended, rfl⟩

/-- The next item is the first one that the scan yields; the scan then yields the others. -/
theorem nextItem (hops : grammar.Operates) (h : Yields grammar n l items) :
    (l.nextItem grammar n).1 = items.head? ∧
      Yields grammar n (l.nextItem grammar n).2 items.tail := by
  induction n generalizing l with
  | zero =>
      rw [Lexer.nextItem]
      split
      next item queued hqueue =>
        obtain rfl : l.items = items := h.items
        rw [hqueue]
        exact ⟨rfl, h.ended, rfl⟩
      next hqueue =>
        obtain rfl : l.items = items := h.items
        rw [hqueue]
        exact ⟨rfl, h.ended, hqueue⟩
  | succ n ih =>
      rw [Lexer.nextItem]
      split
      next item queued hqueue =>
        -- the scan would yield the same behind any queue, so what is queued can be taken from it
        have hbehind : l = { l with items := queued }.behind [item] := by
          rw [behind, List.singleton_append, ← hqueue]
        rw [hbehind] at h
        obtain ⟨rest, rfl, hrest⟩ := h.of_behind hops
        exact ⟨rfl, hrest⟩
      next hqueue =>
        split
        next after hstep =>
          have hafter : Yields grammar n after items :=
            ⟨steps_of_step? hstep n ▸ h.ended, steps_of_step? hstep n ▸ h.items⟩
          obtain ⟨hhead, htail⟩ := ih hafter
          exact ⟨hhead, htail.of_le (Nat.le_succ n)⟩
        next hstep =>
          rw [step?_eq_none_iff] at hstep
          obtain rfl : l.items = items := by rw [← h.items, steps_of_ended hstep]
          exact ⟨by rw [hqueue]; rfl, by rw [hqueue, List.tail_nil, ← hqueue]; exact of_ended hstep⟩

theorem takeItems (hops : grammar.Operates) (count : Nat) (h : Yields grammar n l items) :
    (l.takeItems grammar n count).1 = items.take count ∧
      Yields grammar n (l.takeItems grammar n count).2 (items.drop count) := by
  induction count generalizing l items with
  | zero => exact ⟨rfl, h⟩
  | succ count ih =>
      obtain ⟨hhead, htail⟩ := h.nextItem hops
      rw [Lexer.takeItems]
      split
      next after hnext =>
        rw [hnext] at hhead htail
        obtain rfl := List.head?_eq_none_iff.mp hhead.symm
        exact ⟨rfl, htail⟩
      next item after hnext =>
        rw [hnext] at hhead htail
        obtain ⟨rest, rfl⟩ := List.head?_eq_some_iff.mp hhead.symm
        obtain ⟨htaken, hleft⟩ := ih htail
        exact ⟨congrArg (item :: ·) htaken, hleft⟩

theorem run (h : Yields grammar n l items) : Yields grammar n (l.run grammar n).2 [] :=
  of_ended h.ended

/-- Items are taken from the front of what the scan yields. -/
theorem take (hops : grammar.Operates) (taking : Taking) (h : Yields grammar n l items) :
    (l.take grammar n taking).1 = taking.of items ∧
      Yields grammar n (l.take grammar n taking).2 (taking.leave items) := by
  cases taking with
  | next =>
      obtain ⟨hhead, htail⟩ := h.nextItem hops
      rw [Lexer.take, Taking.of, Taking.leave, List.take_one, List.drop_one]
      exact ⟨congrArg Option.toList hhead, htail⟩
  | upTo count => exact h.takeItems hops count
  | all => exact ⟨h.run_eq, h.run⟩

/-- However items are taken, they and those that the scan still yields are all of them. -/
theorem takes (hops : grammar.Operates) (takings : List Taking) (h : Yields grammar n l items) :
    ∃ rest, (l.takes grammar n takings).1 ++ rest = items ∧
      Yields grammar n (l.takes grammar n takings).2 rest := by
  induction takings generalizing l items with
  | nil => exact ⟨items, rfl, h⟩
  | cons taking takings ih =>
      obtain ⟨htaken, hleft⟩ := h.take hops taking
      obtain ⟨rest, hrest, hyields⟩ := ih hleft
      refine ⟨rest, ?_, hyields⟩
      dsimp only [Lexer.takes]
      rw [htaken, List.append_assoc, hrest, taking.of_append_leave]

end Yields

/-! ### Resetting -/

/-- The lexers that operations make of a fresh one: actions of any kind, cursors set at will, items
taken while the scan is under way or at its end, and resets. The text is the one that the last reset
has given. -/
inductive Handled (grammar : LexerGrammar κ σ) (initial : σ) : String → Lexer κ σ → Prop where
  | fresh (source : String) : Handled grammar initial source (ofSource source initial)
  | act {source : String} {l : Lexer κ σ} {α : Type} {m : Lexer κ σ → α × Lexer κ σ}
      (h : Handled grammar initial source l) (hm : CursorAction m) :
      Handled grammar initial source (m l).2
  | place {source : String} {l : Lexer κ σ} (h : Handled grammar initial source l)
      (start pos : Nat) (depth : Int) :
      Handled grammar initial source { l with start := start, pos := pos, depth := depth }
  | take {source : String} {l : Lexer κ σ} (h : Handled grammar initial source l) (n : Nat)
      (taking : Taking) : Handled grammar initial source (l.take grammar n taking).2
  | reset {source : String} {l : Lexer κ σ} (h : Handled grammar initial source l) :
      Handled grammar initial source l.reset
  | resetWith {source : String} {l : Lexer κ σ} (h : Handled grammar initial source l)
      (text : String) : Handled grammar initial text (l.resetWith text)

section Keeping

variable {grammar : LexerGrammar κ σ}

theorem nextItem_keeps (hops : grammar.Operates) (n : Nat) (l : Lexer κ σ) :
    (l.nextItem grammar n).2.source = l.source ∧
      (l.nextItem grammar n).2.initial = l.initial := by
  induction n generalizing l with
  | zero => rw [nextItem]; split <;> exact ⟨rfl, rfl⟩
  | succ n ih =>
      rw [nextItem]
      split
      next => exact ⟨rfl, rfl⟩
      next =>
        split
        next after hstep =>
          have hkeeps := step?_keeps hops hstep
          exact ⟨(ih after).1.trans hkeeps.1, (ih after).2.trans hkeeps.2⟩
        next => exact ⟨rfl, rfl⟩

theorem takeItems_keeps (hops : grammar.Operates) (n count : Nat) (l : Lexer κ σ) :
    (l.takeItems grammar n count).2.source = l.source ∧
      (l.takeItems grammar n count).2.initial = l.initial := by
  induction count generalizing l with
  | zero => exact ⟨rfl, rfl⟩
  | succ count ih =>
      have hkeeps := nextItem_keeps hops n l
      rw [takeItems]
      split
      next after hnext => rwa [hnext] at hkeeps
      next item after hnext =>
        rw [hnext] at hkeeps
        exact ⟨(ih after).1.trans hkeeps.1, (ih after).2.trans hkeeps.2⟩

theorem take_keeps (hops : grammar.Operates) (n : Nat) (taking : Taking) (l : Lexer κ σ) :
    (l.take grammar n taking).2.source = l.source ∧
      (l.take grammar n taking).2.initial = l.initial := by
  cases taking with
  | next => exact nextItem_keeps hops n l
  | upTo count => exact takeItems_keeps hops n count l
  | all => exact steps_keeps hops n l

end Keeping

namespace Handled

variable {grammar : LexerGrammar κ σ} {initial : σ} {source : String} {l : Lexer κ σ}

/-- Only a reset to another text changes the source. -/
theorem keeps (hops : grammar.Operates) (h : Handled grammar initial source l) :
    l.source = source.toList.toArray ∧ l.initial = initial := by
  induction h with
  | fresh source => exact ⟨rfl, rfl⟩
  | @act _ l _ m _ hm ih => exact ⟨(hm.keeps l).1.trans ih.1, (hm.keeps l).2.trans ih.2⟩
  | place _ _ _ _ ih => exact ih
  | @take _ l _ n taking ih =>
      have hkeeps := take_keeps hops n taking l
      exact ⟨hkeeps.1.trans ih.1, hkeeps.2.trans ih.2⟩
  | reset _ ih => exact ih
  | resetWith _ _ ih => exact ⟨rfl, ih.2⟩

/-- A lexer that is reset is a fresh one. -/
theorem reset_eq (hops : grammar.Operates) (h : Handled grammar initial source l) :
    l.reset = ofSource source initial := by
  rw [Lexer.reset, (h.keeps hops).1, (h.keeps hops).2, ofSource]

theorem resetWith_eq (hops : grammar.Operates) (h : Handled grammar initial source l)
    (text : String) : l.resetWith text = ofSource text initial := by
  rw [Lexer.resetWith, (h.keeps hops).2]

end Handled

end Lexer

end StoryEngine
