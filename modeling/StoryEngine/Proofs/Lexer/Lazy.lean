import Mathlib
import StoryEngine.Proofs.Lexer.Reading
import StoryEngine.Proofs.Lexer.Taken
/-!
# StoryEngine.Proofs.Lexer.Lazy

It makes no difference to the items of a scan whether they are taken one by one while the scan is
under way or all at once at its end, nor what has been done to a lexer before it is reset
(`taken_as_run`). This holds for every grammar that is made of the operations of the cursor and whose
scan ends.

That of digits and letters is one. The items that it yields are written down as a recursion on the
text (`runsFrom`), and the scan is seen to yield them in so many steps (`yields_runsFrom`); then they
are seen to be the longest runs of digits and of letters at the front of the text, and an error for
the character behind these (`runsBehind_runsFrom`).
-/

namespace StoryEngine

variable {κ σ : Type}

/-! ### Kinds of runs -/

namespace RunKind

/-- The characters that a run of the kind is made of. -/
def covers : RunKind → Char → Bool
  | .digits => Char.isDigit
  | .letters => isAlphabetic
  | .error => fun _ => false

/-- The kind of the run that the character begins, if it begins one. -/
def of (c : Char) : RunKind :=
  if c.isDigit then .digits else if isAlphabetic c then .letters else .error

/-- The character is part of a run. -/
def inRun (c : Char) : Bool :=
  c.isDigit || isAlphabetic c

theorem of_eq_error_iff {c : Char} : of c = .error ↔ inRun c = false := by
  rw [of, inRun]
  cases c.isDigit <;> cases isAlphabetic c <;> simp

theorem covers_of {c : Char} (h : of c ≠ .error) : (of c).covers c = true := by
  by_cases hdigit : c.isDigit = true
  · simp [of, hdigit, covers]
  · by_cases hletter : isAlphabetic c = true
    · simp [of, hdigit, hletter, covers]
    · simp [of, hdigit, hletter] at h

theorem inRun_of_covers {kind : RunKind} {c : Char} (h : kind.covers c = true) :
    inRun c = true := by
  cases kind with
  | digits => exact Bool.or_eq_true_iff.mpr (.inl h)
  | letters => exact Bool.or_eq_true_iff.mpr (.inr h)
  | error => cases h

theorem not_isAlphabetic_of_isDigit {c : Char} (h : c.isDigit = true) : isAlphabetic c = false := by
  have hvalue : 48 ≤ c.toNat ∧ c.toNat ≤ 57 := by
    simp only [Char.isDigit, Bool.and_eq_true, decide_eq_true_eq, ge_iff_le,
      UInt32.le_iff_toNat_le] at h
    exact h
  rw [isAlphabetic, if_pos (by omega)]
  rw [← Char.toNat_val] at hvalue
  simp only [Char.isAlpha, Char.isUpper, Char.isLower, UInt32.le_iff_toNat_le, ge_iff_le,
    Bool.or_eq_false_iff, Bool.and_eq_false_iff, decide_eq_false_iff_not]
  have hA : 'A'.val.toNat = 65 := rfl
  have ha : 'a'.val.toNat = 97 := rfl
  omega

/-- No character is part of runs of two kinds. -/
theorem eq_of_covers {kind kind' : RunKind} {c : Char} (h : kind.covers c = true)
    (h' : kind'.covers c = true) : kind = kind' := by
  cases kind <;> cases kind' <;> simp only [covers] at h h' <;>
    first
    | rfl
    | cases h
    | cases h'
    | (rw [not_isAlphabetic_of_isDigit h] at h'; cases h')
    | (rw [not_isAlphabetic_of_isDigit h'] at h; cases h)

/-- The state inside a run of the kind. -/
def state : RunKind → RunState
  | .digits => .digits
  | .letters => .letters
  | .error => .start

theorem runGrammar_state {kind : RunKind} (h : kind ≠ .error) (l : Lexer RunKind RunState) :
    runGrammar kind.state l = ((l.acceptRun kind.covers).emit kind, some .start) := by
  cases kind with
  | digits => rfl
  | letters => rfl
  | error => exact absurd rfl h

end RunKind

/-- The error for a character that is part of no run. -/
def unexpectedItem (position : Nat) (c : Char) : LexerItem RunKind :=
  ⟨.error, String.singleton c, position, position + 1,
    some ("unexpected character '" ++ String.singleton c ++ "'")⟩

/-- The runs at the front of the characters, which begin at the position, and the error for the
character behind them. -/
def runsFrom (position : Nat) : List Char → List (LexerItem RunKind)
  | [] => []
  | c :: cs =>
    if RunKind.of c = .error then [unexpectedItem position c]
    else
      let run := c :: cs.takeWhile (RunKind.of c).covers
      ⟨RunKind.of c, String.ofList run, position, position + run.length, none⟩ ::
        runsFrom (position + run.length) (cs.dropWhile (RunKind.of c).covers)
termination_by cs => cs.length
decreasing_by exact Nat.lt_succ_of_le (List.dropWhile_sublist _).length_le

/-! ### The scan -/

section Scan

open Lexer

variable (l : Lexer RunKind RunState) (before cs : List Char) (c : Char)

theorem step?_end :
    ((l.going (some .start)).reading before [] []).step? runGrammar =
      some ((l.going none).reading before [] []) := by
  rw [step?_reading, runGrammar, peek?_reading]
  rfl

theorem step?_unexpected (h : RunKind.of c = .error) :
    ((l.going (some .start)).reading before [] (c :: cs)).step? runGrammar =
      some (((l.queued (unexpectedItem before.length c)).going none).reading before [c] cs) := by
  have hnot := RunKind.of_eq_error_iff.mp h
  rw [RunKind.inRun, Bool.or_eq_false_iff] at hnot
  rw [step?_reading, runGrammar, peek?_reading, List.head?_cons]
  dsimp only
  rw [if_neg (by simp [hnot.1]), if_neg (by simp [hnot.2]), forward_reading_cons, error_reading]
  rfl

/-- The first character of a run tells its kind. -/
theorem step?_begin (h : RunKind.of c ≠ .error) :
    ((l.going (some .start)).reading before [] (c :: cs)).step? runGrammar =
      some ((l.going (some (RunKind.of c).state)).reading before [] (c :: cs)) := by
  rw [step?_reading, runGrammar, peek?_reading, List.head?_cons]
  dsimp only
  by_cases hdigit : c.isDigit = true
  · rw [if_pos hdigit, RunKind.of, if_pos hdigit]
    rfl
  · have hletter : isAlphabetic c = true := by
      have hrun := RunKind.inRun_of_covers (RunKind.covers_of h)
      rwa [RunKind.inRun, Bool.or_eq_true_iff, or_iff_right hdigit] at hrun
    rw [if_neg hdigit, if_pos hletter, RunKind.of, if_neg hdigit, if_pos hletter]
    rfl

/-- The whole run is taken. -/
theorem steps_run (h : RunKind.of c ≠ .error) :
    ((l.going (some .start)).reading before [] (c :: cs)).steps runGrammar 2 =
      let run := c :: cs.takeWhile (RunKind.of c).covers
      ((l.queued ⟨RunKind.of c, String.ofList run, before.length, before.length + run.length,
        none⟩).going (some .start)).reading (before ++ run) []
          (cs.dropWhile (RunKind.of c).covers) := by
  have hcovers := RunKind.covers_of h
  rw [steps_of_step? (step?_begin l before cs c h), steps, step?_reading,
    RunKind.runGrammar_state h, acceptRun_reading, emit_reading,
    List.takeWhile_cons_of_pos hcovers, List.dropWhile_cons_of_pos hcovers]
  rfl

/-- Two steps for every run and one at the end bring the scan to its end. -/
theorem yields_runsFrom :
    Yields runGrammar (2 * cs.length + 2) ((l.going (some .start)).reading before [] cs)
      (l.items ++ runsFrom before.length cs) := by
  -- by the number of characters, since a run takes two steps however long it is
  induction hn : cs.length using Nat.strongRecOn generalizing l before cs with
  | ind n ih =>
    subst hn
    cases cs with
    | nil =>
        refine .of_le (n := 1) (.of_step? (step?_end l before) ?_) (by omega)
        rw [runsFrom, List.append_nil]
        exact .of_ended rfl
    | cons c cs =>
        rw [runsFrom]
        split
        next h =>
          exact .of_le (n := 1) (.of_step? (step?_unexpected l before cs c h) (.of_ended rfl))
            (by omega)
        next h =>
          have hle : (cs.dropWhile (RunKind.of c).covers).length ≤ cs.length :=
            (List.dropWhile_sublist _).length_le
          have hrest := ih _ (Nat.lt_succ_of_le hle)
            (l.queued ⟨RunKind.of c,
              String.ofList (c :: cs.takeWhile (RunKind.of c).covers), before.length,
              before.length + (c :: cs.takeWhile (RunKind.of c).covers).length, none⟩)
            (before ++ c :: cs.takeWhile (RunKind.of c).covers) _ rfl
          rw [queued_items, List.append_assoc, List.length_append, List.singleton_append] at hrest
          refine .of_le (n := 2 + (2 * (cs.dropWhile (RunKind.of c).covers).length + 2)) ?_
            (by rw [List.length_cons]; omega)
          have hsteps := steps_run l before cs c h
          exact ⟨by rw [steps_add, hsteps]; exact hrest.ended,
            by rw [steps_add, hsteps]; exact hrest.items⟩

end Scan

/-! ### Longest runs -/

/-- The item is a run in the text: all characters of it are of its kind, and the characters next to
it are not. -/
structure LexerItem.IsRun (cs : List Char) (item : LexerItem RunKind) : Prop where
  message : item.message = none
  nonempty : item.start < item.pos
  bound : item.pos ≤ cs.length
  text : item.text.toList = (cs.take item.pos).drop item.start
  covered : ∀ c ∈ item.text.toList, item.kind.covers c = true
  left : ∀ c ∈ (cs.take item.start).getLast?, item.kind.covers c = false
  right : ∀ c ∈ (cs.drop item.pos).head?, item.kind.covers c = false

/-- The items are the runs at the front of the characters, of which some text has been scanned
before. They alternate in kind and leave nothing out, and behind them is an error for the first
character that is part of no run, if there is one. -/
structure RunsBehind (before cs : List Char) (runs failures : List (LexerItem RunKind)) : Prop where
  run : ∀ item ∈ runs, item.IsRun (before ++ cs)
  alternate : runs.IsChain fun item next => item.kind ≠ next.kind ∧ item.pos = next.start
  texts : runs.flatMap (·.text.toList) = cs.takeWhile RunKind.inRun
  failure : failures = (cs.dropWhile RunKind.inRun).head?.toList.map
    (unexpectedItem (before.length + (cs.takeWhile RunKind.inRun).length))

/-- The items are the runs at the front of a text. -/
abbrev RunsOf (cs : List Char) (runs failures : List (LexerItem RunKind)) : Prop :=
  RunsBehind [] cs runs failures

section Longest

variable {before cs rest : List Char} {c : Char}

theorem inRun_takeWhile_of {kind : RunKind} (hrest : ∀ d ∈ cs, kind.covers d = true)
    (more : List Char) :
    (cs ++ more).takeWhile RunKind.inRun = cs ++ more.takeWhile RunKind.inRun ∧
      (cs ++ more).dropWhile RunKind.inRun = more.dropWhile RunKind.inRun := by
  have hrun : ∀ d ∈ cs, RunKind.inRun d = true := fun d hd =>
    RunKind.inRun_of_covers (hrest d hd)
  exact ⟨List.takeWhile_append_of_pos hrun, List.dropWhile_append_of_pos hrun⟩

/-- A character that cannot be in a run begins one of another kind, to which no character of that
run can belong. -/
theorem not_covers_of_ne {kind : RunKind} {b : Char} (hb : kind.covers b = true)
    (h : kind ≠ .error) (hc : kind.covers c = false) : (RunKind.of c).covers b = false := by
  refine Bool.eq_false_iff.mpr fun hof => ?_
  have hkind : RunKind.of c = kind := RunKind.eq_of_covers hof hb
  have hcovers := RunKind.covers_of (hkind ▸ h : RunKind.of c ≠ .error)
  rw [hkind, hc] at hcovers
  cases hcovers

/-- The longest run of a kind in the middle of a text is a run in the text, unless the character
in front of it could belong to it. -/
theorem isRun_of {kind : RunKind} {run : List Char} (hnil : run ≠ [])
    (hrun : ∀ d ∈ run, kind.covers d = true)
    (hleft : ∀ b ∈ before.getLast?, kind.covers b = false)
    (hright : ∀ d ∈ rest.head?, kind.covers d = false) :
    LexerItem.IsRun (before ++ (run ++ rest))
      ⟨kind, String.ofList run, before.length, before.length + run.length, none⟩ where
  message := rfl
  nonempty := Nat.lt_add_of_pos_right (List.length_pos_iff.mpr hnil)
  bound := by simp only [List.length_append]; omega
  text := by
    rw [← List.append_assoc, ← List.length_append, List.take_left', List.drop_left',
      String.toList_ofList] <;> rfl
  covered := by simpa using hrun
  left := by simpa using hleft
  right := by
    rw [← List.append_assoc, ← List.length_append, List.drop_left' rfl]
    exact hright

/-- A longest run in front of runs that begin with one of another kind. -/
theorem RunsBehind.cons {kind : RunKind} {run : List Char} {runs failures : List (LexerItem RunKind)}
    (hnil : run ≠ []) (hrun : ∀ d ∈ run, kind.covers d = true)
    (hleft : ∀ b ∈ before.getLast?, kind.covers b = false)
    (hright : ∀ d ∈ rest.head?, kind.covers d = false)
    (hruns : RunsBehind (before ++ run) rest runs failures)
    (hfirst : ∀ next ∈ runs.head?, kind ≠ next.kind ∧ before.length + run.length = next.start) :
    RunsBehind before (run ++ rest)
      (⟨kind, String.ofList run, before.length, before.length + run.length, none⟩ :: runs)
      failures := by
  obtain ⟨htake, hdrop⟩ := inRun_takeWhile_of hrun rest
  refine ⟨List.forall_mem_cons.mpr ⟨isRun_of hnil hrun hleft hright, ?_⟩,
    List.isChain_cons.mpr ⟨hfirst, hruns.alternate⟩, ?_, ?_⟩
  · rw [← List.append_assoc]
    exact hruns.run
  · rw [List.flatMap_cons, hruns.texts, String.toList_ofList, htake]
  · rw [hruns.failure, htake, hdrop, List.length_append, List.length_append, Nat.add_assoc]

/-- A character of a run is the first one of a longest run. -/
theorem exists_run (h : RunKind.of c ≠ .error) (cs : List Char) :
    ∃ run rest, c :: cs = run ++ rest ∧ run ≠ [] ∧
      (∀ d ∈ run, (RunKind.of c).covers d = true) ∧
      (∀ d ∈ rest.head?, (RunKind.of c).covers d = false) ∧
      ∀ position, runsFrom position (c :: cs) =
        ⟨RunKind.of c, String.ofList run, position, position + run.length, none⟩ ::
          runsFrom (position + run.length) rest := by
  refine ⟨c :: cs.takeWhile (RunKind.of c).covers, cs.dropWhile (RunKind.of c).covers, ?_,
    List.cons_ne_nil _ _, ?_, ?_, ?_⟩
  · rw [List.cons_append, List.takeWhile_append_dropWhile]
  · exact List.forall_mem_cons.mpr ⟨RunKind.covers_of h, fun d => List.mem_takeWhile_imp⟩
  · intro d hd
    have hhead := List.head?_dropWhile_not (RunKind.of c).covers cs
    rw [Option.mem_def.mp hd] at hhead
    exact hhead
  · intro position
    rw [runsFrom, if_neg h]

/-- The items of the recursion are the runs, if the character in front of them could not belong to
the first one. -/
theorem runsBehind_runsFrom
    (hleft : ∀ b ∈ before.getLast?, ∀ c ∈ cs.head?, (RunKind.of c).covers b = false) :
    ∃ runs failures, runsFrom before.length cs = runs ++ failures ∧
      RunsBehind before cs runs failures ∧
      ∀ first ∈ runs.head?, first.start = before.length ∧
        ∃ c ∈ cs.head?, first.kind = RunKind.of c := by
  induction hn : cs.length using Nat.strongRecOn generalizing before cs with
  | ind n ih =>
    subst hn
    cases cs with
    | nil => exact ⟨[], [], by rw [runsFrom]; rfl, ⟨by simp, .nil, rfl, rfl⟩, by simp⟩
    | cons c cs =>
        by_cases h : RunKind.of c = .error
        · have hnot := RunKind.of_eq_error_iff.mp h
          refine ⟨[], [unexpectedItem before.length c], by rw [runsFrom, if_pos h]; rfl,
            ⟨by simp, .nil, ?_, ?_⟩, by simp⟩
          · rw [List.takeWhile_cons_of_neg (by simp [hnot])]
            rfl
          · rw [List.takeWhile_cons_of_neg (by simp [hnot]),
              List.dropWhile_cons_of_neg (by simp [hnot])]
            rfl
        · obtain ⟨run, rest, hcs, hnil, hrun, hright, hitems⟩ := exists_run h cs
          -- the run has ended where its kind did, so the next one is of another kind
          have hlast : ∀ b ∈ (before ++ run).getLast?, ∀ d ∈ rest.head?,
              (RunKind.of d).covers b = false := by
            intro b hb d hd
            rw [List.getLast?_append_of_ne_nil _ hnil] at hb
            exact not_covers_of_ne (hrun b (List.mem_of_getLast? hb)) h (hright d hd)
          have hlength : rest.length < (c :: cs).length := by
            rw [hcs, List.length_append]
            exact Nat.lt_add_of_pos_left (List.length_pos_iff.mpr hnil)
          obtain ⟨runs, failures, hrest, hruns, hfirst⟩ := ih _ hlength hlast rfl
          have hmore : runsFrom before.length (c :: cs) =
              ⟨RunKind.of c, String.ofList run, before.length, before.length + run.length, none⟩ ::
                runs ++ failures := by
            rw [hitems, ← List.length_append, hrest]
            rfl
          rw [hmore, hcs]
          refine ⟨_, failures, rfl, hruns.cons hnil hrun (hleft · · c rfl) hright ?_, ?_⟩
          · intro next hnext
            obtain ⟨hstart, d, hd, hkind⟩ := hfirst next hnext
            refine ⟨fun heq => ?_, by rw [hstart, List.length_append]⟩
            have hcovers := RunKind.covers_of (heq.trans hkind ▸ h : RunKind.of d ≠ .error)
            rw [← hkind, ← heq, hright d hd] at hcovers
            cases hcovers
          · rintro first ⟨rfl⟩
            exact ⟨rfl, c, hcs ▸ rfl, rfl⟩

end Longest

/-- The scan yields the runs at the front of the text and the error behind them. -/
theorem runsOf_run (source : String) {n : Nat}
    (h : runSteps (Lexer.ofSource source .start) ≤ n) :
    ((Lexer.ofSource source .start).steps runGrammar n).state = none ∧
      ∃ runs failures, ((Lexer.ofSource source .start).run runGrammar n).1 = runs ++ failures ∧
        RunsOf source.toList runs failures := by
  have hyields := (yields_runsFrom (Lexer.ofSource "" .start) [] source.toList).of_le (m := n) (by
    refine Nat.le_trans ?_ h
    simp [runSteps, Lexer.length, Lexer.ofSource])
  obtain ⟨runs, failures, hitems, hruns, -⟩ :=
    @runsBehind_runsFrom [] source.toList (by simp)
  rw [← Lexer.ofSource_eq_reading] at hyields
  exact ⟨hyields.ended, runs, failures, hyields.run_eq.trans hitems, hruns⟩

/-! ### Taking the items of a run -/

/-- Items that are taken in any ways from a lexer whose scan ends are the first ones of a single run
of a fresh lexer, the next one is always the one that the run has in this place, a run at any time
takes all others, and nothing is left behind it. A lexer to which anything has been done runs like a
fresh one when it is reset. The grammar of digits and letters comes to its end in every text, and
its items are the longest runs of digits and of letters in turn, up to the first other character,
which is an error. -/
theorem taken_as_run {grammar : LexerGrammar κ σ} (hops : grammar.Operates) (initial : σ) :
    (∀ source bound, ((Lexer.ofSource source initial).steps grammar bound).state = none →
      ∀ n, bound ≤ n → ∀ takings further,
        let all := ((Lexer.ofSource source initial).run grammar n).1
        let taken := (Lexer.ofSource source initial).takes grammar n takings
        taken.1 ++ (taken.2.run grammar n).1 = all ∧
          (taken.2.nextItem grammar n).1 = (all.drop taken.1.length).head? ∧
          ((taken.2.run grammar n).2.takes grammar n further).1 = []) ∧
      (∀ source l, Lexer.Handled grammar initial source l → ∀ n,
        l.reset.run grammar n = (Lexer.ofSource source initial).run grammar n ∧
          ∀ text, (l.resetWith text).run grammar n = (Lexer.ofSource text initial).run grammar n) ∧
      ∀ source n, runSteps (Lexer.ofSource source .start) ≤ n →
        ((Lexer.ofSource source .start).steps runGrammar n).state = none ∧
          ∃ runs failures,
            ((Lexer.ofSource source .start).run runGrammar n).1 = runs ++ failures ∧
              RunsOf source.toList runs failures := by
  refine ⟨?_, ?_, fun source n h => runsOf_run source h⟩
  · intro source bound hend n hle takings further all taken
    have hall : Lexer.Yields grammar n (Lexer.ofSource source initial) all :=
      ⟨by rwa [Lexer.steps_of_le hend hle], rfl⟩
    obtain ⟨rest, hrest, hyields⟩ := hall.takes hops takings
    obtain ⟨nothing, hnothing, -⟩ := hyields.run.takes hops further
    refine ⟨by rw [hyields.run_eq, hrest], ?_, (List.append_eq_nil_iff.mp hnothing).1⟩
    rw [(hyields.nextItem hops).1, ← hrest, List.drop_left]
  · intro source l hl n
    exact ⟨by rw [hl.reset_eq hops], fun text => by rw [hl.resetWith_eq hops text]⟩

/-- One item is taken from a lexer, the others come with the run, and the lexer can be reset. -/
theorem digit_taken_as_run :
    let fresh : Lexer RunKind RunState := .ofSource "1a2" .start
    let taken := fresh.takes runGrammar 10 [.next]
    LexerGrammar.Operates runGrammar ∧ (fresh.steps runGrammar 10).state = none ∧
      taken.1 = [⟨.digits, "1", 0, 1, none⟩] ∧
      taken.1 ++ (taken.2.run runGrammar 10).1 = (fresh.run runGrammar 10).1 ∧
      Lexer.Handled runGrammar .start "1a2" (fresh.take runGrammar 10 .next).2 ∧
      (fresh.take runGrammar 10 .next).2.reset.run runGrammar 10 = fresh.run runGrammar 10 := by
  intro fresh taken
  have hend : (fresh.steps runGrammar 10).state = none := by decide +kernel
  have hhandled : Lexer.Handled runGrammar .start "1a2" (fresh.take runGrammar 10 .next).2 :=
    .take (.fresh "1a2") 10 .next
  obtain ⟨htaken, hreset, -⟩ := taken_as_run runGrammar_operates .start
  exact ⟨runGrammar_operates, hend, by decide +kernel,
    (htaken "1a2" 10 hend 10 (Nat.le_refl 10) [.next] []).1, hhandled,
    (hreset "1a2" _ hhandled 10).1⟩

end StoryEngine
