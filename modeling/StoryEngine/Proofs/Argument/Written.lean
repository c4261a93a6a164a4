import Mathlib
import StoryEngine.Proofs.Argument.Scan
import StoryEngine.Proofs.Engine.Arguments
import StoryEngine.Proofs.Text.Literal
/-!
# StoryEngine.Proofs.Argument.Written

Arguments that are written as literals and variables, one blank before each of the others. Reading
them gives the strings and the values of the variables, in order, and changes nothing
(`readArguments_written`).
-/

namespace StoryEngine

/-! ### The characters of variables -/

section Variables

variable {c : Char}

/-- They are signs, letters and digits of ASCII. -/
theorem bounds_of_isVariablePart (h : isVariablePart c = true) :
    0x24 ≤ c.toNat ∧ c.toNat < 0x80 := by
  simp only [isVariablePart, Char.isAlphanum, Char.isAlpha, Char.isUpper, Char.isLower,
    Char.isDigit, Bool.or_eq_true, Bool.and_eq_true, decide_eq_true_eq, beq_iff_eq,
    UInt32.le_iff_toNat_le] at h
  rcases h with (((h | h) | h) | rfl) | rfl
  · exact ⟨Nat.le_trans (by decide) h.1, Nat.lt_of_le_of_lt h.2 (by decide)⟩
  · exact ⟨Nat.le_trans (by decide) h.1, Nat.lt_of_le_of_lt h.2 (by decide)⟩
  · exact ⟨Nat.le_trans (by decide) h.1, Nat.lt_of_le_of_lt h.2 (by decide)⟩
  · decide
  · decide

theorem isBlank_of_isVariablePart (h : isVariablePart c = true) : isBlank c = false := by
  have hbounds := bounds_of_isVariablePart h
  simp only [isBlank, Bool.or_eq_false_iff, Bool.and_eq_false_iff, beq_eq_false_iff_ne,
    decide_eq_false_iff_not]
  omega

theorem ne_of_isVariablePart (h : isVariablePart c = true) {d : Char}
    (hd : isVariablePart d = false) : c ≠ d := by
  rintro rfl
  simp [hd] at h

theorem isVariablePart_of_isVariable {name : String} (h : isVariable name = true) :
    ∃ d ds, name.toList = d :: ds ∧ ∀ c ∈ d :: ds, isVariablePart c = true := by
  unfold isVariable isVariableChars at h
  split at h
  · rename_i sigil start more heq
    simp only [Bool.and_eq_true, List.all_eq_true] at h
    obtain ⟨⟨hsigil, hstart⟩, hmore⟩ := h
    have hfirst : isVariablePart sigil = true := by
      simp only [isSigil, Bool.or_eq_true, beq_iff_eq] at hsigil
      rcases hsigil with rfl | rfl
      · rfl
      · rfl
    have hsecond : isVariablePart start = true := by
      simp only [isVariableStart, Bool.or_eq_true] at hstart
      simp only [isVariablePart, Char.isAlphanum, Bool.or_eq_true]
      rcases hstart with (h | h) | h
      · exact .inl (.inl (.inl h))
      · exact .inl (.inr h)
      · exact .inr h
    refine ⟨sigil, start :: more, heq, fun c hc => ?_⟩
    rcases List.mem_cons.1 hc with rfl | hc
    · exact hfirst
    · rcases List.mem_cons.1 hc with rfl | hc
      · exact hsecond
      · exact hmore c hc
  · cases h

end Variables

/-! ### Written arguments -/

/-- An argument that is read without evaluating anything. -/
inductive WrittenArgument where
  /-- A string, as a literal. -/
  | string (q : QuoteMark) (s : String)
  /-- A variable, by its name. -/
  | var (name : String) (h : isVariable name = true)

namespace WrittenArgument

/-- What is written. -/
def text : WrittenArgument → String
  | string q s => q.literal s
  | var name _ => name

/-- What it stands for. -/
def value (state : State) : WrittenArgument → Value
  | string _ s => .string s
  | var name _ => (state.get? name).getD .null

/-- What it is read as. -/
def kind : WrittenArgument → ArgumentKind
  | string _ _ => .string
  | var _ _ => .bareword

/-- The arguments with a blank before each of them. -/
def spaced (args : List WrittenArgument) : List Char :=
  args.flatMap fun arg => ' ' :: arg.text.toList

@[simp] theorem spaced_nil : spaced [] = [] := rfl

@[simp] theorem spaced_cons (arg : WrittenArgument) (rest : List WrittenArgument) :
    spaced (arg :: rest) = ' ' :: (arg.text.toList ++ spaced rest) := rfl

/-- An argument ends at the end of the arguments or before a blank. -/
def EndsArgument (cs : List Char) : Prop :=
  cs = [] ∨ ∃ more, cs = ' ' :: more

theorem endsArgument_spaced (args : List WrittenArgument) : EndsArgument (spaced args) := by
  cases args with
  | nil => exact .inl rfl
  | cons arg rest => exact .inr ⟨_, spaced_cons arg rest⟩

theorem toList_intercalate_cons (first : String) (args : List WrittenArgument) :
    (" ".intercalate (first :: args.map text)).toList = first.toList ++ spaced args := by
  induction args generalizing first with
  | nil => simp
  | cons arg rest ih => simp [ih arg.text]

/-- The argument that begins the text is the whole argument, up to the blank behind it. -/
theorem exists_lexeme (arg : WrittenArgument) {rest : List Char} (hrest : EndsArgument rest) :
    ∃ c cs, arg.text.toList = c :: cs ∧ isBlank c = false ∧
      argumentLexeme c (cs ++ rest) = ⟨arg.kind, cs, rest⟩ := by
  cases arg with
  | string q s =>
      -- the literal ends itself, so it does not matter what stands behind it
      refine ⟨q.char, q.inside s.toList ++ [q.char], QuoteMark.toList_literal s, ?_, ?_⟩
      · cases q <;> rfl
      · have hquoted (fault : ArgumentFault) := QuoteMark.quotedLexeme_inside (q := q)
          .string fault s.toList rest
        rw [List.append_assoc, List.singleton_append]
        cases q with
        | double => exact hquoted .openDouble
        | single => exact hquoted .openSingle
  | var name h =>
      obtain ⟨c, cs, hname, hparts⟩ := isVariablePart_of_isVariable h
      have hc := hparts c List.mem_cons_self
      have hcs : ∀ d ∈ cs, (!isBlank d) = true := by
        intro d hd
        simp [isBlank_of_isVariablePart (hparts d (List.mem_cons_of_mem _ hd))]
      -- the bareword goes on up to the blank
      have hend : rest.takeWhile (!isBlank ·) = [] ∧ rest.dropWhile (!isBlank ·) = rest := by
        rcases hrest with rfl | ⟨more, rfl⟩
        · exact ⟨rfl, rfl⟩
        · exact ⟨rfl, rfl⟩
      refine ⟨c, cs, hname, isBlank_of_isVariablePart hc, ?_⟩
      have hback := ne_of_isVariablePart hc (d := '\x60') rfl
      have hdouble := ne_of_isVariablePart hc (d := '"') rfl
      have hsingle := ne_of_isVariablePart hc (d := '\'') rfl
      have hbracket := ne_of_isVariablePart hc (d := '[') rfl
      simp [argumentLexeme, hback, hdouble, hsingle, hbracket, kind,
        List.takeWhile_append_of_pos hcs, List.dropWhile_append_of_pos hcs, hend]

/-- Its blank left out, the text begins with the first argument. -/
theorem dropBlanks_append (arg : WrittenArgument) (rest : List Char) :
    dropBlanks (arg.text.toList ++ rest) = arg.text.toList ++ rest := by
  obtain ⟨c, cs, htext, hblank, -⟩ := arg.exists_lexeme (.inl rfl)
  simp [htext, dropBlanks, hblank]

theorem dropBlanks_spaced (args : List WrittenArgument) :
    dropBlanks (spaced args) = (" ".intercalate (args.map text)).toList := by
  cases args with
  | nil => rfl
  | cons arg rest =>
      have hblank : dropBlanks (spaced (arg :: rest)) =
          dropBlanks (arg.text.toList ++ spaced rest) := rfl
      rw [hblank, dropBlanks_append, List.map_cons, toList_intercalate_cons]

/-! ### Reading them -/

/-- One argument is scanned. -/
theorem scanArguments_cons (position : Nat) (arg : WrittenArgument) {cs rest : List Char}
    (hcs : dropBlanks cs = arg.text.toList ++ rest) (hrest : EndsArgument rest) :
    ∃ start stop, scanArguments position cs =
      ⟨arg.kind, arg.text, start, stop⟩ :: scanArguments stop rest := by
  obtain ⟨c, more, htext, -, hlexeme⟩ := arg.exists_lexeme hrest
  have hwhole : String.ofList (c :: more) = arg.text := by
    rw [← htext, String.ofList_toList]
  rw [htext, List.cons_append] at hcs
  rw [scanArguments_of_lexeme hcs, hlexeme, ArgumentLexeme.token, hwhole]
  cases arg with
  | string q s => exact ⟨_, _, rfl⟩
  | var name h => exact ⟨_, _, rfl⟩

/-- The value of its token is that of the argument. -/
theorem value_token (arg : WrittenArgument) (start stop : Nat) (s : State) :
    ArgumentToken.value ⟨arg.kind, arg.text, start, stop⟩ s = (.ok (arg.value s), s) := by
  cases arg with
  | string q string =>
      change ArgumentToken.value ⟨.string, q.literal string, start, stop⟩ s = _
      simp only [ArgumentToken.value, QuoteMark.unquote_literal]
      rfl
  | var name h =>
      have hvalue : ArgumentToken.value ⟨.bareword, name, start, stop⟩ =
          if isVariable name then do return (← get).value name
          else return barewordValue name := rfl
      change ArgumentToken.value ⟨.bareword, name, start, stop⟩ s = _
      rw [hvalue, if_pos h]
      rfl

/-- Only the blanks before the first argument may differ from those before the others. -/
theorem tokenValues_written (args : List WrittenArgument) (position : Nat) {cs : List Char}
    (hcs : dropBlanks cs = dropBlanks (spaced args)) (s : State) :
    tokenValues (scanArguments position cs) s = (.ok (args.map (value s)), s) := by
  induction args generalizing position cs with
  | nil =>
      rw [scanArguments_of_blank hcs]
      rfl
  | cons arg rest ih =>
      have hdrop : dropBlanks cs = arg.text.toList ++ spaced rest := by
        rw [hcs, ← dropBlanks_append]
        rfl
      obtain ⟨start, stop, hscan⟩ :=
        scanArguments_cons position arg hdrop (endsArgument_spaced rest)
      have hfirst := arg.value_token start stop s
      have hrest := ih stop rfl
      rw [hscan, tokenValues, bind_state_apply, hfirst]
      dsimp only
      rw [bind_state_apply, hrest]
      rfl

/-- The arguments are read as they are meant, and nothing is changed by it. -/
theorem readArguments_written (args : List WrittenArgument) (s : State) :
    readArguments (" ".intercalate (args.map text)) s =
      (.ok ⟨args.map (value s), " ".intercalate (args.map text)⟩, s) := by
  have hblanks : dropBlanks (" ".intercalate (args.map text)).toList =
      dropBlanks (spaced args) := by
    rw [← dropBlanks_spaced]
    exact List.dropWhile_idempotent isBlank (spaced args)
  rw [readArguments, bind_state_apply, tokenValues_written args 0 hblanks]
  rfl

end WrittenArgument

end StoryEngine
