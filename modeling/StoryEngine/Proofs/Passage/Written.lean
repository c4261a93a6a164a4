import StoryEngine.Proofs.Argument.Written
import StoryEngine.Proofs.Passage.Reread
import StoryEngine.Proofs.Registry.Consistent
/-!
# StoryEngine.Proofs.Passage.Written

Calls as they are written in a passage: the name of a macro and arguments, literals and variables,
with single blanks between them. Such a call is one tag, wherever its literals hold the signs that
open and close tags, and the tag has the arguments as they are written (`segmentsOf_callSource`).
-/

namespace StoryEngine

open WrittenArgument

/-- A call of the macro with the arguments. -/
def callSource (name : String) (args : List WrittenArgument) : String :=
  "<<" ++ " ".intercalate (name :: args.map text) ++ ">>"

/-! ### The arguments of a tag -/

theorem spanPiece?_blank (cs : List Char) : spanPiece? ' ' cs = none := by
  cases cs <;> rfl

/-- No character of a variable begins a piece that may contain `>>`. -/
theorem spanPiece?_of_isVariablePart {c : Char} (h : isVariablePart c = true) (cs : List Char) :
    spanPiece? c cs = none := by
  have hdouble := ne_of_isVariablePart h (d := '"') rfl
  have hsingle := ne_of_isVariablePart h (d := '\'') rfl
  have hback := ne_of_isVariablePart h (d := '\x60') rfl
  have hslash := ne_of_isVariablePart h (d := '/') rfl
  have hbracket := ne_of_isVariablePart h (d := '[') rfl
  cases cs with
  | nil => simp [spanPiece?, hdouble, hsingle, hback]
  | cons d ds => simp [spanPiece?, hdouble, hsingle, hback, hslash, hbracket]

/-- A literal is a piece as a whole. -/
theorem spanPiece?_literal (q : QuoteMark) (s : String) (rest : List Char) :
    spanPiece? q.char (q.inside s.toList ++ q.char :: rest) =
      some (q.inside s.toList ++ [q.char], rest) := by
  have hspan : spanQuoted? q.char isLineEnd noChar (q.inside s.toList ++ q.char :: rest) =
      some (q.inside s.toList ++ [q.char], rest) :=
    QuoteMark.spanQuoted?_inside (fun _ h => h) (fun _ _ => rfl) s.toList rest
  cases q with
  | double => exact hspan
  | single => exact hspan

theorem spanArguments?_variable {cs : List Char} (h : ∀ c ∈ cs, isVariablePart c = true)
    (rest : List Char) :
    spanArguments? (cs ++ rest) =
      (spanArguments? rest).map fun (args, final) => (cs ++ args, final) := by
  induction cs with
  | nil => simp
  | cons c cs ih =>
      obtain ⟨hc, hcs⟩ := List.forall_mem_cons.1 h
      have hclose := ne_of_isVariablePart hc (d := '>') rfl
      rw [List.cons_append, spanArguments?_char (fun _ heq _ => hclose heq)
        (spanPiece?_of_isVariablePart hc _), ih hcs, Option.map_map]
      rfl

theorem spanArguments?_text (arg : WrittenArgument) (rest : List Char) :
    spanArguments? (arg.text.toList ++ rest) =
      (spanArguments? rest).map fun (args, final) => (arg.text.toList ++ args, final) := by
  cases arg with
  | string q s =>
      have hopen : q.char ≠ '>' := by cases q <;> decide
      have htext : (string q s).text.toList = q.char :: (q.inside s.toList ++ [q.char]) :=
        QuoteMark.toList_literal s
      rw [htext, List.cons_append, List.append_assoc, List.singleton_append,
        spanArguments?_piece hopen (spanPiece?_literal q s rest)]
  | var name h =>
      obtain ⟨d, ds, hname, hparts⟩ := isVariablePart_of_isVariable h
      have htext : (var name h).text.toList = d :: ds := hname
      rw [htext, spanArguments?_variable hparts]

/-- The arguments end at the first `>>` that is not inside one of them. -/
theorem spanArguments?_spaced (args : List WrittenArgument) (rest : List Char) :
    spanArguments? (spaced args ++ '>' :: '>' :: rest) = some (spaced args, rest) := by
  induction args with
  | nil => exact spanArguments?_close rest
  | cons arg args ih =>
      have hblank : ' ' ≠ '>' := by decide
      rw [spaced_cons, List.cons_append, List.append_assoc,
        spanArguments?_char (fun _ h _ => hblank h) (spanPiece?_blank _), spanArguments?_text, ih]
      rfl

/-! ### The name of a tag -/

/-- The name of a macro is read up to a character that cannot stand in one. -/
theorem MacroName.spanTagName? {name : String} (h : MacroName name) {c : Char}
    (hc : isTagNameChar c = false) (rest : List Char) :
    spanTagName? (name.toList ++ c :: rest) = some (name.toList, c :: rest) := by
  cases h with
  | @word d ds hd hds =>
      have hall : ∀ a ∈ ds, isTagNameChar a = true := by
        intro a ha
        simpa [isTagNameChar, or_assoc] using hds a ha
      have hend : ¬ isTagNameChar c = true := by simp [hc]
      rw [String.toList_ofList, List.cons_append, spanTagName?_of_isAlpha hd, spanWordName?,
        if_pos hd, List.takeWhile_append_of_pos hall, List.dropWhile_append_of_pos hall,
        List.takeWhile_cons_of_neg hend, List.dropWhile_cons_of_neg hend, List.append_nil]
  | equals => rfl
  | hyphen => rfl

theorem MacroName.isEmpty {name : String} (h : MacroName name) : name.isEmpty = false := by
  have hne := Registry.ne_empty_of_isMacroName (isMacroName_iff.2 h)
  simpa using hne

/-! ### A call is one tag -/

/-- The tag that a call at the beginning of a source is read as. -/
def callTag (name : String) (args : List WrittenArgument) : Tag :=
  .ofParts 0 name.toList (spaced args)

section CallTag

variable (name : String) (args : List WrittenArgument)

theorem toList_callSource :
    (callSource name args).toList = '<' :: '<' :: name.toList ++ spaced args ++ ['>', '>'] := by
  rw [callSource, String.toList_append, String.toList_append, toList_intercalate_cons]
  simp

@[simp] theorem callTag_name : (callTag name args).name = name :=
  String.ofList_toList

@[simp] theorem callTag_args : (callTag name args).args = " ".intercalate (args.map text) := by
  have hargs : (callTag name args).args = String.ofList (dropBlanks (spaced args)) := rfl
  rw [hargs, dropBlanks_spaced, String.ofList_toList]

end CallTag

theorem spanTag?_callSource {name : String} (h : MacroName name) (args : List WrittenArgument)
    (rest : List Char) :
    spanTag? (name.toList ++ (spaced args ++ '>' :: '>' :: rest)) =
      some (name.toList, spaced args, rest) := by
  have hname : spanTagName? (name.toList ++ (spaced args ++ '>' :: '>' :: rest)) =
      some (name.toList, spaced args ++ '>' :: '>' :: rest) := by
    -- behind the name stands a blank, or a `>` if there are no arguments
    rcases endsArgument_spaced args with hnil | ⟨more, hcons⟩
    · rw [hnil]
      exact h.spanTagName? rfl _
    · rw [hcons]
      exact h.spanTagName? rfl _
  rw [spanTag?, hname]
  dsimp only
  rw [spanArguments?_spaced]

/-- A call at the beginning of a source is read as its tag, and what follows it as a source of its
own. -/
theorem segmentsOf_callSource {name : String} (h : MacroName name) (args : List WrittenArgument)
    (following : String) :
    segmentsOf (callSource name args ++ following) =
      .tag (callTag name args) :: segmentsFrom (callTag name args).stop following.toList := by
  have hsource : (callSource name args ++ following).toList =
      '<' :: '<' :: (name.toList ++ (spaced args ++ '>' :: '>' :: following.toList)) := by
    simp [toList_callSource]
  rw [segmentsOf, hsource, segmentsFrom_tag 0 (spanTag?_callSource h args following.toList)]
  rfl

/-! ### Text is one segment -/

theorem unopened_cons {c : Char} {cs : List Char} (h : ¬ ['<', '<'] <:+: c :: cs) :
    (∀ inner, c = '<' → cs = '<' :: inner → False) ∧ ¬ ['<', '<'] <:+: cs := by
  constructor
  · intro inner hc hcs
    subst hc hcs
    exact h ⟨[], inner, rfl⟩
  · intro hlater
    exact h (hlater.trans (List.suffix_cons c cs).isInfix)

theorem spanText_unopened {cs : List Char} (h : ¬ ['<', '<'] <:+: cs) : spanText cs = (cs, []) := by
  induction cs with
  | nil => rfl
  | cons c cs ih =>
      obtain ⟨hopen, hrest⟩ := unopened_cons h
      rw [spanText_cons hopen, ih hrest]

theorem segmentsFrom_unopened {c : Char} {cs : List Char} (h : ¬ ['<', '<'] <:+: c :: cs)
    (start : Nat) : segmentsFrom start (c :: cs) = [.text (String.ofList (c :: cs))] := by
  obtain ⟨hopen, hrest⟩ := unopened_cons h
  rw [segmentsFrom_run start hopen, spanText_unopened hrest, segmentsFrom_nil]

end StoryEngine
