import Mathlib
import StoryEngine.Proofs.Argument.Written
/-!
# StoryEngine.Proofs.Text.Search

The variables in a text are what a search for variables finds there (`variablesIn_eq_iff`). A search
finds the leftmost match, and among those that begin at the same place the longest, and goes on right
behind it (`Finds`); this leaves it no choice (`Finds.unique`). A text is a variable exactly if it is
the only one in itself (`isVariable_iff_variablesIn`).

The two ends of a text do not matter where no match can reach: blanks around a text neither hide
a variable nor make one (`variablesIn_trimText`).
-/

namespace StoryEngine

/-! ### Searches -/

section Finds

variable {α : Type}

/-- What a search of a text finds, from left to right. -/
inductive Finds (IsMatch : List α → Prop) : List α → List (List α) → Prop
  /-- Nothing in the text is a match. -/
  | nothing {text : List α} (clear : ∀ piece, piece <:+: text → ¬ IsMatch piece) :
      Finds IsMatch text []
  /-- Behind a gap without matches stands a match. None begins before it, none that begins with it
  is longer, and the search goes on right behind it. -/
  | next {gap piece rest : List α} {found : List (List α)} (hmatch : IsMatch piece)
      (clear : ∀ other, other <:+: gap → ¬ IsMatch other)
      (leftmost : ∀ before other after, gap ++ piece ++ rest = before ++ other ++ after →
        IsMatch other → gap.length ≤ before.length)
      (longest : ∀ other, other <+: piece ++ rest → IsMatch other → other.length ≤ piece.length)
      (hrest : Finds IsMatch rest found) :
      Finds IsMatch (gap ++ piece ++ rest) (piece :: found)

namespace Finds

variable {IsMatch : List α → Prop} {text : List α} {found : List (List α)}

/-- All that is found is a match. -/
theorem isMatch (h : Finds IsMatch text found) : ∀ piece ∈ found, IsMatch piece := by
  induction h with
  | nothing => exact nofun
  | next hmatch _ _ _ _ ih => exact List.forall_mem_cons.mpr ⟨hmatch, ih⟩

/-- A search has only one outcome. -/
theorem unique {other : List (List α)} (h : Finds IsMatch text found)
    (h' : Finds IsMatch text other) : found = other := by
  induction h generalizing other with
  | @nothing text clear =>
      cases h' with
      | nothing => rfl
      | @next gap piece rest _ hmatch => exact (clear piece ⟨gap, rest, rfl⟩ hmatch).elim
  | @next gap piece rest found hmatch clear leftmost longest _ ih =>
      generalize htext : gap ++ piece ++ rest = text at h'
      cases h' with
      | nothing clear' => exact (clear' piece ⟨gap, rest, htext⟩ hmatch).elim
      | @next gap' piece' rest' found' hmatch' clear' leftmost' longest' hrest' =>
          -- both matches begin at the same place, and then both are as long as possible
          have hle := leftmost gap' piece' rest' htext hmatch'
          have hge := leftmost' gap piece rest htext.symm hmatch
          rw [List.append_assoc, List.append_assoc] at htext
          obtain ⟨-, hbehind⟩ := List.append_inj htext (Nat.le_antisymm hle hge)
          have hshort := longest piece' (hbehind ▸ List.prefix_append piece' rest') hmatch'
          have hlong := longest' piece (hbehind ▸ List.prefix_append piece rest) hmatch
          obtain ⟨rfl, rfl⟩ := List.append_inj hbehind (Nat.le_antisymm hlong hshort)
          rw [ih hrest']

/-- A character in front with which no match begins makes no difference. -/
theorem cons (h : Finds IsMatch text found) {c : α}
    (hnone : ∀ piece, piece <+: c :: text → ¬ IsMatch piece) : Finds IsMatch (c :: text) found := by
  have hclear {part : List α} (hpart : c :: part <+: c :: text)
      (clear : ∀ piece, piece <:+: part → ¬ IsMatch piece) :
      ∀ piece, piece <:+: c :: part → ¬ IsMatch piece := by
    intro piece hpiece
    rcases List.infix_cons_iff.mp hpiece with hfront | hinner
    · exact hnone piece (hfront.trans hpart)
    · exact clear piece hinner
  cases h with
  | nothing clear => exact .nothing (hclear List.prefix_rfl clear)
  | @next gap piece rest found hmatch clear leftmost longest hrest =>
      rw [← List.cons_append, ← List.cons_append]
      refine .next hmatch (hclear ⟨piece ++ rest, ?_⟩ clear) ?_ longest hrest
      · simp
      · intro before other after heq hother
        cases before with
        | nil => exact (hnone other ⟨after, by simpa using heq.symm⟩ hother).elim
        | cons d before =>
            have heq : gap ++ piece ++ rest = before ++ other ++ after := by
              simp only [List.cons_append, List.cons.injEq] at heq
              exact heq.2
            exact Nat.succ_le_succ (leftmost before other after heq hother)

/-- Characters in front that are in no match make no difference. -/
theorem append_left (h : Finds IsMatch text found) {front : List α}
    (hnone : ∀ c ∈ front, ∀ piece, IsMatch piece → c ∉ piece) (hnil : ¬ IsMatch []) :
    Finds IsMatch (front ++ text) found := by
  induction front with
  | nil => exact h
  | cons c front ih =>
      refine (ih fun d hd => hnone d (List.mem_cons_of_mem c hd)).cons ?_
      intro piece hpiece hmatch
      cases piece with
      | nil => exact hnil hmatch
      | cons d piece =>
          obtain ⟨rfl, -⟩ := List.cons_prefix_cons.mp hpiece
          exact hnone d List.mem_cons_self (d :: piece) hmatch List.mem_cons_self

/-- A piece that has no character of the end lies in front of it. -/
theorem before_end {front back before piece after : List α} (hpiece : piece ≠ [])
    (hnone : ∀ c ∈ back, c ∉ piece) (h : front ++ back = before ++ piece ++ after) :
    ∃ between, front = before ++ piece ++ between ∧ after = between ++ back := by
  rcases List.append_eq_append_iff.mp h with ⟨shared, hpiece', hback⟩ | ⟨between, hfront, hafter⟩
  · -- what the piece and the end share is nothing, since one is a suffix of the other
    have hshared : shared = [] := by
      have hmem : ∀ c ∈ shared, c ∉ piece := fun c hc =>
        hnone c (hback ▸ List.mem_append_left after hc)
      rcases List.suffix_or_suffix_of_suffix (hpiece' ▸ List.suffix_append front shared)
        (List.suffix_append before piece) with hsuffix | hsuffix
      · exact List.eq_nil_iff_forall_not_mem.mpr fun c hc => hmem c hc (hsuffix.subset hc)
      · obtain ⟨c, hc⟩ := List.exists_mem_of_ne_nil piece hpiece
        exact (hmem c (hsuffix.subset hc) hc).elim
    subst hshared
    exact ⟨[], by simpa using hpiece'.symm, by simpa using hback.symm⟩
  · exact ⟨between, hfront, hafter⟩

/-- Characters at the end that are in no match make no difference. -/
theorem append_right (h : Finds IsMatch text found) {back : List α}
    (hnone : ∀ c ∈ back, ∀ piece, IsMatch piece → c ∉ piece) (hnil : ¬ IsMatch []) :
    Finds IsMatch (text ++ back) found := by
  have hbefore {front before piece after : List α} (hmatch : IsMatch piece)
      (heq : front ++ back = before ++ piece ++ after) :
      ∃ between, front = before ++ piece ++ between ∧ after = between ++ back :=
    before_end (fun hpiece => hnil (hpiece ▸ hmatch)) (fun c hc => hnone c hc piece hmatch) heq
  induction h with
  | nothing clear =>
      refine .nothing fun piece hpiece hmatch => ?_
      obtain ⟨before, after, heq⟩ := hpiece
      obtain ⟨between, rfl, -⟩ := hbefore hmatch heq.symm
      exact clear piece ⟨before, between, rfl⟩ hmatch
  | @next gap piece rest found hmatch clear leftmost longest _ ih =>
      rw [List.append_assoc]
      refine .next hmatch clear ?_ ?_ ih
      · intro before other after heq hother
        rw [← List.append_assoc] at heq
        obtain ⟨between, hfront, -⟩ := hbefore hother heq
        exact leftmost before other between hfront hother
      · rintro other ⟨after, heq⟩ hother
        rw [← List.append_assoc] at heq
        rw [← List.nil_append other] at heq
        obtain ⟨between, hfront, -⟩ := hbefore hother heq.symm
        exact longest other ⟨between, hfront.symm⟩ hother

end Finds

end Finds

/-! ### Variables -/

/-- The characters are a variable. -/
def IsVariableText (piece : List Char) : Prop :=
  isVariable (String.ofList piece) = true

theorem isVariableText_iff {piece : List Char} :
    IsVariableText piece ↔ isVariableChars piece = true := by
  rw [IsVariableText, isVariable, String.toList_ofList]

theorem isVariableText_cons_cons {sigil c : Char} {cs : List Char} :
    IsVariableText (sigil :: c :: cs) ↔
      (isSigil sigil && isVariableStart c) = true ∧ ∀ d ∈ cs, isVariablePart d = true := by
  rw [isVariableText_iff, isVariableChars, Bool.and_eq_true, List.all_eq_true]

/-- A variable begins with two characters that tell that it is one. -/
theorem exists_of_isVariableText {piece : List Char} (h : IsVariableText piece) :
    ∃ sigil c parts, piece = sigil :: c :: parts := by
  rw [isVariableText_iff, isVariableChars.eq_def] at h
  split at h
  · exact ⟨_, _, _, rfl⟩
  · cases h

/-- No variable is shorter than two characters. -/
theorem not_isVariableText {piece : List Char} (hlength : piece.length < 2) :
    ¬ IsVariableText piece := by
  intro h
  obtain ⟨sigil, c, parts, rfl⟩ := exists_of_isVariableText h
  simp only [List.length_cons] at hlength
  omega

theorem not_isVariableText_nil : ¬ IsVariableText [] :=
  not_isVariableText Nat.zero_lt_two

/-- A prefix of which the predicate holds is no longer than the longest one. -/
theorem length_le_takeWhile {α : Type} {p : α → Bool} {front text : List α}
    (hfront : front <+: text) (h : ∀ a ∈ front, p a = true) :
    front.length ≤ (text.takeWhile p).length := by
  obtain ⟨rest, rfl⟩ := hfront
  rw [List.takeWhile_append_of_pos h, List.length_append]
  exact Nat.le_add_right ..

/-- The variables in a text are found by a search. -/
theorem finds_variablesInChars (text : List Char) :
    Finds IsVariableText text (variablesInChars text) := by
  induction text using variablesInChars.induct with
  | case1 sigil c cs hstart ih =>
      rw [variablesInChars, if_pos hstart]
      have hmatch : IsVariableText (sigil :: c :: cs.takeWhile isVariablePart) :=
        isVariableText_cons_cons.mpr ⟨hstart, fun d hd => List.mem_takeWhile_imp hd⟩
      have htext : sigil :: c :: cs =
          [] ++ (sigil :: c :: cs.takeWhile isVariablePart) ++ cs.dropWhile isVariablePart := by
        simp
      rw [htext]
      refine .next hmatch ?_ (fun _ _ _ _ _ => Nat.zero_le _) ?_ ih
      · intro other hother
        rw [List.infix_nil.mp hother]
        exact not_isVariableText_nil
      · intro other hother hvariable
        rw [← List.nil_append (sigil :: c :: _), ← htext] at hother
        obtain ⟨a, b, parts, rfl⟩ := exists_of_isVariableText hvariable
        obtain ⟨-, hother⟩ := List.cons_prefix_cons.mp hother
        obtain ⟨-, hother⟩ := List.cons_prefix_cons.mp hother
        have hparts := (isVariableText_cons_cons.mp hvariable).2
        exact Nat.succ_le_succ (Nat.succ_le_succ (length_le_takeWhile hother hparts))
  | case2 sigil c cs hstart ih =>
      rw [variablesInChars, if_neg hstart]
      refine ih.cons fun piece hpiece hvariable => ?_
      obtain ⟨a, b, parts, rfl⟩ := exists_of_isVariableText hvariable
      obtain ⟨hsigil, hpiece⟩ := List.cons_prefix_cons.mp hpiece
      obtain ⟨hfirst, -⟩ := List.cons_prefix_cons.mp hpiece
      rw [hsigil, hfirst] at hvariable
      exact hstart (isVariableText_cons_cons.mp hvariable).1
  | case3 cs hshort =>
      have hlength : cs.length < 2 := by
        match cs, hshort with
        | [], _ => exact Nat.zero_lt_two
        | [_], _ => exact Nat.one_lt_two
        | sigil :: c :: rest, hshort => exact (hshort sigil c rest rfl).elim
      have hnone : variablesInChars cs = [] := by
        match cs, hlength with
        | [], _ => rw [variablesInChars]; exact nofun
        | [_], _ => rw [variablesInChars]; exact nofun
      rw [hnone]
      exact .nothing fun piece hpiece =>
        not_isVariableText (Nat.lt_of_le_of_lt hpiece.length_le hlength)

/-- The variables in a text are what a search for variables finds. -/
theorem variablesIn_eq_iff {text : String} {found : List String} :
    variablesIn text = found ↔
      Finds IsVariableText text.toList (found.map String.toList) := by
  have hsearch := finds_variablesInChars text.toList
  constructor
  · rintro rfl
    have hback : (variablesIn text).map String.toList = variablesInChars text.toList := by
      rw [variablesIn, List.map_map]
      exact (List.map_congr_left fun cs _ => String.toList_ofList).trans (List.map_id _)
    rw [hback]
    exact hsearch
  · intro h
    rw [variablesIn, hsearch.unique h, List.map_map]
    exact (List.map_congr_left fun s _ => String.ofList_toList).trans (List.map_id _)

/-- All that is found is a variable. -/
theorem isVariable_of_mem_variablesIn {text name : String} (h : name ∈ variablesIn text) :
    isVariable name = true := by
  obtain ⟨piece, hpiece, rfl⟩ := List.mem_map.mp h
  exact (finds_variablesInChars text.toList).isMatch piece hpiece

/-- A text is a variable exactly if it is the only one in itself. -/
theorem isVariable_iff_variablesIn {text : String} :
    isVariable text = true ↔ variablesIn text = [text] := by
  constructor
  · intro h
    have hvariable : IsVariableText text.toList := by rwa [IsVariableText, String.ofList_toList]
    rw [variablesIn_eq_iff]
    have hall : Finds IsVariableText ([] ++ text.toList ++ []) [text.toList] := by
      refine .next hvariable ?_ (fun _ _ _ _ _ => Nat.zero_le _) ?_ (.nothing ?_)
      · intro other hother
        rw [List.infix_nil.mp hother]
        exact not_isVariableText_nil
      · intro other hother _
        rw [List.append_nil] at hother
        exact hother.length_le
      · intro other hother
        rw [List.infix_nil.mp hother]
        exact not_isVariableText_nil
    simpa using hall
  · intro h
    exact isVariable_of_mem_variablesIn (h ▸ List.mem_singleton_self text)

/-! ### Blanks -/

/-- A variable has no blanks. -/
theorem not_mem_of_isBlank {c : Char} (hblank : isBlank c = true) {piece : List Char}
    (h : IsVariableText piece) : c ∉ piece := by
  intro hmem
  obtain ⟨d, ds, hpiece, hparts⟩ := isVariablePart_of_isVariable h
  rw [String.toList_ofList] at hpiece
  have hpart := isBlank_of_isVariablePart (hparts c (hpiece ▸ hmem))
  rw [hblank] at hpart
  cases hpart

/-- Blanks around a text make no difference. -/
theorem variablesIn_trimText (text : String) : variablesIn (trimText text) = variablesIn text := by
  have hnone {cs : List Char} (hcs : ∀ c ∈ cs, isBlank c = true) :
      ∀ c ∈ cs, ∀ piece, IsVariableText piece → c ∉ piece :=
    fun c hc _ hpiece => not_mem_of_isBlank (hcs c hc) hpiece
  let front := text.toList.takeWhile isBlank
  let back := ((dropBlanks text.toList).reverse.takeWhile isBlank).reverse
  have hfront : ∀ c ∈ front, isBlank c = true := fun c hc => List.mem_takeWhile_imp hc
  have hback : ∀ c ∈ back, isBlank c = true := fun c hc =>
    List.mem_takeWhile_imp (List.mem_reverse.mp hc)
  have htext : text.toList = front ++ (trimBlanks text.toList ++ back) := by
    have hend : trimBlanks text.toList ++ back = dropBlanks text.toList := by
      rw [trimBlanks, dropBlanksEnd, ← List.reverse_append, List.takeWhile_append_dropWhile,
        List.reverse_reverse]
    rw [hend]
    exact List.takeWhile_append_dropWhile.symm
  have htrimmed : Finds IsVariableText (trimBlanks text.toList)
      ((variablesIn (trimText text)).map String.toList) := by
    have hfound := variablesIn_eq_iff.mp (rfl : variablesIn (trimText text) = _)
    rwa [trimText, String.toList_ofList] at hfound
  refine (variablesIn_eq_iff.mpr ?_).symm
  rw [htext]
  exact (htrimmed.append_right (hnone hback) not_isVariableText_nil).append_left (hnone hfront)
    not_isVariableText_nil

end StoryEngine
