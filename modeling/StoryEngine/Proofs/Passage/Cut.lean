import Mathlib.Data.List.TakeWhile
import StoryEngine.Passage.Segment
/-!
# StoryEngine.Proofs.Passage.Cut

What the scans of a passage source read when the source is cut off behind them. Quoted text,
comments and link markup are found by looking ahead for their end, so a piece that is found before
the cut is found without what stands behind it; the converse fails, since a piece without an end
may be something else altogether. A tag is read alike when the source is cut off behind it
(`spanTag?_cut`), and so is text when it is cut off where text may end (`spanText_cut`).
-/

namespace StoryEngine

/-! ### Scans that end before the cut -/

theorem spanQuoted?_of_ne {quote : Char} {bare escaped : Char → Bool} {c : Char}
    (hc : c ≠ '\\') (cs : List Char) :
    spanQuoted? quote bare escaped (c :: cs) =
      if c == quote then some ([c], cs)
      else if bare c then none
      else (spanQuoted? quote bare escaped cs).map fun (inside, rest) => (c :: inside, rest) := by
  rw [spanQuoted?]
  · rintro rfl
    exact absurd rfl hc
  · rintro _ _ rfl
    exact absurd rfl hc

/-- A quoted text ends at its closing quote, whatever follows. -/
theorem spanQuoted?_before {quote : Char} {bare escaped : Char → Bool}
    {cs inside rest : List Char} (h : spanQuoted? quote bare escaped cs = some (inside, rest))
    (rest' : List Char) :
    spanQuoted? quote bare escaped (inside ++ rest') = some (inside, rest') := by
  fun_induction spanQuoted? quote bare escaped cs generalizing inside rest with
  | case1 => simp at h
  | case2 => simp at h
  | case3 => simp at h
  | case4 c cs he ih =>
    obtain ⟨⟨a, b⟩, hab, heq⟩ := Option.map_eq_some_iff.1 h
    obtain ⟨rfl, rfl⟩ := Prod.mk.inj heq
    rw [List.cons_append, List.cons_append, spanQuoted?, if_neg he, ih hab]
    rfl
  | case5 c cs h1 h2 hq =>
    obtain ⟨rfl, rfl⟩ := Prod.mk.inj (Option.some.inj h)
    have hc : c ≠ '\\' := by
      rintro rfl
      cases cs with
      | nil => exact h1 rfl rfl
      | cons d ds => exact h2 d ds rfl rfl
    rw [List.singleton_append, spanQuoted?_of_ne hc, if_pos hq]
  | case6 => simp at h
  | case7 c cs h1 h2 hq hb ih =>
    obtain ⟨⟨a, b⟩, hab, heq⟩ := Option.map_eq_some_iff.1 h
    obtain ⟨rfl, rfl⟩ := Prod.mk.inj heq
    have hc : c ≠ '\\' := by
      rintro rfl
      cases cs with
      | nil => exact h1 rfl rfl
      | cons d ds => exact h2 d ds rfl rfl
    rw [List.cons_append, spanQuoted?_of_ne hc, if_neg hq, if_neg hb, ih hab]
    rfl

/-- What ends with a closing pair is not empty. -/
theorem spanUntilPair?_ne_nil {first second : Char} {cs inside rest : List Char}
    (h : spanUntilPair? first second cs = some (inside, rest)) : inside ≠ [] := by
  rintro rfl
  fun_cases spanUntilPair? first second cs with
  | case1 => cases h
  | case2 => cases h
  | case3 a b cs hab => rw [spanUntilPair?, if_pos hab] at h; simp at h
  | case4 a b cs hab => rw [spanUntilPair?, if_neg hab] at h; simp at h

/-- A comment and link markup end at their closing pair, whatever follows. -/
theorem spanUntilPair?_before {first second : Char} {cs inside rest : List Char}
    (h : spanUntilPair? first second cs = some (inside, rest)) (rest' : List Char) :
    spanUntilPair? first second (inside ++ rest') = some (inside, rest') := by
  fun_induction spanUntilPair? first second cs generalizing inside rest with
  | case1 => simp at h
  | case2 => simp at h
  | case3 a b cs hab =>
    obtain ⟨rfl, rfl⟩ := Prod.mk.inj (Option.some.inj h)
    rw [List.cons_append, List.singleton_append, spanUntilPair?, if_pos hab]
  | case4 a b cs hab ih =>
    obtain ⟨⟨x, y⟩, hxy, heq⟩ := Option.map_eq_some_iff.1 h
    obtain ⟨rfl, rfl⟩ := Prod.mk.inj heq
    have hrest := ih hxy
    cases x with
    | nil =>
      exact absurd rfl (spanUntilPair?_ne_nil hxy)
    | cons d ds =>
      obtain ⟨rfl, -⟩ := List.cons.inj (spanUntilPair?_append hxy)
      rw [List.cons_append] at hrest
      rw [List.cons_append, List.cons_append, spanUntilPair?, if_neg hab, hrest]
      rfl

/-- A piece of arguments ends where it ends, whatever follows. -/
theorem spanPiece?_before {c : Char} {cs inside rest : List Char}
    (h : spanPiece? c cs = some (inside, rest)) (rest' : List Char) :
    spanPiece? c (inside ++ rest') = some (inside, rest') := by
  unfold spanPiece? at h ⊢
  by_cases hquote : (c == '"' || c == '\'') = true
  · rw [if_pos hquote] at h ⊢
    exact spanQuoted?_before h rest'
  by_cases hback : (c == '\x60') = true
  · rw [if_neg hquote, if_pos hback] at h ⊢
    exact spanQuoted?_before h rest'
  rw [if_neg hquote, if_neg hback] at h ⊢
  cases cs with
  | nil => cases h
  | cons d ds =>
    by_cases hcomment : (c == '/' && d == '*') = true
    · simp only [if_pos hcomment] at h
      obtain ⟨⟨x, y⟩, hxy, heq⟩ := Option.map_eq_some_iff.1 h
      obtain ⟨rfl, rfl⟩ := Prod.mk.inj heq
      simp only [List.cons_append, if_pos hcomment, spanUntilPair?_before hxy, Option.map_some]
    · by_cases hlink : (c == '[' && d == '[') = true
      · simp only [if_neg hcomment, if_pos hlink] at h
        obtain ⟨⟨x, y⟩, hxy, heq⟩ := Option.map_eq_some_iff.1 h
        obtain ⟨rfl, rfl⟩ := Prod.mk.inj heq
        simp only [List.cons_append, if_neg hcomment, if_pos hlink, spanUntilPair?_before hxy,
          Option.map_some]
      · simp only [if_neg hcomment, if_neg hlink] at h
        cases h

/-- No piece of arguments that may contain `>>` begins with `>`. -/
theorem spanPiece?_close (cs : List Char) : spanPiece? '>' cs = none := by
  cases cs <;> rfl

theorem spanArguments?_close (rest : List Char) :
    spanArguments? ('>' :: '>' :: rest) = some ([], rest) := by
  rw [spanArguments?]

theorem spanArguments?_piece {c : Char} {cs inside after : List Char} (hopen : c ≠ '>')
    (hpiece : spanPiece? c cs = some (inside, after)) :
    spanArguments? (c :: cs)
      = (spanArguments? after).map fun (args, final) => (c :: inside ++ args, final) := by
  rw [spanArguments?]
  · split
    next inside' after' hsame =>
      obtain ⟨rfl, rfl⟩ := Prod.mk.inj (Option.some.inj (hpiece.symm.trans hsame))
      rfl
    next hnone => rw [hpiece] at hnone; cases hnone
  · rintro _ rfl
    exact absurd rfl hopen

theorem spanArguments?_char {c : Char} {cs : List Char}
    (hopen : ∀ rest, c = '>' → cs = '>' :: rest → False) (hpiece : spanPiece? c cs = none) :
    spanArguments? (c :: cs)
      = (spanArguments? cs).map fun (args, final) => (c :: args, final) := by
  rw [spanArguments?]
  · split
    next hsome => rw [hpiece] at hsome; cases hsome
    next => rfl
  · exact hopen

/-- The arguments of a tag are read alike when the source is cut off behind the tag: a piece that
ends inside them ends where it did, and one that has no end before the cut is no piece. -/
theorem spanArguments?_cut {cs args kept cut : List Char}
    (h : spanArguments? cs = some (args, kept ++ cut)) :
    spanArguments? (args ++ '>' :: '>' :: kept) = some (args, kept) := by
  fun_induction spanArguments? cs generalizing args with
  | case1 => simp at h
  | case2 =>
    obtain ⟨rfl, -⟩ := Prod.mk.inj (Option.some.inj h)
    exact spanArguments?_close kept
  | case3 c cs hopen inside after hpiece ih =>
    obtain ⟨⟨x, y⟩, hxy, heq⟩ := Option.map_eq_some_iff.1 h
    obtain ⟨rfl, rfl⟩ := Prod.mk.inj heq
    have hc : c ≠ '>' := by
      rintro rfl
      rw [spanPiece?_close] at hpiece
      cases hpiece
    rw [List.cons_append, List.cons_append, List.append_assoc,
      spanArguments?_piece hc (spanPiece?_before hpiece _), ih hxy]
    rfl
  | case4 c cs hopen hpiece ih =>
    obtain ⟨⟨x, y⟩, hxy, heq⟩ := Option.map_eq_some_iff.1 h
    obtain ⟨rfl, rfl⟩ := Prod.mk.inj heq
    have hcs : (x ++ '>' :: '>' :: kept) ++ cut = cs := by
      rw [← spanArguments?_append hxy]
      simp
    have hopen' : ∀ rest, c = '>' → x ++ '>' :: '>' :: kept = '>' :: rest → False := by
      intro rest hc hx
      exact hopen (rest ++ cut) hc (by rw [← hcs, hx, List.cons_append])
    have hpiece' : spanPiece? c (x ++ '>' :: '>' :: kept) = none := by
      -- a piece of what is kept is one of the whole
      cases hkept : spanPiece? c (x ++ '>' :: '>' :: kept) with
      | none => rfl
      | some found =>
        obtain ⟨inside, after⟩ := found
        have hwhole := spanPiece?_before hkept (after ++ cut)
        rw [← List.append_assoc, spanPiece?_append hkept, hcs, hpiece] at hwhole
        cases hwhole
    rw [List.cons_append, spanArguments?_char hopen' hpiece', ih hxy]
    rfl

/-- A name of letters is read alike when the source is cut off behind the character that ends
it. -/
theorem spanWordName?_cut {cs name kept cut : List Char}
    (h : spanWordName? cs = some (name, kept ++ cut)) (hkept : kept ≠ []) :
    spanWordName? (name ++ kept) = some (name, kept) := by
  cases cs with
  | nil => cases h
  | cons c cs =>
    by_cases hc : c.isAlpha = true
    · rw [spanWordName?, if_pos hc] at h
      obtain ⟨rfl, hrest⟩ := Prod.mk.inj (Option.some.inj h)
      obtain ⟨d, ds, rfl⟩ := List.exists_cons_of_ne_nil hkept
      have hall : ∀ a ∈ cs.takeWhile isTagNameChar, isTagNameChar a = true :=
        fun a ha => List.mem_takeWhile_imp ha
      have hd : ¬ isTagNameChar d = true := by
        intro hd
        have := List.head?_dropWhile_not isTagNameChar cs
        rw [hrest] at this
        simp [hd] at this
      rw [List.cons_append, spanWordName?, if_pos hc,
        List.takeWhile_append_of_pos hall, List.dropWhile_append_of_pos hall,
        List.takeWhile_cons_of_neg hd, List.dropWhile_cons_of_neg hd, List.append_nil]
    · rw [spanWordName?, if_neg hc] at h
      cases h

theorem exists_isAlpha_of_spanWordName? {cs name rest : List Char}
    (h : spanWordName? cs = some (name, rest)) : ∃ c more, name = c :: more ∧ c.isAlpha = true := by
  cases cs with
  | nil => cases h
  | cons c cs =>
    by_cases hc : c.isAlpha = true
    · rw [spanWordName?, if_pos hc] at h
      exact ⟨c, _, (Prod.mk.inj (Option.some.inj h)).1.symm, hc⟩
    · rw [spanWordName?, if_neg hc] at h
      cases h

theorem spanTagName?_of_isAlpha {c : Char} (hc : c.isAlpha = true) (cs : List Char) :
    spanTagName? (c :: cs) = spanWordName? (c :: cs) := by
  rw [spanTagName?]
  · rintro _ heq
    obtain ⟨rfl, -⟩ := List.cons.inj heq
    revert hc
    decide
  · rintro _ heq
    obtain ⟨rfl, -⟩ := List.cons.inj heq
    revert hc
    decide
  · rintro _ heq
    obtain ⟨rfl, -⟩ := List.cons.inj heq
    revert hc
    decide

/-- The name of a tag is read alike when the source is cut off behind the character that ends
it. -/
theorem spanTagName?_cut {cs name kept cut : List Char}
    (h : spanTagName? cs = some (name, kept ++ cut)) (hkept : kept ≠ []) :
    spanTagName? (name ++ kept) = some (name, kept) := by
  unfold spanTagName? at h
  split at h
  next cs =>
    obtain ⟨⟨x, y⟩, hxy, heq⟩ := Option.map_eq_some_iff.1 h
    obtain ⟨rfl, rfl⟩ := Prod.mk.inj heq
    rw [List.cons_append, spanTagName?, spanWordName?_cut hxy hkept]
    rfl
  next cs =>
    obtain ⟨rfl, -⟩ := Prod.mk.inj (Option.some.inj h)
    rfl
  next cs =>
    obtain ⟨rfl, -⟩ := Prod.mk.inj (Option.some.inj h)
    rfl
  next cs _ _ _ =>
    have hword := spanWordName?_cut h hkept
    obtain ⟨c, more, rfl, hc⟩ := exists_isAlpha_of_spanWordName? h
    rw [List.cons_append, spanTagName?_of_isAlpha hc, ← List.cons_append, hword]

/-- A tag is read alike when the source is cut off behind it. -/
theorem spanTag?_cut {cs name args kept cut : List Char}
    (h : spanTag? cs = some (name, args, kept ++ cut)) :
    spanTag? (name ++ args ++ '>' :: '>' :: kept) = some (name, args, kept) := by
  unfold spanTag? at h
  cases hname : spanTagName? cs with
  | none => rw [hname] at h; cases h
  | some found =>
    obtain ⟨name', afterName⟩ := found
    rw [hname] at h
    dsimp only at h
    cases hargs : spanArguments? afterName with
    | none => rw [hargs] at h; cases h
    | some found =>
      obtain ⟨args', rest⟩ := found
      rw [hargs] at h
      simp only [Option.some.injEq, Prod.mk.injEq] at h
      obtain ⟨rfl, rfl, rfl⟩ := h
      have hafter : afterName = (args' ++ '>' :: '>' :: kept) ++ cut := by
        rw [← spanArguments?_append hargs]
        simp
      rw [hafter] at hname
      rw [List.append_assoc, spanTag?, spanTagName?_cut hname (by simp)]
      dsimp only
      rw [spanArguments?_cut hargs]

/-! ### Text at a cut -/

/-- Text ends at the end of the source or before a `<<`. -/
def EndsText (cs : List Char) : Prop :=
  cs = [] ∨ ∃ inner, cs = '<' :: '<' :: inner

theorem spanText_endsText (cs : List Char) : EndsText (spanText cs).2 := by
  fun_induction spanText cs with
  | case1 => exact .inl rfl
  | case2 inner => exact .inr ⟨inner, rfl⟩
  | case3 c cs _ run rest h ih => rwa [h] at ih

theorem spanText_of_endsText {cs : List Char} (h : EndsText cs) : spanText cs = ([], cs) := by
  obtain rfl | ⟨inner, rfl⟩ := h
  · rfl
  · rfl

theorem spanText_cons {c : Char} {cs : List Char}
    (h : ∀ inner, c = '<' → cs = '<' :: inner → False) :
    spanText (c :: cs) = (c :: (spanText cs).1, (spanText cs).2) := by
  rw [spanText]
  exact h

/-- Text ends where it did when the source is cut off at a place where text may end. -/
theorem spanText_cut {cs run kept cut : List Char} (h : spanText cs = (run, kept ++ cut))
    (hkept : EndsText kept) : spanText (run ++ kept) = (run, kept) := by
  fun_induction spanText cs generalizing run with
  | case1 =>
    obtain ⟨rfl, -⟩ := Prod.mk.inj h
    exact spanText_of_endsText hkept
  | case2 inner =>
    obtain ⟨rfl, -⟩ := Prod.mk.inj h
    exact spanText_of_endsText hkept
  | case3 c cs hopen more rest hspan ih =>
    obtain ⟨rfl, rfl⟩ := Prod.mk.inj h
    have hcs : (more ++ kept) ++ cut = cs := by
      rw [List.append_assoc, ← spanText_append cs, hspan]
    have hopen' : ∀ inner, c = '<' → more ++ kept = '<' :: inner → False := by
      intro inner hc hmore
      exact hopen (inner ++ cut) hc (by rw [← hcs, hmore, List.cons_append])
    rw [List.cons_append, spanText_cons hopen', ih hspan]

end StoryEngine
