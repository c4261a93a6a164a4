import StoryEngine.Proofs.Passage.Grammar
import StoryEngine.Proofs.Passage.Reread
/-!
# StoryEngine.Proofs.Passage.Segmentation

Every source is divided into segments, and into those that the grammar of a passage reads
(`segmentation_segmentsOf`). The rules read a source from one segment to the next, so what a
segment is can be told from the characters behind its beginning: whether they make a tag, whether
they begin with a `<<` that makes none, and otherwise how far the next `<<` is.
-/

namespace StoryEngine

open Grammar

/-! ### Bytes -/

theorem utf8Length_eq (cs : List Char) : utf8Length cs = (String.ofList cs).utf8ByteSize := by
  suffices h : ∀ n, cs.foldl (fun n c => n + c.utf8Size) n = n + (String.ofList cs).utf8ByteSize by
    rw [utf8Length, h 0, Nat.zero_add]
  induction cs with
  | nil => simp
  | cons c cs ih =>
    intro n
    rw [List.foldl_cons, ih, ← List.singleton_append, String.ofList_append,
      String.utf8ByteSize_append]
    simp [Nat.add_assoc]

theorem utf8Length_append (front back : List Char) :
    utf8Length (front ++ back) = utf8Length front + utf8Length back := by
  simp [utf8Length_eq, String.ofList_append, String.utf8ByteSize_append]

/-! ### From one segment to the next -/

/-- The source of the segments. -/
def sourceOf (segments : List Segment) : String :=
  String.join (segments.map Segment.source)

theorem toList_sourceOf (segments : List Segment) :
    (sourceOf segments).toList = charsOf segments := by
  simp [sourceOf, charsOf, String.toList_join, List.flatMap_map]

theorem sourceOf_eq (segments : List Segment) :
    sourceOf segments = String.ofList (charsOf segments) := by
  rw [← toList_sourceOf, String.ofList_toList]

theorem utf8ByteSize_sourceOf (segments : List Segment) :
    (sourceOf segments).utf8ByteSize = utf8Length (charsOf segments) := by
  rw [utf8Length_eq, sourceOf_eq]

/-- What the first segment can be, by what the source begins with. -/
theorem segmentsFrom_eq_cons {start : Nat} {cs : List Char} {first : Segment}
    {rest : List Segment} (h : segmentsFrom start cs = first :: rest) :
    (∃ inner name args after, cs = '<' :: '<' :: inner ∧ spanTag? inner = some (name, args, after) ∧
      first = .tag (Tag.ofParts start name args) ∧
      rest = segmentsFrom (Tag.ofParts start name args).stop after) ∨
    (∃ inner, cs = '<' :: '<' :: inner ∧ spanTag? inner = none ∧ first = .text "<<" ∧
      rest = segmentsFrom (start + 2) inner) ∨
    ∃ c more, cs = c :: more ∧ (∀ inner, c = '<' → more = '<' :: inner → False) ∧
      first = .text (String.ofList (c :: (spanText more).1)) ∧
      rest = segmentsFrom (start + utf8Length (c :: (spanText more).1)) (spanText more).2 := by
  fun_cases segmentsFrom start cs with
  | case1 => rw [segmentsFrom_nil] at h; cases h
  | case2 inner name args after hspan =>
    rw [segmentsFrom_tag start hspan] at h
    obtain ⟨rfl, rfl⟩ := List.cons.inj h
    exact .inl ⟨inner, name, args, after, rfl, hspan, rfl, rfl⟩
  | case3 inner hspan =>
    rw [segmentsFrom_open start hspan] at h
    obtain ⟨rfl, rfl⟩ := List.cons.inj h
    exact .inr (.inl ⟨inner, rfl, hspan, rfl, rfl⟩)
  | case4 c more hopen =>
    rw [segmentsFrom_run start hopen] at h
    obtain ⟨rfl, rfl⟩ := List.cons.inj h
    exact .inr (.inr ⟨c, more, rfl, hopen, rfl, rfl⟩)

/-- Where a segment begins, the segments from there on are those of the rest of the source. -/
theorem segmentsFrom_rest {start : Nat} {cs : List Char} {before rest : List Segment}
    (h : segmentsFrom start cs = before ++ rest) :
    segmentsFrom (start + utf8Length (charsOf before)) (charsOf rest) = rest := by
  induction before generalizing start cs with
  | nil =>
    have hcs : charsOf rest = cs := by
      rw [← charsOf_segmentsFrom start cs, h, List.nil_append]
    rw [hcs]
    exact h
  | cons first before ih =>
    rw [charsOf_cons, utf8Length_append, ← Nat.add_assoc]
    obtain ⟨inner, name, args, after, rfl, hspan, rfl, htail⟩ | ⟨inner, rfl, hspan, rfl, htail⟩ |
      ⟨c, more, rfl, hopen, rfl, htail⟩ := segmentsFrom_eq_cons h
    · simpa [Segment.source, Tag.ofParts] using ih htail.symm
    · exact ih htail.symm
    · simpa [Segment.source] using ih htail.symm

/-! ### What is read where a segment begins -/

/-- The tag that the rules read at the front of the characters, which begin at the byte offset:
`<<`, a name, arguments and `>>`. -/
def Tag.ReadAt (tag : Tag) (start : Nat) (cs : List Char) : Prop :=
  ∃ inner name afterName args rest,
    cs = '<' :: '<' :: inner ∧ tagName.Reads inner (some (name, afterName)) ∧
    tagArgs.Reads afterName (some (args, '>' :: '>' :: rest)) ∧ tag = Tag.ofParts start name args

theorem Tag.readAt_iff {tag : Tag} {start : Nat} {inner : List Char} :
    tag.ReadAt start ('<' :: '<' :: inner) ↔
      ∃ name args rest, spanTag? inner = some (name, args, rest) ∧ tag = Tag.ofParts start name args := by
  constructor
  · rintro ⟨_, name, afterName, args, rest, heq, hname, hargs, htag⟩
    cases heq
    exact ⟨name, args, rest, spanTag?_eq_some_iff.2 ⟨afterName, hname, hargs⟩, htag⟩
  · rintro ⟨name, args, rest, hspan, htag⟩
    obtain ⟨afterName, hname, hargs⟩ := spanTag?_eq_some_iff.1 hspan
    exact ⟨inner, name, afterName, args, rest, rfl, hname, hargs, htag⟩

/-- No tag is read where there is no `<<`. -/
theorem Tag.not_readAt {tag : Tag} {start : Nat} {c : Char} {more : List Char}
    (hopen : ∀ inner, c = '<' → more = '<' :: inner → False) : ¬ tag.ReadAt start (c :: more) := by
  rintro ⟨inner, _, _, _, _, heq, -⟩
  obtain ⟨rfl, rfl⟩ := List.cons.inj heq
  exact hopen inner rfl rfl

theorem not_prefix_of_ne {c : Char} {more : List Char}
    (hopen : ∀ inner, c = '<' → more = '<' :: inner → False) : ¬ ['<', '<'] <+: c :: more := by
  rintro ⟨inner, heq⟩
  obtain ⟨rfl, rfl⟩ := List.cons.inj heq
  exact hopen inner rfl rfl

/-- There is no `<<` in the characters up to the next one. -/
theorem spanText_not_infix (cs : List Char) : ¬ ['<', '<'] <:+: (spanText cs).1 := by
  fun_induction spanText cs with
  | case1 => simp
  | case2 => simp
  | case3 c cs hopen run rest hrun ih =>
    rw [hrun] at ih
    rw [List.infix_cons_iff, not_or]
    refine ⟨?_, ih⟩
    rintro ⟨inner, heq⟩
    obtain ⟨rfl, rfl⟩ := List.cons.inj heq
    -- the run and what follows it are the characters again
    have := spanText_append cs
    rw [hrun] at this
    exact hopen (inner ++ rest) rfl this.symm

variable {start : Nat} {cs : List Char} {first : Segment} {rest : List Segment}

/-- The first segment is a tag exactly where the rules read one. -/
theorem eq_tag_iff (h : segmentsFrom start cs = first :: rest) (tag : Tag) :
    first = .tag tag ↔ tag.ReadAt start cs := by
  obtain ⟨inner, name, args, _, rfl, hspan, rfl, -⟩ | ⟨inner, rfl, hspan, rfl, -⟩ |
    ⟨c, more, rfl, hopen, rfl, -⟩ := segmentsFrom_eq_cons h
  · rw [Tag.readAt_iff, hspan]
    constructor
    · intro heq
      exact ⟨name, args, _, rfl, (Segment.tag.inj heq).symm⟩
    · rintro ⟨_, _, _, heq, rfl⟩
      cases heq
      rfl
  · rw [Tag.readAt_iff, hspan]
    simp
  · simpa using Tag.not_readAt hopen

/-- The first segment is a `<<` by itself exactly where they read none. -/
theorem eq_opening_iff (h : segmentsFrom start cs = first :: rest) :
    first = .text "<<" ↔ ['<', '<'] <+: cs ∧ macroTag.Reads cs none := by
  obtain ⟨inner, name, args, _, rfl, hspan, rfl, -⟩ | ⟨inner, rfl, hspan, rfl, -⟩ |
    ⟨c, more, rfl, hopen, rfl, -⟩ := segmentsFrom_eq_cons h
  · have htag := reads_macroTag inner
    rw [hspan] at htag
    simp only [reduceCtorEq, false_iff, not_and]
    intro _ hnone
    cases htag.unique hnone
  · have htag := reads_macroTag inner
    rw [hspan] at htag
    simpa using htag
  · simp only [text_ne_open hopen, not_prefix_of_ne hopen, false_and]

theorem offsets_of_tag {tag : Tag} (h : segmentsFrom start cs = .tag tag :: rest) :
    tag.start = start ∧ tag.stop = start + tag.source.utf8ByteSize := by
  obtain ⟨_, name, args, _, -, -, heq, -⟩ | ⟨_, -, -, heq, -⟩ | ⟨_, _, -, -, heq, -⟩ :=
    segmentsFrom_eq_cons h
  · obtain rfl := Segment.tag.inj heq
    simp [Tag.ofParts, utf8Length_eq]
  · cases heq
  · cases heq

/-- Any other text has no `<<` in it, begins with none and goes on to the next one. -/
theorem run_of_text {s : String} (h : segmentsFrom start cs = .text s :: rest) (hs : s ≠ "<<") :
    ¬ EndsText cs ∧ ¬ ['<', '<'] <:+: s.toList ∧ EndsText (charsOf rest) := by
  obtain ⟨_, _, _, _, -, -, heq, -⟩ | ⟨_, -, -, heq, -⟩ | ⟨c, more, rfl, hopen, heq, rfl⟩ :=
    segmentsFrom_eq_cons h
  · cases heq
  · exact absurd (Segment.text.inj heq) hs
  obtain rfl := Segment.text.inj heq
  have hne : ¬ ['<', '<'] <+: c :: more := not_prefix_of_ne hopen
  refine ⟨?_, ?_, ?_⟩
  · rintro (hnil | ⟨inner, hinner⟩)
    · cases hnil
    · exact hne ⟨inner, hinner.symm⟩
  · rw [String.toList_ofList, List.infix_cons_iff, not_or]
    refine ⟨fun hprefix => hne ?_, spanText_not_infix more⟩
    -- the run is the front of what stands there
    have hfront : c :: (spanText more).1 <+: c :: more := ⟨(spanText more).2, by
      rw [List.cons_append, spanText_append]⟩
    exact hprefix.trans hfront
  · rw [charsOf_segmentsFrom]
    exact spanText_endsText more

/-- A node is read where a segment begins. -/
theorem reads_node (h : segmentsFrom start cs = first :: rest) :
    node.Reads cs (some (first.source.toList, charsOf rest)) := by
  obtain ⟨inner, name, args, after, rfl, hspan, rfl, rfl⟩ | ⟨inner, rfl, hspan, rfl, rfl⟩ |
    ⟨c, more, rfl, hopen, rfl, rfl⟩ := segmentsFrom_eq_cons h
  · have htag := reads_macroTag inner
    rw [hspan] at htag
    refine (Peg.Reads.altFirst htag).as ?_
    simp [charsOf_segmentsFrom, Segment.source, Tag.ofParts]
  · have htag := reads_macroTag inner
    rw [hspan] at htag
    rw [charsOf_segmentsFrom]
    exact .altSecond htag (reads_text_opening inner)
  · have hne := not_prefix_of_ne hopen
    refine (Peg.Reads.altSecond (macroTag_fails hne) (reads_text_run hne)).as ?_
    simp [charsOf_segmentsFrom, Segment.source]

theorem reads_node_nil : node.Reads [] none :=
  .altSecond (macroTag_fails (by simp)) (.altSecond (.seqFails
    (.neg_seq Peg.reads_lit_nil Peg.reads_any_nil)) Peg.reads_lit_nil)

/-- The nodes of a source are read one after the other to its end. -/
theorem reads_nodes {segments : List Segment} (h : segmentsFrom start cs = segments) :
    (Peg.star node).Reads cs (some (cs, [])) := by
  have hcs := charsOf_segmentsFrom start cs
  rw [h] at hcs
  induction segments generalizing start cs with
  | nil =>
    subst hcs
    exact .starStops reads_node_nil
  | cons first rest ih =>
    have hrest := segmentsFrom_rest (show segmentsFrom start cs = [first] ++ rest from h)
    refine (Peg.Reads.starMore (reads_node h) (ih hrest rfl)).as ?_
    rw [Peg.Reading.behind_some, ← charsOf_cons, hcs]

/-- How a source is divided into segments. -/
structure Segmentation (source : String) (segments : List Segment) : Prop where
  /-- The rule of a passage reads the source to its end. -/
  whole : passage.Reads source.toList (some (source.toList, []))
  /-- The segments are the source, with nothing lost, doubled or moved. -/
  tiles : sourceOf segments = source
  /-- A tag stands in the source at its offsets, which are those of whole characters. -/
  placed : ∀ before tag after, segments = before ++ .tag tag :: after →
    source = sourceOf before ++ tag.source ++ sourceOf after ∧
    tag.start = (sourceOf before).utf8ByteSize ∧
    tag.stop = (sourceOf before ++ tag.source).utf8ByteSize
  /-- A segment is a tag exactly where the rules read one. -/
  tag_iff : ∀ before segment after, segments = before ++ segment :: after →
    ∀ tag : Tag, segment = .tag tag
      ↔ tag.ReadAt (sourceOf before).utf8ByteSize (charsOf (segment :: after))
  /-- A `<<` is a segment by itself exactly where they read none. -/
  opening_iff : ∀ before segment after, segments = before ++ segment :: after →
    (segment = .text "<<" ↔ ['<', '<'] <+: charsOf (segment :: after) ∧
      macroTag.Reads (charsOf (segment :: after)) none)
  /-- Any other text has no `<<` in it and is as long as it can be. -/
  run : ∀ before s after, segments = before ++ .text s :: after → s ≠ "<<" →
    s ≠ "" ∧ ¬ ['<', '<'] <:+: s.toList ∧ EndsText (charsOf after) ∧
    ∀ earlier s', before = earlier ++ [.text s'] → s' = "<<"

/-- Every source is divided so. -/
theorem segmentation_segmentsOf (source : String) : Segmentation source (segmentsOf source) := by
  have hchars : charsOf (segmentsOf source) = source.toList := charsOf_segmentsFrom 0 source.toList
  -- the segments from one of them on are those of the source from there on
  have from_here {before segment after} (h : segmentsOf source = before ++ segment :: after) :
      segmentsFrom (sourceOf before).utf8ByteSize (charsOf (segment :: after))
        = segment :: after := by
    simpa [utf8ByteSize_sourceOf] using segmentsFrom_rest h
  constructor
  case whole => exact (Peg.Reads.seq (reads_nodes (rfl : segmentsFrom 0 _ = _)) .ends).as (by simp)
  case tiles => rw [sourceOf_eq, hchars, String.ofList_toList]
  case placed =>
    intro before tag after h
    obtain ⟨hstart, hstop⟩ := offsets_of_tag (from_here h)
    refine ⟨?_, hstart, by rw [hstop, String.utf8ByteSize_append]⟩
    rw [← String.toList_inj, ← hchars, h]
    simp [toList_sourceOf, Segment.source]
  case tag_iff =>
    intro before segment after h tag
    exact eq_tag_iff (from_here h) tag
  case opening_iff =>
    intro before segment after h
    exact eq_opening_iff (from_here h)
  case run =>
    intro before s after h hs
    obtain ⟨hbegins, hinside, hbehind⟩ := run_of_text (from_here h) hs
    refine ⟨?_, hinside, hbehind, ?_⟩
    · rintro rfl
      exact hbegins hbehind
    · -- an earlier run would have gone on over this one
      rintro earlier s' rfl
      by_contra hs'
      have hearlier : segmentsOf source = earlier ++ .text s' :: (.text s :: after) := by simp [h]
      exact hbegins (run_of_text (from_here hearlier) hs').2.2

/-- The `<<` that overlaps a stray one is not reached. -/
example : segmentsOf "é<<<a>>" = [.text "é", .text "<<", .text "<a>>"] := by decide +kernel

end StoryEngine
