import StoryEngine.Passage.Body
import StoryEngine.Proofs.Passage.Cut
/-!
# StoryEngine.Proofs.Passage.Reread

The contents of a clause are read again when its macro shows them. What stands behind the clause is
then cut off, and a `<<` that was text for want of a closing quote, comment end or link bracket
before the end of its tag may open a tag without it (`quote_behind_body`). That is the only thing
that can differ: in all other respects the contents are divided as they were in the whole source
(`clause_reread_iff`).
-/

namespace StoryEngine

/-! ### Segments of a part of the source -/

/-- The characters that the segments were read from. -/
def charsOf (segments : List Segment) : List Char :=
  segments.flatMap fun segment => segment.source.toList

@[simp] theorem charsOf_cons (segment : Segment) (segments : List Segment) :
    charsOf (segment :: segments) = segment.source.toList ++ charsOf segments := rfl

@[simp] theorem charsOf_append (left right : List Segment) :
    charsOf (left ++ right) = charsOf left ++ charsOf right :=
  List.flatMap_append

/-- The tag that is made of a name and arguments as written, at the byte offset. -/
def Tag.ofParts (start : Nat) (name args : List Char) : Tag :=
  let source := '<' :: '<' :: name ++ args ++ ['>', '>']
  ⟨String.ofList name, String.ofList (dropBlanks args), String.ofList source, start,
    start + utf8Length source⟩

theorem segmentsFrom_nil (start : Nat) : segmentsFrom start [] = [] := by
  rw [segmentsFrom]

theorem segmentsFrom_tag {inner name args rest : List Char} (start : Nat)
    (h : spanTag? inner = some (name, args, rest)) :
    segmentsFrom start ('<' :: '<' :: inner)
      = .tag (Tag.ofParts start name args) :: segmentsFrom (Tag.ofParts start name args).stop rest := by
  rw [segmentsFrom]
  split
  next found =>
    rw [h] at found
    obtain ⟨rfl, rfl, rfl⟩ : name = _ ∧ args = _ ∧ rest = _ := by simpa using found
    rfl
  next found => rw [h] at found; cases found

theorem segmentsFrom_open {inner : List Char} (start : Nat) (h : spanTag? inner = none) :
    segmentsFrom start ('<' :: '<' :: inner) = .text "<<" :: segmentsFrom (start + 2) inner := by
  rw [segmentsFrom]
  split
  next found => rw [h] at found; cases found
  next => rfl

theorem segmentsFrom_run {c : Char} {rest : List Char} (start : Nat)
    (h : ∀ inner, c = '<' → rest = '<' :: inner → False) :
    segmentsFrom start (c :: rest)
      = .text (String.ofList (c :: (spanText rest).1))
        :: segmentsFrom (start + utf8Length (c :: (spanText rest).1)) (spanText rest).2 := by
  rw [segmentsFrom]
  exact h

/-- What holds of no source, and of a source if it holds of what stands behind its first segment,
holds of every source. -/
theorem segmentsFrom_induction {motive : Nat → List Char → Prop}
    (nil : ∀ start, motive start [])
    (tag : ∀ start inner name args rest, spanTag? inner = some (name, args, rest) →
      motive (Tag.ofParts start name args).stop rest → motive start ('<' :: '<' :: inner))
    (opening : ∀ start inner, spanTag? inner = none → motive (start + 2) inner →
      motive start ('<' :: '<' :: inner))
    (text : ∀ start c rest, (∀ inner, c = '<' → rest = '<' :: inner → False) →
      motive (start + utf8Length (c :: (spanText rest).1)) (spanText rest).2 →
      motive start (c :: rest))
    (start : Nat) (cs : List Char) : motive start cs :=
  segmentsFrom.induct motive nil tag opening text start cs

/-- The segments tile the source. -/
theorem charsOf_segmentsFrom (start : Nat) (cs : List Char) :
    charsOf (segmentsFrom start cs) = cs := by
  induction start, cs using segmentsFrom_induction with
  | nil start =>
    rw [segmentsFrom_nil]
    rfl
  | tag start inner name args rest hspan ih =>
    rw [segmentsFrom_tag start hspan, charsOf_cons, ih]
    simp only [Segment.source, Tag.ofParts, String.toList_ofList]
    rw [← spanTag?_append hspan]
    simp
  | opening start inner hspan ih =>
    rw [segmentsFrom_open start hspan, charsOf_cons, ih]
    rfl
  | text start c rest hopen ih =>
    rw [segmentsFrom_run start hopen, charsOf_cons, ih]
    simp only [Segment.source, String.toList_ofList, List.cons_append, spanText_append]

/-- What stands behind a tag is divided as a source of its own. -/
theorem segmentsFrom_behind {start : Nat} {cs : List Char} {before after : List Segment} {tag : Tag}
    (h : segmentsFrom start cs = before ++ .tag tag :: after) :
    segmentsFrom tag.stop (charsOf after) = after := by
  induction start, cs using segmentsFrom_induction generalizing before with
  | nil start =>
    rw [segmentsFrom_nil] at h
    simp at h
  | tag start inner name args rest hspan ih =>
    rw [segmentsFrom_tag start hspan] at h
    cases before with
    | nil =>
      obtain ⟨heq, rfl⟩ := List.cons.inj h
      obtain rfl := Segment.tag.inj heq
      rw [charsOf_segmentsFrom]
    | cons first before => exact ih (List.cons.inj h).2
  | opening start inner hspan ih =>
    rw [segmentsFrom_open start hspan] at h
    cases before with
    | nil => cases h
    | cons first before => exact ih (List.cons.inj h).2
  | text start c rest hopen ih =>
    rw [segmentsFrom_run start hopen] at h
    cases before with
    | nil => cases h
    | cons first before => exact ih (List.cons.inj h).2

/-- The segment of a source that stands `bytes` further on. -/
def Segment.shift (bytes : Nat) : Segment → Segment
  | .text s => .text s
  | .tag t => .tag { t with start := bytes + t.start, stop := bytes + t.stop }

theorem segmentsFrom_shift (bytes start : Nat) (cs : List Char) :
    (segmentsFrom start cs).map (.shift bytes) = segmentsFrom (bytes + start) cs := by
  induction start, cs using segmentsFrom_induction with
  | nil start => rw [segmentsFrom_nil, segmentsFrom_nil, List.map_nil]
  | tag start inner name args rest hspan ih =>
    rw [segmentsFrom_tag start hspan, segmentsFrom_tag (bytes + start) hspan, List.map_cons, ih]
    simp only [Segment.shift, Tag.ofParts, Nat.add_assoc]
  | opening start inner hspan ih =>
    rw [segmentsFrom_open start hspan, segmentsFrom_open (bytes + start) hspan, List.map_cons, ih]
    rfl
  | text start c rest hopen ih =>
    rw [segmentsFrom_run start hopen, segmentsFrom_run (bytes + start) hopen, List.map_cons, ih]
    simp only [Segment.shift, Nat.add_assoc]

/-- The first segment of a source that begins with `<<` begins with `<<`. -/
theorem endsText_charsOf {start : Nat} {cs : List Char} {run more : List Segment}
    (hcs : EndsText cs) (h : segmentsFrom start cs = run ++ more) : EndsText (charsOf run) := by
  cases run with
  | nil => exact .inl rfl
  | cons first run =>
    obtain rfl | ⟨inner, rfl⟩ := hcs
    · rw [segmentsFrom] at h
      cases h
    · right
      cases hspan : spanTag? inner with
      | none =>
        rw [segmentsFrom_open _ hspan] at h
        obtain ⟨rfl, -⟩ := List.cons.inj h
        exact ⟨charsOf run, rfl⟩
      | some found =>
        obtain ⟨name, args, rest⟩ := found
        rw [segmentsFrom_tag _ hspan] at h
        obtain ⟨rfl, -⟩ := List.cons.inj h
        rw [charsOf_cons]
        simp [Segment.source, Tag.ofParts]

/-! ### Reading a run of segments again -/

/-- None of the segments that is a `<<` left as text opens a tag when the source ends with the
segments. -/
def OpensNone (run : List Segment) : Prop :=
  ∀ before after, run = before ++ .text "<<" :: after → spanTag? (charsOf after) = none

theorem opensNone_cons {segment : Segment} {run : List Segment} :
    OpensNone (segment :: run)
      ↔ (segment = .text "<<" → spanTag? (charsOf run) = none) ∧ OpensNone run := by
  constructor
  · intro h
    constructor
    · rintro rfl
      exact h [] run rfl
    · rintro before after rfl
      exact h (segment :: before) after rfl
  · rintro ⟨hfirst, hrun⟩ before after heq
    cases before with
    | nil =>
      obtain ⟨rfl, rfl⟩ := List.cons.inj heq
      exact hfirst rfl
    | cons first before => exact hrun before after (List.cons.inj heq).2

/-- A text between tags is not taken for a `<<` that opens none. -/
theorem text_ne_open {c : Char} {rest : List Char}
    (h : ∀ inner, c = '<' → rest = '<' :: inner → False) :
    Segment.text (String.ofList (c :: (spanText rest).1)) ≠ .text "<<" := by
  intro heq
  have hchars : c :: (spanText rest).1 = ['<', '<'] := by
    have := congrArg String.toList (Segment.text.inj heq)
    rwa [String.toList_ofList] at this
  obtain ⟨rfl, hrun⟩ := List.cons.inj hchars
  apply h (spanText rest).2 rfl
  calc rest = (spanText rest).1 ++ (spanText rest).2 := (spanText_append rest).symm
    _ = '<' :: (spanText rest).2 := by rw [hrun, List.singleton_append]

/-- A run of segments is what its own source is divided into exactly when no `<<` in it that was
left as text for want of what stands behind the run opens a tag. -/
theorem segmentsFrom_charsOf_iff {start : Nat} {cs : List Char} {run more : List Segment}
    (h : segmentsFrom start cs = run ++ more) :
    segmentsFrom start (charsOf run) = run ↔ OpensNone run := by
  -- along the segments of the whole source: where they agree, so do the sources behind them
  induction start, cs using segmentsFrom_induction generalizing run with
  | nil start =>
    rw [segmentsFrom_nil] at h
    obtain ⟨rfl, -⟩ := List.append_eq_nil_iff.1 h.symm
    simp [charsOf, segmentsFrom_nil, OpensNone]
  | tag start inner name args rest hspan ih =>
    cases run with
    | nil => simp [charsOf, segmentsFrom_nil, OpensNone]
    | cons first run =>
      rw [segmentsFrom_tag start hspan] at h
      obtain ⟨rfl, htail : _ = run ++ more⟩ := List.cons.inj h
      have hrest : rest = charsOf run ++ charsOf more := by
        rw [← charsOf_append, ← htail, charsOf_segmentsFrom]
      rw [hrest] at hspan
      have hchars : charsOf (.tag (Tag.ofParts start name args) :: run)
          = '<' :: '<' :: (name ++ args ++ '>' :: '>' :: charsOf run) := by
        simp [Segment.source, Tag.ofParts]
      have htext : Segment.tag (Tag.ofParts start name args) ≠ .text "<<" := by
        intro heq
        cases heq
      rw [hchars, segmentsFrom_tag start (spanTag?_cut hspan), List.cons_inj_right, ih htail,
        opensNone_cons]
      simp only [htext, false_implies, true_and]
  | opening start inner hspan ih =>
    cases run with
    | nil => simp [charsOf, segmentsFrom_nil, OpensNone]
    | cons first run =>
      rw [segmentsFrom_open start hspan] at h
      obtain ⟨rfl, htail⟩ := List.cons.inj h
      have hchars : charsOf (.text "<<" :: run) = '<' :: '<' :: charsOf run := rfl
      rw [opensNone_cons, hchars]
      cases hcut : spanTag? (charsOf run) with
      | none =>
        rw [segmentsFrom_open start hcut, List.cons_inj_right, ih htail]
        simp only [implies_true, true_and]
      | some found =>
        obtain ⟨name, args, rest⟩ := found
        rw [segmentsFrom_tag start hcut]
        constructor
        · intro heq
          cases heq
        · rintro ⟨hnone, -⟩
          cases hnone rfl
  | text start c rest hopen ih =>
    cases run with
    | nil => simp [charsOf, segmentsFrom_nil, OpensNone]
    | cons first run =>
      rw [segmentsFrom_run start hopen] at h
      obtain ⟨rfl, htail : _ = run ++ more⟩ := List.cons.inj h
      have hkept : EndsText (charsOf run) := endsText_charsOf (spanText_endsText rest) htail
      have hspan : spanText rest = ((spanText rest).1, charsOf run ++ charsOf more) := by
        rw [← charsOf_append, ← htail, charsOf_segmentsFrom]
      have hcut := spanText_cut hspan hkept
      have hopen' : ∀ inner, c = '<' → (spanText rest).1 ++ charsOf run = '<' :: inner → False := by
        intro inner hc hinner
        apply hopen (inner ++ charsOf more) hc
        rw [← spanText_append rest, hspan, ← List.append_assoc, hinner]
        rfl
      have hchars : charsOf (.text (String.ofList (c :: (spanText rest).1)) :: run)
          = c :: ((spanText rest).1 ++ charsOf run) := by
        simp [Segment.source]
      rw [hchars, segmentsFrom_run start hopen', hcut, List.cons_inj_right, ih htail,
        opensNone_cons]
      simp only [text_ne_open hopen, false_implies, true_and]

/-! ### The clauses of a body -/

/-- The clause that a tag begins, with the segments up to the next clause or the closing tag. -/
def Clause.ofRun (tag : Tag) (run : List Segment) : Clause :=
  { Clause.ofTag tag with contents := String.ofList (charsOf run) }

theorem Clause.extend_ofRun (tag : Tag) (run : List Segment) (segment : Segment) :
    (Clause.ofRun tag run).extend segment.source = .ofRun tag (run ++ [segment]) := by
  simp only [Clause.ofRun, Clause.extend, charsOf_append, charsOf_cons, String.ofList_append,
    String.ofList_toList]
  congr 1
  show _ ++ _ = _ ++ (_ ++ String.ofList [])
  rw [String.ofList_nil, String.append_empty]

/-- How a body divides the segments from its opening tag on: each clause is made of a tag and of
the run of segments behind it, then stands the closing tag, then what does not belong to the
body. -/
structure Body.Divides (body : Body) (parent : String) (children : List String)
    (segments : List Segment) (parts : List (Tag × List Segment)) (closing : Tag)
    (behind : List Segment) : Prop where
  segments : segments = parts.flatMap (fun part => .tag part.1 :: part.2) ++ .tag closing :: behind
  clauses : body.clauses = parts.map fun part => .ofRun part.1 part.2
  children : ∀ part ∈ parts.tail, part.1.name ∈ children
  closes : closing.closes parent
  stop : body.stop = closing.stop

theorem drop_succ_of_drop {segments rest : List Segment} {segment : Segment} {index : Nat}
    (h : segments.drop index = segment :: rest) : segments.drop (index + 1) = rest := by
  rw [← List.drop_drop, h]
  rfl

theorem divides_of_bodyFrom {parent : String} {children : List String} {depth index : Nat}
    {clause : Clause} {opener : Tag} {segments run rest : List Segment} {body : Body}
    (hclause : clause = .ofRun opener run) (hrest : segments.drop index = rest)
    (h : bodyFrom parent children depth clause index rest = .ok body) :
    ∃ contents others closing,
      body.Divides parent children (.tag opener :: (run ++ rest)) ((opener, contents) :: others)
        closing (segments.drop body.next) := by
  induction rest generalizing depth index clause opener run body with
  | nil => cases h
  | cons segment rest ih =>
    have hnext := drop_succ_of_drop hrest
    -- a segment that does not end the clause makes its run longer by one
    have longer : ∀ {depth : Nat},
        bodyFrom parent children depth (clause.extend segment.source) (index + 1) rest = .ok body →
        ∃ contents others closing,
          body.Divides parent children (.tag opener :: (run ++ segment :: rest))
            ((opener, contents) :: others) closing (segments.drop body.next) := by
      intro depth h
      have hrun : run ++ segment :: rest = run ++ [segment] ++ rest := by
        rw [List.append_assoc, List.singleton_append]
      rw [hrun]
      exact ih (hclause ▸ Clause.extend_ofRun opener run segment) hnext h
    cases segment with
    | text s =>
      rw [bodyFrom] at h
      exact longer h
    | tag tag =>
      by_cases hname : tag.name = parent
      · simp only [bodyFrom, if_pos hname] at h
        exact longer h
      by_cases hcloses : tag.closes parent = true
      · cases depth with
        | zero =>
          by_cases hblank : isBlankText tag.args = true
          · simp only [bodyFrom, if_neg hname, if_pos hcloses, if_pos hblank] at h
            cases h
            rw [hclause]
            exact ⟨run, [], tag, by simp [hnext], rfl, by simp, hcloses, rfl⟩
          · simp only [bodyFrom, if_neg hname, if_pos hcloses, if_neg hblank] at h
            cases h
        | succ outer =>
          simp only [bodyFrom, if_neg hname, if_pos hcloses] at h
          exact longer h
      by_cases hchild : (depth = 0 && children.contains tag.name) = true
      · simp only [bodyFrom, if_neg hname, if_neg hcloses, if_pos hchild] at h
        cases hinner : bodyFrom parent children 0 (.ofTag tag) (index + 1) rest with
        | error e => rw [hinner] at h; cases h
        | ok inner =>
          rw [hinner] at h
          cases h
          have hbegun : Clause.ofTag tag = .ofRun tag [] := rfl
          obtain ⟨contents, others, closing, hdiv⟩ := ih hbegun hnext hinner
          refine ⟨run, (tag, contents) :: others, closing, ?_, ?_, ?_, hdiv.closes, hdiv.stop⟩
          · rw [← List.nil_append rest, hdiv.segments]
            simp
          · rw [hclause, hdiv.clauses]
            rfl
          · rw [Bool.and_eq_true, List.contains_iff_mem] at hchild
            intro part hpart
            obtain rfl | hpart := List.mem_cons.1 hpart
            · exact hchild.2
            · exact hdiv.children part hpart
      · simp only [bodyFrom, if_neg hname, if_neg hcloses, if_neg hchild] at h
        exact longer h

/-- The clauses of a body, each with the segments that its contents were in the whole source. Read
again, the contents are divided into the same segments exactly when no `<<` among them that was
left as text, because what would make a tag of it goes on behind the clause, opens a tag there. -/
theorem clause_reread_iff {source : String} {opening : Nat} {children : List String}
    {body : Body} (h : bodyOf (segmentsOf source) opening children = .ok body) :
    ∃ opener contents others closing,
      body.Divides opener.name children ((segmentsOf source).drop opening)
        ((opener, contents) :: others) closing ((segmentsOf source).drop body.next) ∧
      ∀ part ∈ (opener, contents) :: others,
        ((segmentsOf (Clause.ofRun part.1 part.2).contents).map (.shift part.1.stop) = part.2
          ↔ OpensNone part.2) := by
  unfold bodyOf at h
  split at h
  next opener hopening =>
    have hdrop : (segmentsOf source).drop opening
        = .tag opener :: (segmentsOf source).drop (opening + 1) := by
      obtain ⟨hlt, hget⟩ := List.getElem?_eq_some_iff.1 hopening
      rw [List.drop_eq_getElem_cons hlt, hget]
    have hbegun : Clause.ofTag opener = .ofRun opener [] := rfl
    obtain ⟨contents, others, closing, hdiv⟩ := divides_of_bodyFrom hbegun rfl h
    rw [List.nil_append, ← hdrop] at hdiv
    refine ⟨opener, contents, others, closing, hdiv, ?_⟩
    rintro ⟨tag, run⟩ hpart
    obtain ⟨before, after, hwhole⟩ : ∃ before after,
        segmentsOf source = before ++ .tag tag :: (run ++ after) := by
      obtain ⟨earlier, later, hparts⟩ := List.append_of_mem hpart
      have hsegments := hdiv.segments
      rw [hparts, List.flatMap_append, List.flatMap_cons] at hsegments
      refine ⟨(segmentsOf source).take opening
          ++ earlier.flatMap (fun part => .tag part.1 :: part.2),
        later.flatMap (fun part => .tag part.1 :: part.2)
          ++ .tag closing :: (segmentsOf source).drop body.next, ?_⟩
      calc segmentsOf source
          = (segmentsOf source).take opening ++ (segmentsOf source).drop opening :=
            (List.take_append_drop opening (segmentsOf source)).symm
        _ = _ := by rw [hsegments]; simp only [List.append_assoc, List.cons_append]
    have hbehind := segmentsFrom_behind hwhole
    simp only [Clause.ofRun, segmentsOf, String.toList_ofList, segmentsFrom_shift, Nat.add_zero]
    exact segmentsFrom_charsOf_iff hbehind
  next => cases h

/-- Text that opens no tag, quoted text and comments are all read again as they were. -/
theorem clause_reread_text :
    let source := "a<<b>>1 < << \"<<c \"x\">>2<<d \">>\" /* >> */>>3<</b>>4"
    let body : Body :=
      ⟨[⟨"b", "", "1 < << \"", "<<b>>"⟩,
        ⟨"c", "\"x\"", "2<<d \">>\" /* >> */>>3", "<<c \"x\">>"⟩], 10, 50⟩
    bodyOf (segmentsOf source) 1 ["c"] = .ok body ∧
    ∃ opener contents others closing,
      body.Divides opener.name ["c"] ((segmentsOf source).drop 1)
        ((opener, contents) :: others) closing ((segmentsOf source).drop body.next) ∧
      ∀ part ∈ (opener, contents) :: others,
        ((segmentsOf (Clause.ofRun part.1 part.2).contents).map (.shift part.1.stop) = part.2
          ↔ OpensNone part.2) := by
  intro source body
  have hbody : bodyOf (segmentsOf source) 1 ["c"] = .ok body := by decide +kernel
  exact ⟨hbody, clause_reread_iff hbody⟩

/-- A quote behind a body keeps a `<<` in it from opening a tag; the contents alone, in which the
quote has no partner, begin with a tag. -/
theorem quote_behind_body :
    let source := "<<b>><<a \" >><</b>> \""
    let run : List Segment := [.text "<<", .text "a \" >>"]
    let body : Body := ⟨[⟨"b", "", "<<a \" >>", "<<b>>"⟩], 4, 19⟩
    let opener : Tag := ⟨"b", "", "<<b>>", 0, 5⟩
    bodyOf (segmentsOf source) 0 [] = .ok body ∧
    body.Divides "b" [] (segmentsOf source) [(opener, run)] ⟨"/b", "", "<</b>>", 13, 19⟩
      ((segmentsOf source).drop 4) ∧
    (segmentsOf "<<a \" >>").map (Segment.shift 5) = [Segment.tag ⟨"a", "\" ", "<<a \" >>", 5, 13⟩] ∧
    (segmentsOf (Clause.ofRun opener run).contents).map (.shift opener.stop) ≠ run := by
  intro source run body opener
  have hsegments : segmentsOf source
      = .tag opener :: (run ++ [.tag ⟨"/b", "", "<</b>>", 13, 19⟩, .text " \""]) := by
    decide +kernel
  refine ⟨by decide +kernel, ⟨?_, by decide +kernel, by simp, by decide +kernel, rfl⟩,
    by decide +kernel, by decide +kernel⟩
  rw [hsegments]
  rfl

end StoryEngine
