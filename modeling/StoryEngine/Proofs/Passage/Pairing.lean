import StoryEngine.Proofs.Passage.Segmentation
/-!
# StoryEngine.Proofs.Passage.Pairing

Which closing tag an opening tag is paired with, and what becomes of the source in between. Along
the segments behind the opening tag one counts how many calls of the macro are open: the body ends
where the count is 0 for the first time, and child tags divide it where the count is 1. The scan of
the segments, which keeps the count, the clause and the index at once, does just that
(`body_paired`).
-/

namespace StoryEngine

/-! ### How many calls of a macro are open -/

/-- How many more calls of the macro are open behind the segment than before it: a tag of its name
opens one, and a closing tag closes one. -/
def Segment.rise (parent : String) : Segment → Int
  | .text _ => 0
  | .tag t => (if t.name = parent then 1 else 0) - (if t.closes parent then 1 else 0)

/-- How many calls of the macro are open behind the segments, if `depth` are before them. -/
def depthBehind (parent : String) (depth : Int) (segments : List Segment) : Int :=
  segments.foldl (fun depth segment => depth + segment.rise parent) depth

/-- The child tag that the segment is, if it is one. What opens or closes a call of the macro is
none, whatever the child tags are. -/
def Segment.childTag? (parent : String) (children : List String) : Segment → Option Tag
  | .text _ => none
  | .tag t =>
    if t.name ≠ parent ∧ t.closes parent = false ∧ t.name ∈ children then some t else none

/-- The child tags among the segments at which one call of the macro is open, if `depth` are open
before the first segment. -/
def childTagsAt (parent : String) (children : List String) : Int → List Segment → List Tag
  | _, [] => []
  | depth, segment :: rest =>
    (if depth = 1 then (segment.childTag? parent children).toList else []) ++
      childTagsAt parent children (depth + segment.rise parent) rest

section Depth

variable {parent : String} {children : List String} {depth : Int} {segment : Segment}
  {segments more : List Segment} {tag : Tag}

/-- A closing tag is longer than the name that it closes. -/
theorem Tag.closes_eq_false (h : tag.name = parent) : tag.closes parent = false := by
  subst h
  unfold Tag.closes
  split
  · rename_i rest hname
    rw [hname]
    refine beq_eq_false_iff_ne.2 fun heq => ?_
    have := congrArg List.length heq
    simp at this
  · rename_i rest hname
    rw [hname]
    refine beq_eq_false_iff_ne.2 fun heq => ?_
    have := congrArg List.length heq
    simp only [List.length_cons] at this
    omega
  · rfl

@[simp] theorem rise_text (s : String) : (Segment.text s).rise parent = 0 := rfl

theorem rise_opening (h : tag.name = parent) : (Segment.tag tag).rise parent = 1 := by
  simp [Segment.rise, h, Tag.closes_eq_false h]

theorem Tag.name_ne (h : tag.closes parent = true) : tag.name ≠ parent := by
  intro hname
  rw [Tag.closes_eq_false hname] at h
  cases h

theorem rise_closing (h : tag.closes parent = true) : (Segment.tag tag).rise parent = -1 := by
  simp [Segment.rise, h, Tag.name_ne h]

theorem rise_other (hname : tag.name ≠ parent) (hcloses : tag.closes parent = false) :
    (Segment.tag tag).rise parent = 0 := by
  simp [Segment.rise, hname, hcloses]

theorem neg_one_le_rise (parent : String) (segment : Segment) : -1 ≤ segment.rise parent := by
  cases segment with
  | text s => simp
  | tag t =>
      rw [Segment.rise]
      split <;> split <;> omega

/-- Only behind a closing tag are fewer calls open. -/
theorem closes_of_rise (h : segment.rise parent = -1) :
    ∃ tag, segment = .tag tag ∧ tag.closes parent = true := by
  cases segment with
  | text s => simp at h
  | tag t =>
      refine ⟨t, rfl, ?_⟩
      by_contra hcloses
      by_cases hname : t.name = parent
      · rw [rise_opening hname] at h
        cases h
      · rw [rise_other hname (by simpa using hcloses)] at h
        cases h

theorem childTag?_eq_some (h : segment.childTag? parent children = some tag) :
    segment = .tag tag ∧ tag.name ≠ parent ∧ tag.closes parent = false ∧ tag.name ∈ children := by
  cases segment with
  | text s => cases h
  | tag t =>
      rw [Segment.childTag?, Option.ite_none_right_eq_some] at h
      obtain ⟨hchild, ⟨⟩⟩ := h
      exact ⟨rfl, hchild⟩

@[simp] theorem depthBehind_nil : depthBehind parent depth [] = depth := rfl

@[simp] theorem depthBehind_cons :
    depthBehind parent depth (segment :: segments) =
      depthBehind parent (depth + segment.rise parent) segments := rfl

@[simp] theorem depthBehind_append :
    depthBehind parent depth (segments ++ more) =
      depthBehind parent (depthBehind parent depth segments) more :=
  List.foldl_append

/-- Wherever one stops among the segments, a call of the macro is open. -/
def StaysOpen (parent : String) (depth : Int) (segments : List Segment) : Prop :=
  ∀ front, front <+: segments → depthBehind parent depth front ≠ 0

theorem staysOpen_nil (h : depth ≠ 0) : StaysOpen parent depth [] := by
  intro front hfront
  rwa [List.prefix_nil.1 hfront, depthBehind_nil]

theorem staysOpen_cons :
    StaysOpen parent depth (segment :: segments) ↔
      depth ≠ 0 ∧ StaysOpen parent (depth + segment.rise parent) segments := by
  constructor
  · intro h
    refine ⟨by simpa using h [] List.nil_prefix, fun front hfront => ?_⟩
    simpa using h (segment :: front) ((List.prefix_cons_inj segment).2 hfront)
  · rintro ⟨hdepth, hrest⟩ front hfront
    cases front with
    | nil => simpa using hdepth
    | cons first front =>
        obtain ⟨rfl, htail⟩ := List.cons_prefix_cons.1 hfront
        simpa using hrest front htail

theorem childTagsAt_append :
    childTagsAt parent children depth (segments ++ more) =
      childTagsAt parent children depth segments ++
        childTagsAt parent children (depthBehind parent depth segments) more := by
  induction segments generalizing depth with
  | nil => simp [childTagsAt]
  | cons segment segments ih => simp [childTagsAt, ih]

theorem StaysOpen.ne_zero (h : StaysOpen parent depth segments) : depth ≠ 0 := by
  simpa using h [] List.nil_prefix

theorem staysOpen_append :
    StaysOpen parent depth (segments ++ more) ↔
      StaysOpen parent depth segments ∧
        StaysOpen parent (depthBehind parent depth segments) more := by
  induction segments generalizing depth with
  | nil =>
      rw [List.nil_append, depthBehind_nil, iff_and_self]
      intro h
      exact staysOpen_nil h.ne_zero
  | cons segment segments ih =>
      rw [List.cons_append, staysOpen_cons, staysOpen_cons, ih, depthBehind_cons, and_assoc]

end Depth

/-- The tag is where the call ends whose opening tag the segments follow: the first of them behind
which no call of the macro is open. -/
structure ClosedBy (parent : String) (following before : List Segment) (closing : Tag)
    (behind : List Segment) : Prop where
  segments : following = before ++ .tag closing :: behind
  stays_open : StaysOpen parent 1 before
  closed : depthBehind parent 1 (before ++ [.tag closing]) = 0

/-- If the number of open calls comes down to 0 at all, a first tag brings it there. -/
theorem exists_closedBy {parent : String} {following : List Segment}
    (h : ¬ StaysOpen parent 1 following) :
    ∃ before closing behind, ClosedBy parent following before closing behind := by
  suffices hdepth : ∀ depth : Int, 1 ≤ depth → ¬ StaysOpen parent depth following →
      ∃ before closing behind, following = before ++ .tag closing :: behind ∧
        StaysOpen parent depth before ∧ depthBehind parent depth (before ++ [.tag closing]) = 0 by
    obtain ⟨before, closing, behind, hsegments, hopen, hclosed⟩ := hdepth 1 (Int.le_refl 1) h
    exact ⟨before, closing, behind, hsegments, hopen, hclosed⟩
  clear h
  induction following with
  | nil =>
      intro depth hdepth h
      exact absurd (staysOpen_nil (by omega)) h
  | cons segment rest ih =>
      intro depth hdepth h
      have hrise := neg_one_le_rise parent segment
      by_cases hzero : depth + segment.rise parent = 0
      · obtain ⟨closing, rfl, -⟩ := closes_of_rise (show segment.rise parent = -1 by omega)
        exact ⟨[], closing, rest, rfl, staysOpen_nil (by omega), by simpa using hzero⟩
      · have hrest : ¬ StaysOpen parent (depth + segment.rise parent) rest := by
          intro hrest
          exact h (staysOpen_cons.2 ⟨by omega, hrest⟩)
        obtain ⟨before, closing, behind, rfl, hopen, hclosed⟩ := ih _ (by omega) hrest
        refine ⟨segment :: before, closing, behind, rfl, ?_, ?_⟩
        · exact staysOpen_cons.2 ⟨by omega, hopen⟩
        · simpa using hclosed

/-! ### One segment of a body -/

section Scan

variable {parent : String} {children : List String} {depth index : Nat} {clause : Clause}
  {segment : Segment} {rest : List Segment} {tag : Tag}

/-- A segment that neither ends the body nor begins a clause goes to the contents of the clause. -/
theorem bodyFrom_pass {next : Nat} (hnext : (next : Int) = depth + segment.rise parent)
    (hno : depth = 0 → segment.childTag? parent children = none) :
    bodyFrom parent children depth clause index (segment :: rest) =
      bodyFrom parent children next (clause.extend segment.source) (index + 1) rest := by
  cases segment with
  | text s =>
      rw [rise_text] at hnext
      obtain rfl : next = depth := by omega
      rfl
  | tag t =>
      by_cases hname : t.name = parent
      · rw [rise_opening hname] at hnext
        obtain rfl : next = depth + 1 := by omega
        simp only [bodyFrom, if_pos hname]
        rfl
      by_cases hcloses : t.closes parent = true
      · rw [rise_closing hcloses] at hnext
        obtain rfl : depth = next + 1 := by omega
        simp only [bodyFrom, if_neg hname, if_pos hcloses]
        rfl
      have hother : t.closes parent = false := by simpa using hcloses
      rw [rise_other hname hother] at hnext
      obtain rfl : next = depth := by omega
      have hchild : ¬ (next = 0 && children.contains t.name) = true := by
        intro hchild
        simp only [Bool.and_eq_true, decide_eq_true_eq, List.contains_iff_mem] at hchild
        have hnone := hno hchild.1
        simp [Segment.childTag?, hname, hother, hchild.2] at hnone
      simp only [bodyFrom, if_neg hname, if_neg hcloses, if_neg hchild]
      rfl

/-- A child tag at which only the call itself is open begins a clause. -/
theorem bodyFrom_child (h : segment.childTag? parent children = some tag) :
    bodyFrom parent children 0 clause index (segment :: rest) =
      (bodyFrom parent children 0 (.ofTag tag) (index + 1) rest).map
        fun body => { body with clauses := clause :: body.clauses } := by
  obtain ⟨rfl, hname, hcloses, hchild⟩ := childTag?_eq_some h
  have hopen : ¬ tag.closes parent = true := by simp [hcloses]
  have hbegins : (decide (0 = 0) && children.contains tag.name) = true := by simp [hchild]
  rw [bodyFrom, if_neg hname, if_neg hopen, if_pos hbegins]
  cases bodyFrom parent children 0 (.ofTag tag) (index + 1) rest with
  | error e => rfl
  | ok body => rfl

/-- A closing tag at which only the call itself is open ends the body. -/
theorem bodyFrom_close (h : tag.closes parent = true) :
    bodyFrom parent children 0 clause index (.tag tag :: rest) =
      if isBlankText tag.args then .ok ⟨[clause], index + 1, tag.stop⟩
      else .error (.argumentsOnClosing tag.name) := by
  simp only [bodyFrom, if_neg (Tag.name_ne h), if_pos h]

/-- The call itself counts as open, and is not counted by the scan. -/
theorem exists_depth_eq (h : StaysOpen parent (depth + 1) (segment :: rest)) :
    ∃ next : Nat, (next : Int) = depth + segment.rise parent := by
  have hbehind := (staysOpen_cons.1 h).2.ne_zero
  have hrise := neg_one_le_rise parent segment
  exact ⟨((depth : Int) + segment.rise parent).toNat, by omega⟩

/-- Segments among which the body does not end and no clause begins go to the contents of the
clause. -/
theorem bodyFrom_run {next : Nat} {opener : Tag} {run segments : List Segment}
    (hclause : clause = .ofRun opener run) (hopen : StaysOpen parent (depth + 1) segments)
    (hnext : depthBehind parent (depth + 1) segments = next + 1)
    (hno : childTagsAt parent children (depth + 1) segments = []) (rest : List Segment) :
    bodyFrom parent children depth clause index (segments ++ rest) =
      bodyFrom parent children next (.ofRun opener (run ++ segments)) (index + segments.length)
        rest := by
  induction segments generalizing depth index clause run with
  | nil =>
      rw [depthBehind_nil] at hnext
      obtain rfl : depth = next := by omega
      simp [hclause]
  | cons segment segments ih =>
      obtain ⟨between, hbetween⟩ := exists_depth_eq hopen
      have hbehind : (depth : Int) + 1 + segment.rise parent = between + 1 := by omega
      have hlonger : clause.extend segment.source = .ofRun opener (run ++ [segment]) := by
        rw [hclause, Clause.extend_ofRun]
      rw [childTagsAt, List.append_eq_nil_iff, hbehind] at hno
      rw [staysOpen_cons, hbehind] at hopen
      rw [depthBehind_cons, hbehind] at hnext
      have hbegins : depth = 0 → segment.childTag? parent children = none := by
        intro hzero
        rw [if_pos (by omega), Option.toList_eq_nil_iff] at hno
        exact hno.1
      rw [List.cons_append, bodyFrom_pass hbetween hbegins, ih hlonger hopen.2 hnext hno.2,
        List.append_assoc, List.singleton_append, List.length_cons, Nat.add_right_comm index,
        ← Nat.add_assoc]

/-! ### A whole body -/

/-- Without a tag that brings the number of open calls down to 0 there is no body. -/
theorem bodyFrom_of_staysOpen {following : List Segment}
    (h : StaysOpen parent (depth + 1) following) :
    bodyFrom parent children depth clause index following = .error (.unclosed parent) := by
  induction following generalizing depth index clause with
  | nil => rfl
  | cons segment rest ih =>
      obtain ⟨next, hnext⟩ := exists_depth_eq h
      have hrest := (staysOpen_cons.1 h).2
      have hbehind : (depth : Int) + 1 + segment.rise parent = next + 1 := by omega
      rw [hbehind] at hrest
      by_cases hbegins : depth = 0 → segment.childTag? parent children = none
      · rw [bodyFrom_pass hnext hbegins, ih hrest]
      · obtain ⟨hzero, hsome⟩ := Classical.not_imp.1 hbegins
        obtain ⟨tag, htag⟩ := Option.ne_none_iff_exists'.1 hsome
        obtain ⟨rfl, hname, hcloses, -⟩ := childTag?_eq_some htag
        subst hzero
        rw [rise_other hname hcloses] at hnext
        obtain rfl : next = 0 := by omega
        rw [bodyFrom_child htag, ih hrest]
        rfl

/-- The first tag that brings the number of open calls down to 0 ends the body. On the way there
the child tags that stand in no further call of the macro divide it. -/
theorem bodyFrom_of_closed {before : List Segment} {opener closing : Tag} {run : List Segment}
    (hclause : clause = .ofRun opener run) (hopen : StaysOpen parent (depth + 1) before)
    (hclosed : depthBehind parent (depth + 1) (before ++ [.tag closing]) = 0)
    (behind : List Segment) :
    ∃ contents others,
      run ++ before = contents ++ others.flatMap (fun part => .tag part.1 :: part.2) ∧
      others.map (·.1) = childTagsAt parent children (depth + 1) before ∧
      bodyFrom parent children depth clause index (before ++ .tag closing :: behind) =
        if isBlankText closing.args then
          .ok ⟨((opener, contents) :: others).map fun part => .ofRun part.1 part.2,
            index + before.length + 1, closing.stop⟩
        else .error (.argumentsOnClosing closing.name) := by
  induction before generalizing depth index clause opener run with
  | nil =>
      have hdepth : (depth : Int) + 1 + (Segment.tag closing).rise parent = 0 := by
        simpa using hclosed
      have hrise := neg_one_le_rise parent (.tag closing)
      have hfalls : (Segment.tag closing).rise parent = -1 := by omega
      obtain ⟨_, ⟨⟩, hcloses⟩ := closes_of_rise hfalls
      obtain rfl : depth = 0 := by omega
      refine ⟨run, [], by simp, rfl, ?_⟩
      rw [List.nil_append, bodyFrom_close hcloses, hclause]
      rfl
  | cons segment before ih =>
      obtain ⟨next, hnext⟩ := exists_depth_eq hopen
      have hrest := (staysOpen_cons.1 hopen).2
      have hbehind : (depth : Int) + 1 + segment.rise parent = next + 1 := by omega
      rw [List.cons_append, depthBehind_cons, hbehind] at hclosed
      rw [hbehind] at hrest
      by_cases hbegins : depth = 0 → segment.childTag? parent children = none
      · -- the contents of the clause are longer by the segment
        have hlonger : clause.extend segment.source = .ofRun opener (run ++ [segment]) := by
          rw [hclause, Clause.extend_ofRun]
        obtain ⟨contents, others, hparts, htags, hbody⟩ := ih hlonger hrest hclosed
        refine ⟨contents, others, by simpa using hparts, ?_, ?_⟩
        · have hnone : (if (depth : Int) + 1 = 1 then
              (segment.childTag? parent children).toList else []) = [] := by
            split
            · rw [hbegins (by omega)]
              rfl
            · rfl
          rw [childTagsAt, hnone, hbehind]
          exact htags
        · rw [List.cons_append, bodyFrom_pass hnext hbegins, hbody, List.length_cons,
            Nat.add_right_comm index, ← Nat.add_assoc]
      · -- the clause ends here, and another one begins
        obtain ⟨hzero, hsome⟩ := Classical.not_imp.1 hbegins
        obtain ⟨tag, htag⟩ := Option.ne_none_iff_exists'.1 hsome
        obtain ⟨rfl, hname, hcloses, -⟩ := childTag?_eq_some htag
        subst hzero
        rw [rise_other hname hcloses] at hnext
        obtain rfl : next = 0 := by omega
        obtain ⟨contents, others, hparts, htags, hbody⟩ :=
          ih (show Clause.ofTag tag = .ofRun tag [] from rfl) hrest hclosed
        refine ⟨run, (tag, contents) :: others, ?_, ?_, ?_⟩
        · rw [List.nil_append] at hparts
          simp [hparts]
        · rw [childTagsAt, htag, hbehind, List.map_cons, htags]
          rfl
        · rw [List.cons_append, bodyFrom_child htag, hbody, hclause]
          split
          · simp only [Except.map, List.map_cons, List.length_cons]
            congr 2
            omega
          · rfl

end Scan

section Body

variable {children : List String} {segments following before behind : List Segment} {opening : Nat}
  {opener closing : Tag}

theorem bodyOf_eq (hopening : segments[opening]? = some (.tag opener)) :
    bodyOf segments opening children =
      bodyFrom opener.name children 0 (.ofTag opener) (opening + 1)
        (segments.drop (opening + 1)) := by
  rw [bodyOf, hopening]

theorem bodyOf_of_staysOpen (hopening : segments[opening]? = some (.tag opener))
    (h : StaysOpen opener.name 1 (segments.drop (opening + 1))) :
    bodyOf segments opening children = .error (.unclosed opener.name) := by
  rw [bodyOf_eq hopening]
  exact bodyFrom_of_staysOpen (by simpa using h)

theorem bodyFrom_of_closedBy (h : ClosedBy opener.name following before closing behind)
    (children : List String) (index : Nat) :
    ∃ contents others,
      before = contents ++ others.flatMap (fun part => .tag part.1 :: part.2) ∧
      others.map (·.1) = childTagsAt opener.name children 1 before ∧
      bodyFrom opener.name children 0 (.ofTag opener) index following =
        if isBlankText closing.args then
          .ok ⟨((opener, contents) :: others).map fun part => .ofRun part.1 part.2,
            index + before.length + 1, closing.stop⟩
        else .error (.argumentsOnClosing closing.name) := by
  have hbegun : Clause.ofTag opener = .ofRun opener [] := rfl
  have hopen : StaysOpen opener.name ((0 : Nat) + 1) before := h.stays_open
  rw [h.segments]
  exact bodyFrom_of_closed hbegun hopen h.closed behind

theorem bodyOf_of_closedBy (hopening : segments[opening]? = some (.tag opener))
    (h : ClosedBy opener.name (segments.drop (opening + 1)) before closing behind)
    (children : List String) :
    ∃ contents others,
      before = contents ++ others.flatMap (fun part => .tag part.1 :: part.2) ∧
      others.map (·.1) = childTagsAt opener.name children 1 before ∧
      bodyOf segments opening children =
        if isBlankText closing.args then
          .ok ⟨((opener, contents) :: others).map fun part => .ofRun part.1 part.2,
            opening + 1 + before.length + 1, closing.stop⟩
        else .error (.argumentsOnClosing closing.name) := by
  rw [bodyOf_eq hopening]
  exact bodyFrom_of_closedBy h children (opening + 1)

end Body

/-! ### The source of a body -/

/-- The clauses with their tags are the source that they were read from. -/
theorem join_clauses (parts : List (Tag × List Segment)) :
    String.join ((parts.map fun part => Clause.ofRun part.1 part.2).map
        fun clause => clause.source ++ clause.contents) =
      sourceOf (parts.flatMap fun part => .tag part.1 :: part.2) := by
  rw [← String.toList_inj, toList_sourceOf, String.toList_join]
  induction parts with
  | nil => rfl
  | cons part parts ih =>
      simp only [List.map_cons, List.flatMap_cons, charsOf_append, charsOf_cons, ih]
      simp [Clause.ofRun, Clause.ofTag, Segment.source]

theorem sourceOf_append (front back : List Segment) :
    sourceOf (front ++ back) = sourceOf front ++ sourceOf back := by
  simp [sourceOf]

theorem sourceOf_tag (tag : Tag) (rest : List Segment) :
    sourceOf (.tag tag :: rest) = tag.source ++ sourceOf rest := by
  simp [sourceOf, Segment.source]

theorem sourceOf_segmentsOf (source : String) : sourceOf (segmentsOf source) = source := by
  rw [sourceOf_eq, segmentsOf, charsOf_segmentsFrom, String.ofList_toList]

/-- A tag stands in the source behind the segments before it. -/
theorem offsets_of_append {source : String} {front back : List Segment} {tag : Tag}
    (h : segmentsOf source = front ++ .tag tag :: back) :
    tag.start = (sourceOf front).utf8ByteSize ∧
      tag.stop = (sourceOf front ++ tag.source).utf8ByteSize := by
  have hrest := segmentsFrom_rest h
  rw [Nat.zero_add, ← utf8ByteSize_sourceOf] at hrest
  obtain ⟨hstart, hstop⟩ := offsets_of_tag hrest
  exact ⟨hstart, by rw [hstop, String.utf8ByteSize_append]⟩

/-- What stands between the beginning of an opening tag and the end of its closing tag. -/
theorem source_of_closedBy {source : String} {opening : Nat} {opener closing : Tag}
    {before behind : List Segment} (hopening : (segmentsOf source)[opening]? = some (.tag opener))
    (h : ClosedBy opener.name ((segmentsOf source).drop (opening + 1)) before closing behind) :
    ∃ front,
      source = front ++ (sourceOf (.tag opener :: before) ++ closing.source) ++ sourceOf behind ∧
      front.utf8ByteSize = opener.start ∧
      (front ++ (sourceOf (.tag opener :: before) ++ closing.source)).utf8ByteSize =
        closing.stop := by
  let front := (segmentsOf source).take opening
  have hsegments : segmentsOf source =
      front ++ .tag opener :: (before ++ .tag closing :: behind) := by
    obtain ⟨hlt, hget⟩ := List.getElem?_eq_some_iff.1 hopening
    rw [← h.segments, ← hget, ← List.drop_eq_getElem_cons hlt, List.take_append_drop]
  have hcloser : segmentsOf source =
      (front ++ .tag opener :: before) ++ .tag closing :: behind := by
    rw [hsegments, List.append_assoc, List.cons_append]
  refine ⟨sourceOf front, ?_, (offsets_of_append hsegments).1.symm, ?_⟩
  · rw [← sourceOf_segmentsOf source, hcloser, sourceOf_append, sourceOf_append,
      sourceOf_tag closing]
    simp only [String.append_assoc]
  · rw [(offsets_of_append hcloser).2, sourceOf_append, String.append_assoc]

/-- How an opening tag is paired, and with which result, if the segments follow it. -/
structure BodyPaired (source : String) (opener : Tag) (children : List String)
    (following : List Segment) (result : Except BodyError Body) : Prop where
  /-- There is a body exactly if the number of open calls comes down to 0 and the tag that brings
  it there has no arguments. -/
  found : (∃ body, result = .ok body) ↔
    ∃ before closing behind, ClosedBy opener.name following before closing behind ∧
      isBlankText closing.args = true
  /-- If it has arguments, that is what is wrong. -/
  refused : ∀ before closing behind, ClosedBy opener.name following before closing behind →
    isBlankText closing.args = false → ∃ e, result = .error e ∧
      e.message = "closing tag <<" ++ closing.name ++ ">> does not accept arguments"
  /-- If the number never comes down to 0, there is no closing tag. -/
  unclosed : StaysOpen opener.name 1 following → ∃ e, result = .error e ∧
    e.message = "cannot find a closing tag for macro <<" ++ opener.name ++ ">>"
  /-- These are all the cases there are. -/
  closed : StaysOpen opener.name 1 following ∨
    ∃ before closing behind, ClosedBy opener.name following before closing behind
  /-- The opening tag begins a clause, and so does each child tag that stands where the number is 1.
  With their contents and the closing tag the clauses are the source from the beginning of the
  opening tag to the end of the body, and the segments go on behind the closing tag. -/
  divided : ∀ body, result = .ok body → ∃ before closing behind contents others front,
    ClosedBy opener.name following before closing behind ∧
    before = contents ++ others.flatMap (fun part => .tag part.1 :: part.2) ∧
    body.clauses = ((opener, contents) :: others).map (fun part => .ofRun part.1 part.2) ∧
    others.map (·.1) = childTagsAt opener.name children 1 before ∧
    (let whole := String.join (body.clauses.map fun clause => clause.source ++ clause.contents) ++
      closing.source
    source = front ++ whole ++ sourceOf behind ∧ front.utf8ByteSize = opener.start ∧
    (front ++ whole).utf8ByteSize = body.stop) ∧
    (segmentsOf source).drop body.next = behind

/-- Every opening tag of a source is paired so. -/
theorem body_paired {source : String} {opening : Nat} {opener : Tag}
    (hopening : (segmentsOf source)[opening]? = some (.tag opener)) (children : List String) :
    BodyPaired source opener children ((segmentsOf source).drop (opening + 1))
      (bodyOf (segmentsOf source) opening children) := by
  -- a body that is found ends with the first tag that brings the number to 0
  have hfound {body : Body} (hbody : bodyOf (segmentsOf source) opening children = .ok body) :
      ∃ before closing behind, ClosedBy opener.name ((segmentsOf source).drop (opening + 1))
        before closing behind ∧ isBlankText closing.args = true := by
    by_cases hopen : StaysOpen opener.name 1 ((segmentsOf source).drop (opening + 1))
    · rw [bodyOf_of_staysOpen hopening hopen] at hbody
      cases hbody
    · obtain ⟨before, closing, behind, hclosed⟩ := exists_closedBy hopen
      refine ⟨before, closing, behind, hclosed, ?_⟩
      obtain ⟨contents, others, -, -, hresult⟩ :=
        bodyOf_of_closedBy hopening hclosed children
      by_contra hblank
      rw [hresult, if_neg hblank] at hbody
      cases hbody
  constructor
  case found =>
    constructor
    · rintro ⟨body, hbody⟩
      exact hfound hbody
    · rintro ⟨before, closing, behind, hclosed, hblank⟩
      obtain ⟨contents, others, -, -, hresult⟩ := bodyOf_of_closedBy hopening hclosed children
      exact ⟨_, hresult.trans (if_pos hblank)⟩
  case refused =>
    intro before closing behind hclosed hargs
    obtain ⟨contents, others, -, -, hresult⟩ := bodyOf_of_closedBy hopening hclosed children
    exact ⟨_, hresult.trans (if_neg (by simp [hargs])), rfl⟩
  case unclosed =>
    intro hopen
    exact ⟨_, bodyOf_of_staysOpen hopening hopen, rfl⟩
  case closed =>
    by_cases hopen : StaysOpen opener.name 1 ((segmentsOf source).drop (opening + 1))
    · exact .inl hopen
    · exact .inr (exists_closedBy hopen)
  case divided =>
    intro body hbody
    obtain ⟨before, closing, behind, hclosed, hblank⟩ := hfound hbody
    obtain ⟨contents, others, hparts, htags, hresult⟩ :=
      bodyOf_of_closedBy hopening hclosed children
    obtain ⟨front, hsource, hstart, hstop⟩ := source_of_closedBy hopening hclosed
    rw [hresult, if_pos hblank] at hbody
    cases hbody
    refine ⟨before, closing, behind, contents, others, front, hclosed, hparts, rfl, htags, ?_, ?_⟩
    · have hwhole : .tag opener :: before =
          ((opener, contents) :: others).flatMap fun part => .tag part.1 :: part.2 := by
        rw [hparts, List.flatMap_cons, List.cons_append]
      rw [join_clauses, ← hwhole]
      exact ⟨hsource, hstart, hstop⟩
    · have hlength : opening + 1 + before.length + 1 = opening + 1 + (before.length + 1) := by omega
      rw [hlength, ← List.drop_drop, hclosed.segments]
      simp

/-- A call in which another call of the macro stands; its child tag does not begin a clause. -/
theorem body_paired_nested :
    let source := "é<<if 1>>a<<if 2>>b<<else>>c<<endif>>d<<else>>e<</if>>f"
    let opener : Tag := ⟨"if", "1", "<<if 1>>", 2, 10⟩
    (segmentsOf source)[1]? = some (.tag opener) ∧
      BodyPaired source opener ["elseif", "else"] ((segmentsOf source).drop 2)
        (bodyOf (segmentsOf source) 1 ["elseif", "else"]) :=
  ⟨by decide +kernel, body_paired (by decide +kernel) _⟩

end StoryEngine
