import StoryEngine.Proofs.Engine.Call
import StoryEngine.Proofs.Passage.Pairing
import StoryEngine.Proofs.Registry.History
/-!
# StoryEngine.Proofs.Passage.Nesting

Calls inside the body of a call. The scan of a body counts only the calls of its own name, so it
looks for child tags in every other call as well: a nested call of an alias, or of a macro that
shares a child tag, is torn at the first child tag in it (`alias_call_torn`). The clauses are what
they should be, each with all of the calls that begin in it, exactly if no nested call has a child
tag of the macro in it that stands outside of further calls of the macro (`nested_calls_kept_iff`).
-/

namespace StoryEngine

variable {η σ : Type}

/-! ### Calls that have a body -/

/-- The name of the macro that the tag closes, if it is a closing tag. -/
def Tag.closedName? (tag : Tag) : Option String :=
  match tag.name.toList with
  | '/' :: rest => some (String.ofList rest)
  | 'e' :: 'n' :: 'd' :: rest => some (String.ofList rest)
  | _ => none

/-- Calls of the name have a body. -/
def Registry.hasBody (r : Registry η) (name : String) : Bool :=
  (r.get? name).any (·.definition.isContainer)

/-- The tag closes a call that has a body. -/
def Registry.endsBody (r : Registry η) (tag : Tag) : Bool :=
  tag.closedName?.any r.hasBody

/-- The segment neither opens a call with a body nor closes one. -/
def Segment.isPlain (r : Registry η) : Segment → Bool
  | .text _ => true
  | .tag t => !r.hasBody t.name && !r.endsBody t

theorem Tag.closes_iff {tag : Tag} {name : String} :
    tag.closes name = true ↔ tag.closedName? = some name := by
  have hchars (rest : List Char) : (rest == name.toList) = true ↔ String.ofList rest = name := by
    rw [beq_iff_eq]
    constructor
    · rintro rfl
      exact String.ofList_toList
    · rintro rfl
      exact String.toList_ofList.symm
  unfold Tag.closes Tag.closedName?
  split <;> simp [*]

/-! ### Segments with complete calls -/

/-- Segments among which every call that has a body is complete. -/
inductive Nest where
  | nil
  | segment (first : Segment) (rest : Nest)
  /-- A call, with what stands between its opening and its closing tag. -/
  | call (opening : Tag) (inside : Nest) (closing : Tag) (rest : Nest)

namespace Nest

/-- The segments, one after another. -/
def segments : Nest → List Segment
  | nil => []
  | segment first rest => first :: rest.segments
  | call opening inside closing rest =>
    .tag opening :: (inside.segments ++ .tag closing :: rest.segments)

/-- The segments of one call. -/
def ofCall (opening : Tag) (inside : Nest) (closing : Tag) : List Segment :=
  .tag opening :: (inside.segments ++ [.tag closing])

/-- The calls are those of macros in the registry that have a body, each with a closing tag of its
own, and no call with a body begins or ends anywhere else. -/
def isProper (r : Registry η) : Nest → Bool
  | nil => true
  | segment first rest => first.isPlain r && rest.isProper r
  | call opening inside closing rest =>
    r.hasBody opening.name && !r.endsBody opening && closing.closes opening.name &&
      !r.hasBody closing.name && inside.isProper r && rest.isProper r

/-- The child tags of a macro that stand in none of the calls. -/
def outerTags (parent : String) (children : List String) : Nest → List Tag
  | nil => []
  | segment first rest =>
    (first.childTag? parent children).toList ++ rest.outerTags parent children
  | call _ _ _ rest => rest.outerTags parent children

/-- Divided at the child tags that stand in none of the calls: what stands before the first of
them, and each of them with what stands behind it. -/
def parts (parent : String) (children : List String) : Nest → Nest × List (Tag × Nest)
  | nil => (nil, [])
  | segment first rest =>
    let (contents, others) := rest.parts parent children
    match first.childTag? parent children with
    | some tag => (nil, (tag, contents) :: others)
    | none => (segment first contents, others)
  | call opening inside closing rest =>
    let (contents, others) := rest.parts parent children
    (call opening inside closing contents, others)

/-- The clauses of a call of the opening tag begin at the child tags that stand in none of the
calls, and in each of them the calls are complete. -/
def KeptIn (r : Registry η) (opener : Tag) (children : List String) (nest : Nest)
    (clauses : List Clause) : Prop :=
  ∃ (contents : Nest) (others : List (Tag × Nest)),
    clauses = ((opener, contents) :: others).map (fun part => .ofRun part.1 part.2.segments) ∧
    others.map (·.1) = nest.outerTags opener.name children ∧
    nest.segments =
      contents.segments ++ others.flatMap (fun part => .tag part.1 :: part.2.segments) ∧
    contents.isProper r = true ∧ ∀ part ∈ others, part.2.isProper r = true

/-- No child tag of the macro stands in one of the calls, unless it stands in a call of the macro
itself, by the same name. -/
def Apart (parent : String) (children : List String) : Nest → Prop
  | nil => True
  | segment _ rest => rest.Apart parent children
  | call opening inside closing rest =>
    childTagsAt parent children 1 (ofCall opening inside closing) = [] ∧
      rest.Apart parent children

/-! ### Depths -/

section Proper

variable {r : Registry η} {parent : String} {children : List String} {depth : Int}
  {first : Segment} {opening closing : Tag} {inside rest nest : Nest}

theorem segments_call (opening : Tag) (inside : Nest) (closing : Tag) (rest : Nest) :
    (call opening inside closing rest).segments =
      ofCall opening inside closing ++ rest.segments := by
  simp [segments, ofCall]

theorem closes_eq_false_of_endsBody {tag : Tag} (h : r.endsBody tag = false)
    (hparent : r.hasBody parent = true) : tag.closes parent = false := by
  by_contra hcloses
  rw [Bool.not_eq_false, Tag.closes_iff] at hcloses
  simp [Registry.endsBody, hcloses, hparent] at h

theorem ne_of_hasBody {name : String} (h : r.hasBody name = false)
    (hparent : r.hasBody parent = true) : name ≠ parent := by
  rintro rfl
  rw [hparent] at h
  cases h

/-- What is neither an opening nor a closing tag of any call is none of a call of the macro. -/
theorem rise_of_isPlain {segment : Segment} (h : segment.isPlain r = true)
    (hparent : r.hasBody parent = true) : segment.rise parent = 0 := by
  cases segment with
  | text s => rfl
  | tag t =>
      simp only [Segment.isPlain, Bool.and_eq_true, Bool.not_eq_true'] at h
      exact rise_other (ne_of_hasBody h.1 hparent) (closes_eq_false_of_endsBody h.2 hparent)

/-- What is proper about a call. -/
theorem isProper_call :
    (call opening inside closing rest).isProper r = true ↔
      r.hasBody opening.name = true ∧ r.endsBody opening = false ∧
      closing.closes opening.name = true ∧ r.hasBody closing.name = false ∧
      inside.isProper r = true ∧ rest.isProper r = true := by
  simp [isProper, and_assoc]

/-- The closing tag of a call takes back what its opening tag does. -/
theorem rise_call (hnest : (call opening inside closing rest).isProper r = true)
    (hparent : r.hasBody parent = true) :
    0 ≤ (Segment.tag opening).rise parent ∧
      (Segment.tag closing).rise parent = -(Segment.tag opening).rise parent := by
  obtain ⟨-, hends, hcloses, hbody, -, -⟩ := isProper_call.1 hnest
  by_cases hname : opening.name = parent
  · rw [rise_opening hname, rise_closing (hname ▸ hcloses)]
    decide
  · have hother : closing.closes parent = false := by
      -- the name that it closes is another one
      by_contra hparents
      rw [Bool.not_eq_false, Tag.closes_iff] at hparents
      rw [Tag.closes_iff, hparents] at hcloses
      exact hname (Option.some.inj hcloses).symm
    rw [rise_other hname (closes_eq_false_of_endsBody hends hparent),
      rise_other (ne_of_hasBody hbody hparent) hother]
    decide

/-- Behind complete calls as many calls of the macro are open as before them. -/
theorem depthBehind_segments (hnest : nest.isProper r = true) (hparent : r.hasBody parent = true)
    (depth : Int) : depthBehind parent depth nest.segments = depth := by
  induction nest generalizing depth with
  | nil => simp [segments]
  | segment first rest ih =>
      simp only [isProper, Bool.and_eq_true] at hnest
      rw [segments, depthBehind_cons, rise_of_isPlain hnest.1 hparent, Int.add_zero, ih hnest.2]
  | call opening inside closing rest hinside hrest =>
      obtain ⟨-, hback⟩ := rise_call hnest hparent
      obtain ⟨-, -, -, -, hin, hout⟩ := isProper_call.1 hnest
      rw [segments, depthBehind_cons, depthBehind_append, hinside hin, depthBehind_cons, hrest hout,
        hback, Int.add_neg_cancel_right]

/-- In complete calls no more calls are closed than were opened. -/
theorem staysOpen_segments (hnest : nest.isProper r = true) (hparent : r.hasBody parent = true)
    (hdepth : 0 < depth) : StaysOpen parent depth nest.segments := by
  induction nest generalizing depth with
  | nil => exact staysOpen_nil (by omega)
  | segment first rest ih =>
      simp only [isProper, Bool.and_eq_true] at hnest
      rw [segments, staysOpen_cons, rise_of_isPlain hnest.1 hparent, Int.add_zero]
      exact ⟨by omega, ih hnest.2 hdepth⟩
  | call opening inside closing rest hinside hrest =>
      obtain ⟨hdeeper, hback⟩ := rise_call hnest hparent
      obtain ⟨-, -, -, -, hin, hout⟩ := isProper_call.1 hnest
      rw [segments, staysOpen_cons, staysOpen_append, depthBehind_segments hin hparent,
        staysOpen_cons, hback, Int.add_neg_cancel_right]
      exact ⟨by omega, hinside hin (by omega), by omega, hrest hout hdepth⟩

/-! ### Child tags -/

/-- Where another call of the macro is open, no child tag divides the body. -/
theorem childTagsAt_deep (hnest : nest.isProper r = true) (hparent : r.hasBody parent = true)
    (hdepth : 1 < depth) : childTagsAt parent children depth nest.segments = [] := by
  induction nest generalizing depth with
  | nil => rfl
  | segment first rest ih =>
      simp only [isProper, Bool.and_eq_true] at hnest
      rw [segments, childTagsAt, if_neg (by omega), rise_of_isPlain hnest.1 hparent, Int.add_zero,
        ih hnest.2 hdepth]
      rfl
  | call opening inside closing rest hinside hrest =>
      obtain ⟨hdeeper, hback⟩ := rise_call hnest hparent
      obtain ⟨-, -, -, -, hin, hout⟩ := isProper_call.1 hnest
      rw [segments, childTagsAt, if_neg (by omega), childTagsAt_append, hinside hin (by omega),
        depthBehind_segments hin hparent, childTagsAt, if_neg (by omega), hback,
        Int.add_neg_cancel_right, hrest hout hdepth]
      rfl

theorem segments_call_nil (opening : Tag) (inside : Nest) (closing : Tag) :
    (call opening inside closing nil).segments = ofCall opening inside closing := rfl

theorem isProper_call_nil (hnest : (call opening inside closing rest).isProper r = true) :
    (call opening inside closing nil).isProper r = true := by
  obtain ⟨hopens, hends, hcloses, hbody, hin, -⟩ := isProper_call.1 hnest
  exact isProper_call.2 ⟨hopens, hends, hcloses, hbody, hin, rfl⟩

/-- The child tags in a call, then those behind it. -/
theorem childTagsAt_call (hnest : (call opening inside closing rest).isProper r = true)
    (hparent : r.hasBody parent = true) (children : List String) :
    childTagsAt parent children 1 (call opening inside closing rest).segments =
      childTagsAt parent children 1 (ofCall opening inside closing) ++
        childTagsAt parent children 1 rest.segments := by
  have hdepth := depthBehind_segments (isProper_call_nil hnest) hparent 1
  rw [segments_call_nil] at hdepth
  rw [segments_call, childTagsAt_append, hdepth]

theorem childTagsAt_segment (hnest : (segment first rest).isProper r = true)
    (hparent : r.hasBody parent = true) :
    childTagsAt parent children 1 (segment first rest).segments =
      (first.childTag? parent children).toList ++ childTagsAt parent children 1 rest.segments := by
  simp only [isProper, Bool.and_eq_true] at hnest
  rw [segments, childTagsAt, if_pos rfl, rise_of_isPlain hnest.1 hparent, Int.add_zero]

/-- The child tags outside of all calls are met. -/
theorem length_outerTags_le (hnest : nest.isProper r = true) (hparent : r.hasBody parent = true)
    (children : List String) :
    (nest.outerTags parent children).length ≤
      (childTagsAt parent children 1 nest.segments).length := by
  induction nest with
  | nil => simp [outerTags]
  | segment first rest ih =>
      rw [childTagsAt_segment hnest hparent, outerTags, List.length_append, List.length_append]
      simp only [isProper, Bool.and_eq_true] at hnest
      have := ih hnest.2
      omega
  | call opening inside closing rest hinside hrest =>
      obtain ⟨-, -, -, -, -, hout⟩ := isProper_call.1 hnest
      rw [childTagsAt_call hnest hparent children, outerTags, List.length_append]
      have := hrest hout
      omega

/-- No other child tags are met exactly if none stands in a call. -/
theorem apart_iff_length (hnest : nest.isProper r = true) (hparent : r.hasBody parent = true) :
    nest.Apart parent children ↔
      (childTagsAt parent children 1 nest.segments).length =
        (nest.outerTags parent children).length := by
  induction nest with
  | nil => simp [Apart, outerTags, segments, childTagsAt]
  | segment first rest ih =>
      rw [childTagsAt_segment hnest hparent, outerTags, List.length_append, List.length_append]
      simp only [isProper, Bool.and_eq_true] at hnest
      rw [Apart, ih hnest.2]
      omega
  | call opening inside closing rest hinside hrest =>
      have hall := childTagsAt_call hnest hparent children
      obtain ⟨-, -, -, -, -, hout⟩ := isProper_call.1 hnest
      have hle := length_outerTags_le hout hparent children
      rw [Apart, hrest hout, hall, outerTags, List.length_append, ← List.length_eq_zero_iff]
      omega

end Proper

/-! ### The clauses -/

section Clauses

variable {r : Registry η} {parent : String} {children : List String} {nest : Nest}

theorem map_fst_parts :
    (nest.parts parent children).2.map (·.1) = nest.outerTags parent children := by
  induction nest with
  | nil => rfl
  | segment first rest ih =>
      rw [parts, outerTags]
      cases first.childTag? parent children with
      | none => simpa using ih
      | some tag => simpa using ih
  | call opening inside closing rest hinside hrest => exact hrest

/-- In each part the calls are complete. -/
theorem isProper_parts (hnest : nest.isProper r = true) :
    (nest.parts parent children).1.isProper r = true ∧
      ∀ part ∈ (nest.parts parent children).2, part.2.isProper r = true := by
  induction nest with
  | nil => simp [parts, isProper]
  | segment first rest ih =>
      simp only [isProper, Bool.and_eq_true] at hnest
      obtain ⟨hfirst, hothers⟩ := ih hnest.2
      rw [parts]
      cases first.childTag? parent children with
      | none => exact ⟨by simp [isProper, hnest.1, hfirst], hothers⟩
      | some tag => exact ⟨rfl, List.forall_mem_cons.2 ⟨hfirst, hothers⟩⟩
  | call opening inside closing rest hinside hrest =>
      obtain ⟨hopens, hends, hcloses, hbody, hin, hout⟩ := isProper_call.1 hnest
      obtain ⟨hfirst, hothers⟩ := hrest hout
      exact ⟨isProper_call.2 ⟨hopens, hends, hcloses, hbody, hin, hfirst⟩, hothers⟩

/-- A body in whose calls no child tag stands is divided at the child tags outside of them. -/
theorem bodyFrom_segments (hnest : nest.isProper r = true) (hparent : r.hasBody parent = true)
    (hapart : nest.Apart parent children) {closing : Tag} (hcloses : closing.closes parent = true)
    (hblank : isBlankText closing.args = true) (opener : Tag) (run : List Segment) (index : Nat)
    (behind : List Segment) :
    bodyFrom parent children 0 (.ofRun opener run) index (nest.segments ++ .tag closing :: behind) =
      .ok ⟨.ofRun opener (run ++ (nest.parts parent children).1.segments) ::
          (nest.parts parent children).2.map fun part => .ofRun part.1 part.2.segments,
        index + nest.segments.length + 1, closing.stop⟩ := by
  induction nest generalizing opener run index with
  | nil =>
      rw [segments, List.nil_append, bodyFrom_close hcloses, if_pos hblank]
      simp [parts, segments]
  | segment first rest ih =>
      simp only [isProper, Bool.and_eq_true] at hnest
      have hlength : index + (segment first rest).segments.length + 1 =
          index + 1 + rest.segments.length + 1 := by
        rw [segments, List.length_cons]
        omega
      rw [hlength, segments, List.cons_append, parts]
      cases hchild : first.childTag? parent children with
      | none =>
          have hnext : ((0 : Nat) : Int) = (0 : Nat) + first.rise parent := by
            rw [rise_of_isPlain hnest.1 hparent]
            rfl
          rw [bodyFrom_pass hnext fun _ => hchild, Clause.extend_ofRun, ih hnest.2 hapart]
          simp [segments]
      | some tag =>
          have hbegun : Clause.ofTag tag = .ofRun tag [] := rfl
          rw [bodyFrom_child hchild, hbegun, ih hnest.2 hapart]
          simp [segments, Except.map]
  | call opening inside closed rest hinside hrest =>
      have hcall := isProper_call_nil hnest
      have hopen := staysOpen_segments hcall hparent Int.one_pos
      have hdepth : depthBehind parent ((0 : Nat) + 1) (ofCall opening inside closed) =
          (0 : Nat) + 1 := depthBehind_segments hcall hparent 1
      rw [segments_call_nil] at hopen
      obtain ⟨-, -, -, -, -, hout⟩ := isProper_call.1 hnest
      rw [segments_call, List.append_assoc, bodyFrom_run rfl hopen hdepth hapart.1,
        hrest hout hapart.2]
      simp [parts, segments_call, Nat.add_assoc]

/-- The parts, each behind its tag, are the segments. -/
theorem segments_parts :
    nest.segments = (nest.parts parent children).1.segments ++
      (nest.parts parent children).2.flatMap fun part => .tag part.1 :: part.2.segments := by
  induction nest with
  | nil => rfl
  | segment first rest ih =>
      rw [parts, segments, ih]
      cases hchild : first.childTag? parent children with
      | none => rfl
      | some tag =>
          obtain ⟨rfl, -⟩ := childTag?_eq_some hchild
          rfl
  | call opening inside closing rest hinside hrest =>
      rw [parts, segments, hrest]
      simp [segments]

/-- The parts are clauses that keep the calls. -/
theorem keptIn_parts {opener : Tag} (hnest : nest.isProper r = true) :
    nest.KeptIn r opener children (.ofRun opener (nest.parts opener.name children).1.segments ::
      (nest.parts opener.name children).2.map fun part => .ofRun part.1 part.2.segments) :=
  ⟨_, _, rfl, map_fst_parts, segments_parts, isProper_parts hnest⟩

theorem KeptIn.length {opener : Tag} {clauses : List Clause}
    (h : nest.KeptIn r opener children clauses) :
    clauses.length = (nest.outerTags opener.name children).length + 1 := by
  obtain ⟨contents, others, rfl, htags, -⟩ := h
  rw [← htags, List.length_map, List.length_map, List.length_cons]

end Clauses

end Nest

/-! ### Calls in a call -/

/-- A call of a macro in whose body all calls are complete ends where it should. Its clauses keep
the calls exactly if no nested call has a child tag of the macro in it that stands outside of
further calls of the macro: in all other cases a nested call is torn. -/
theorem nested_calls_kept_iff {e : Engine η σ} {opener closing : Tag}
    {entry : MacroEntry (Handler η)} {handler : Handler η} {nest : Nest}
    (hentry : e.registry.get? opener.name = some entry)
    (hhandler : entry.definition.handler = some handler)
    (hcontainer : entry.definition.isContainer = true)
    (hnest : nest.isProper e.registry = true)
    (hcloses : closing.closes opener.name = true) (hblank : isBlankText closing.args = true)
    (run : Handler η → Context η → Run η σ Unit) (out : OutputId) (behind : List Segment) :
    let children := entry.definition.childTags
    let following := nest.segments ++ .tag closing :: behind
    ∃ clauses,
      bodyFrom opener.name children 0 (.ofTag opener) 0 following =
        .ok ⟨clauses, nest.segments.length + 1, closing.stop⟩ ∧
      renderTag run out opener following e =
        (callMacro run out entry handler opener clauses
          (sourceOf (.tag opener :: (nest.segments ++ [.tag closing]))) >>= fun _ =>
            pure (nest.segments.length + 1)) e ∧
      (nest.KeptIn e.registry opener children clauses ↔ nest.Apart opener.name children) := by
  intro children following
  have hparent : e.registry.hasBody opener.name = true := by
    rw [Registry.hasBody, hentry]
    exact hcontainer
  have hclosed : ClosedBy opener.name following nest.segments closing behind := by
    refine ⟨rfl, Nest.staysOpen_segments hnest hparent Int.one_pos, ?_⟩
    rw [depthBehind_append, Nest.depthBehind_segments hnest hparent, depthBehind_cons,
      rise_closing hcloses]
    rfl
  obtain ⟨contents, others, -, htags, hbody⟩ := bodyFrom_of_closedBy hclosed children 0
  rw [if_pos hblank, Nat.zero_add] at hbody
  refine ⟨_, hbody, ?_, ?_⟩
  · have htake : following.take (nest.segments.length + 1) = nest.segments ++ [.tag closing] := by
      simp [following, List.take_append, List.take_of_length_le]
    rw [renderTag_container hentry hhandler hcontainer hbody, htake, sourceOf_tag]
    rfl
  · constructor
    · -- there are as many clauses as child tags outside of the calls, so no others are met
      intro hkept
      have hclauses := hkept.length
      have hmet : others.length = (childTagsAt opener.name children 1 nest.segments).length := by
        rw [← htags, List.length_map]
      rw [List.length_map, List.length_cons] at hclauses
      rw [Nest.apart_iff_length hnest hparent]
      omega
    · intro hapart
      have hkept := Nest.bodyFrom_segments hnest hparent hapart hcloses hblank opener [] 0 behind
      have hclauses := congrArg Body.clauses (Except.ok.inj (hbody.symm.trans hkept))
      dsimp only at hclauses
      rw [hclauses]
      exact Nest.keptIn_parts hnest

/-- A fresh engine in which `<<when>>` is another name of `<<if>>`. -/
def whenEngine : Engine Empty Unit :=
  { Engine.ofConfig {} () with
    registry := ((Registry.ofBuiltins .builtin).addAlias ["when"] "if").2 }

/-- The macro that both names stand for. -/
def ifEntry : MacroEntry (Handler Empty) :=
  ⟨Builtin.choose.definition (.builtin .choose), 3, none⟩

/-- A call of the alias is kept whole if its only child tag stands in a call by the first name. -/
theorem alias_call_kept :
    let source := "<<if 1>>a<<when 2>>b<<if 3>>c<<else>>d<</if>>e<</when>>f<<else>>g<</if>>"
    let opener : Tag := ⟨"if", "1", "<<if 1>>", 0, 8⟩
    let closing : Tag := ⟨"/if", "", "<</if>>", 65, 72⟩
    let inner := Nest.call ⟨"if", "3", "<<if 3>>", 20, 28⟩
      (.segment (.text "c") (.segment (.tag ⟨"else", "", "<<else>>", 29, 37⟩)
        (.segment (.text "d") .nil))) ⟨"/if", "", "<</if>>", 38, 45⟩ (.segment (.text "e") .nil)
    let nest := Nest.segment (.text "a") (.call ⟨"when", "2", "<<when 2>>", 9, 19⟩
      (.segment (.text "b") inner) ⟨"/when", "", "<</when>>", 46, 55⟩ (.segment (.text "f")
        (.segment (.tag ⟨"else", "", "<<else>>", 56, 64⟩) (.segment (.text "g") .nil))))
    let run := runHandler Host.idle (perform Host.idle 9)
    let following := nest.segments ++ [.tag closing]
    segmentsOf source = .tag opener :: following ∧ nest.isProper whenEngine.registry = true ∧
      nest.Apart "if" ["elseif", "else"] ∧
      ∃ clauses,
        bodyFrom "if" ["elseif", "else"] 0 (.ofTag opener) 0 following =
          .ok ⟨clauses, nest.segments.length + 1, 72⟩ ∧
        renderTag run ⟨0⟩ opener following whenEngine =
          (callMacro run ⟨0⟩ ifEntry (.builtin .choose) opener clauses source >>= fun _ =>
            pure (nest.segments.length + 1)) whenEngine ∧
        nest.KeptIn whenEngine.registry opener ["elseif", "else"] clauses := by
  intro source opener closing inner nest run following
  have hsegments : segmentsOf source = .tag opener :: following := by decide +kernel
  have hnest : nest.isProper whenEngine.registry = true := by decide +kernel
  have hapart : nest.Apart "if" ["elseif", "else"] := ⟨by decide +kernel, trivial⟩
  have hentry : whenEngine.registry.get? opener.name = some ifEntry := rfl
  have hcloses : closing.closes opener.name = true := by decide +kernel
  obtain ⟨clauses, hbody, hcall, hkept⟩ :=
    nested_calls_kept_iff hentry rfl rfl hnest hcloses (by decide +kernel) run ⟨0⟩ []
  rw [← hsegments, sourceOf_segmentsOf] at hcall
  exact ⟨hsegments, hnest, hapart, clauses, hbody, hcall, hkept.2 hapart⟩

/-- With a child tag of its own the call of the alias is torn: the tag begins a clause of the call
around it, in whose first clause the call of the alias has no end. -/
theorem alias_call_torn :
    let source := "<<if true>>a<<when true>>b<<else>>c<</when>>d<</if>>"
    let opener : Tag := ⟨"if", "true", "<<if true>>", 0, 11⟩
    let closing : Tag := ⟨"/if", "", "<</if>>", 45, 52⟩
    let nest := Nest.segment (.text "a") (.call ⟨"when", "true", "<<when true>>", 12, 25⟩
      (.segment (.text "b") (.segment (.tag ⟨"else", "", "<<else>>", 26, 34⟩)
        (.segment (.text "c") .nil))) ⟨"/when", "", "<</when>>", 35, 44⟩
        (.segment (.text "d") .nil))
    let clauses : List Clause := [⟨"if", "true", "a<<when true>>b", "<<if true>>"⟩,
      ⟨"else", "", "c<</when>>d", "<<else>>"⟩]
    whenEngine.registry.get? "if" = some ifEntry ∧
      ifEntry.definition.childTags = ["elseif", "else"] ∧
      segmentsOf source = .tag opener :: (nest.segments ++ [.tag closing]) ∧
      nest.isProper whenEngine.registry = true ∧ closing.closes "if" = true ∧
      bodyFrom "if" ["elseif", "else"] 0 (.ofTag opener) 0 (nest.segments ++ [.tag closing]) =
        .ok ⟨clauses, nest.segments.length + 1, 52⟩ ∧
      ¬ nest.KeptIn whenEngine.registry opener ["elseif", "else"] clauses ∧
      bodyOf (segmentsOf "a<<when true>>b") 1 ["elseif", "else"] = .error (.unclosed "when") := by
  intro source opener closing nest clauses
  have htorn : ¬ nest.KeptIn whenEngine.registry opener ["elseif", "else"] clauses := by
    intro hkept
    exact absurd hkept.length (by decide)
  exact ⟨rfl, rfl, by decide +kernel, by decide +kernel, by decide +kernel, by decide +kernel,
    htorn, by decide +kernel⟩

end StoryEngine
