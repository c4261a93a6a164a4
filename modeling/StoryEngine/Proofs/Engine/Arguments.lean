import StoryEngine.Builtin.Catalogue
import StoryEngine.Proofs.Engine.Quick
import StoryEngine.Proofs.Passage.Reread
/-!
# StoryEngine.Proofs.Engine.Arguments

What the reading of a call's arguments does to the variables. Nothing among the arguments of a tag
has an effect but its backquoted expressions, and these are evaluated one after the other, up to
the first argument that has no value (`evaluates_readEach`).

A call reads the arguments of its tag and then those of its clauses. The first clause of a
container is its own opening tag, whose expressions are thus evaluated twice
(`arguments_evaluated`), to different values if they set what they read (`opening_tag_read_twice`).
-/

namespace StoryEngine

/-! ### Expressions that are evaluated one after the other -/

/-- Evaluate the expressions in order, up to the first that fails. -/
def evaluateEach : List String → Evaluation Unit
  | [] => pure ()
  | text :: rest => do
    let _ ← evaluate text
    evaluateEach rest

/-- The variables after the expressions have been evaluated. -/
def State.evaluating (s : State) (texts : List String) : State :=
  ((evaluateEach texts).run.run s).2

section Evaluates

variable {ε ε' α β : Type}

theorem evaluateEach_append (texts more : List String) (s : State) :
    evaluateEach (texts ++ more) s =
      match evaluateEach texts s with
      | (.ok (), t) => evaluateEach more t
      | (.error e, t) => (.error e, t) := by
  induction texts generalizing s with
  | nil => rfl
  | cons text rest ih =>
    rw [List.cons_append, evaluateEach, evaluateEach, bind_state_apply, bind_state_apply]
    rcases evaluate text s with ⟨e | value, t⟩
    · rfl
    · exact ih t

/-- On the variables, the computation does what evaluating the expressions does. It has a result
exactly if it is complete and each of them has one. -/
def Evaluates (x : ExceptT ε (StateM State) α) (texts : List String) (complete : Bool) : Prop :=
  ∀ s, (∃ a, x s = (.ok a, s.evaluating texts) ∧
      complete = true ∧ evaluateEach texts s = (.ok (), s.evaluating texts)) ∨
    ∃ e, x s = (.error e, s.evaluating texts) ∧
      (complete = true → ∃ e', evaluateEach texts s = (.error e', s.evaluating texts))

namespace Evaluates

variable {x : ExceptT ε (StateM State) α} {f : α → ExceptT ε (StateM State) β}
  {texts more : List String} {complete : Bool}

theorem pure (a : α) : Evaluates (Pure.pure a : ExceptT ε (StateM State) α) [] true :=
  fun _ => .inl ⟨a, rfl, rfl, rfl⟩

theorem throw (e : ε) : Evaluates (MonadExcept.throw e : ExceptT ε (StateM State) α) [] false :=
  fun _ => .inr ⟨e, rfl, nofun⟩

/-- Reading the variables. -/
theorem read (read : State → α) :
    Evaluates (do return read (← get) : ExceptT ε (StateM State) α) [] true :=
  fun s => .inl ⟨read s, rfl, rfl, rfl⟩

theorem evaluate (text : String) : Evaluates (StoryEngine.evaluate text) [text] true := by
  intro s
  have hone : evaluateEach [text] = StoryEngine.evaluate text >>= fun _ => evaluateEach [] := rfl
  have hstate : s.evaluating [text] = (evaluateEach [text] s).2 := rfl
  rw [hstate, hone, bind_state_apply]
  rcases StoryEngine.evaluate text s with ⟨e | a, t⟩
  · exact .inr ⟨e, rfl, fun _ => ⟨e, rfl⟩⟩
  · exact .inl ⟨a, rfl, rfl, rfl⟩

/-- Renaming what goes wrong. -/
theorem adapt (rename : ε → ε') (hx : Evaluates x texts complete) :
    Evaluates (ExceptT.adapt rename x) texts complete := by
  intro s
  have hadapt : ExceptT.adapt rename x s = ((x s).1.mapError rename, (x s).2) := rfl
  obtain ⟨a, hrun, hrest⟩ | ⟨e, hrun, hrest⟩ := hx s
  · exact .inl ⟨a, by rw [hadapt, hrun]; rfl, hrest⟩
  · exact .inr ⟨rename e, by rw [hadapt, hrun]; rfl, hrest⟩

/-- A part that never has a result is all that is executed. -/
theorem bind_incomplete (hx : Evaluates x texts false) : Evaluates (x >>= f) texts false := by
  intro s
  obtain ⟨_, _, hfalse, _⟩ | ⟨e, hrun, hrest⟩ := hx s
  · cases hfalse
  · exact .inr ⟨e, by rw [bind_state_apply, hrun], hrest⟩

theorem bind (hx : Evaluates x texts true) (hf : ∀ a, Evaluates (f a) more complete) :
    Evaluates (x >>= f) (texts ++ more) complete := by
  intro s
  have hstate : s.evaluating (texts ++ more) = (evaluateEach (texts ++ more) s).2 := rfl
  obtain ⟨a, hrun, -, heach⟩ | ⟨e, hrun, hrest⟩ := hx s
  · have happend : evaluateEach (texts ++ more) s = evaluateEach more (s.evaluating texts) := by
      rw [evaluateEach_append, heach]
    have hnext : s.evaluating (texts ++ more) = (s.evaluating texts).evaluating more := by
      rw [hstate, happend]
      rfl
    rw [bind_state_apply, hrun, happend, hnext]
    exact hf a _
  · obtain ⟨e', heach⟩ := hrest rfl
    have happend : evaluateEach (texts ++ more) s = (.error e', s.evaluating texts) := by
      rw [evaluateEach_append, heach]
    rw [bind_state_apply, hrun, hstate, happend]
    exact .inr ⟨e, rfl, fun _ => ⟨e', rfl⟩⟩

theorem state (hx : Evaluates x texts complete) (s : State) : (x s).2 = s.evaluating texts := by
  obtain ⟨a, hrun, -⟩ | ⟨e, hrun, -⟩ := hx s
  · rw [hrun]
  · rw [hrun]

theorem bind_pure (hx : Evaluates x texts complete) (g : α → β) :
    Evaluates (do return g (← x) : ExceptT ε (StateM State) β) texts complete := by
  intro s
  obtain ⟨a, hrun, hrest⟩ | ⟨e, hrun, hrest⟩ := hx s
  · exact .inl ⟨g a, by rw [bind_state_apply, hrun]; rfl, hrest⟩
  · exact .inr ⟨e, by rw [bind_state_apply, hrun], hrest⟩

end Evaluates

end Evaluates

/-! ### The expressions among arguments -/

/-- The token has a value, unless it is an expression that fails. -/
def ArgumentToken.isSpelled (token : ArgumentToken) : Bool :=
  match token.kind with
  | .bad _ => false
  | .bareword | .expression => true
  | .string => (unquote token.text).isOk
  | .brackets => (markupValue? token.text.toList).isSome

/-- The expression between the backquotes of the token, if there is one. -/
def ArgumentToken.expressions (token : ArgumentToken) : List String :=
  match token.kind with
  | .expression =>
    let inner := expressionText token.text
    if inner.isEmpty then [] else [inner]
  | _ => []

/-- The expressions among the tokens, up to the first that has no value. -/
def expressionsIn : List ArgumentToken → List String
  | [] => []
  | token :: rest => token.expressions ++ if token.isSpelled then expressionsIn rest else []

/-- The arguments of a tag, as written, have values unless an expression among them fails. -/
def areSpelled (raw : String) : Bool :=
  (scanArguments 0 raw.toList).all ArgumentToken.isSpelled

/-- The expressions among the arguments of the tags, up to the first that has no value. -/
def expressionsOf : List String → List String
  | [] => []
  | raw :: rest =>
    expressionsIn (scanArguments 0 raw.toList) ++ if areSpelled raw then expressionsOf rest else []

theorem ArgumentToken.evaluates_value (token : ArgumentToken) :
    Evaluates token.value token.expressions token.isSpelled := by
  unfold ArgumentToken.value ArgumentToken.expressions ArgumentToken.isSpelled
  cases token.kind with
  | bad fault => exact .throw _
  | bareword =>
    by_cases hvariable : isVariable token.text = true
    · simpa only [if_pos hvariable] using Evaluates.read fun s => s.value token.text
    · simpa only [if_neg hvariable] using Evaluates.pure (barewordValue token.text)
  | expression =>
    by_cases hempty : (expressionText token.text).isEmpty = true
    · simpa only [if_pos hempty] using Evaluates.pure Value.null
    · simpa only [if_neg hempty] using (Evaluates.evaluate _).adapt _
  | string =>
    dsimp only
    cases hunquote : unquote token.text with
    | ok s => exact .pure (Value.string s)
    | error e => exact .throw _
  | brackets =>
    dsimp only
    cases hmarkup : markupValue? token.text.toList with
    | some value => exact .pure value
    | none => exact .throw _

theorem evaluates_tokenValues (tokens : List ArgumentToken) :
    Evaluates (tokenValues tokens) (expressionsIn tokens) (tokens.all ArgumentToken.isSpelled) := by
  induction tokens with
  | nil => exact .pure []
  | cons token rest ih =>
    have htoken := token.evaluates_value
    rw [tokenValues, expressionsIn, List.all_cons]
    cases hspelled : token.isSpelled with
    | false =>
      rw [hspelled] at htoken
      rw [if_neg Bool.false_ne_true, List.append_nil, Bool.false_and]
      exact htoken.bind_incomplete
    | true =>
      rw [hspelled] at htoken
      rw [if_pos rfl, Bool.true_and]
      exact htoken.bind fun value => ih.bind_pure (value :: ·)

/-- Read the arguments of several tags, in order. -/
def readEach : List String → ArgumentReading (List ArgumentList)
  | [] => pure []
  | raw :: rest => do
    let args ← readArguments raw
    let lists ← readEach rest
    return args :: lists

theorem evaluates_readArguments (raw : String) :
    Evaluates (readArguments raw) (expressionsIn (scanArguments 0 raw.toList)) (areSpelled raw) :=
  (evaluates_tokenValues (scanArguments 0 raw.toList)).bind_pure (ArgumentList.mk · raw)

/-- Reading the arguments of tags evaluates the expressions among them, each of them once and in
the order in which they are written. -/
theorem evaluates_readEach (raws : List String) :
    Evaluates (readEach raws) (expressionsOf raws) (raws.all areSpelled) := by
  induction raws with
  | nil => exact .pure []
  | cons raw rest ih =>
    have hraw := evaluates_readArguments raw
    rw [readEach, expressionsOf, List.all_cons]
    cases hspelled : areSpelled raw with
    | false =>
      rw [hspelled] at hraw
      rw [if_neg Bool.false_ne_true, List.append_nil, Bool.false_and]
      exact hraw.bind_incomplete
    | true =>
      rw [hspelled] at hraw
      rw [if_pos rfl, Bool.true_and]
      exact hraw.bind fun args => ih.bind_pure (args :: ·)

/-! ### The arguments of a call -/

section Call

variable {η σ : Type} {entry : MacroEntry (Handler η)}

theorem callArguments_apply (hskip : entry.definition.skipArgs = false) (raw : String)
    (e : Engine η σ) :
    callArguments entry.definition raw e =
      (.ok (readArguments raw e.state).1, { e with state := (readArguments raw e.state).2 }) := by
  rw [callArguments, hskip]
  rfl

/-- The clauses of a call are read as so many tags. -/
theorem payloadClauses_apply (hskip : entry.definition.skipArgs = false) (clauses : List Clause)
    (e : Engine η σ) :
    match readEach (clauses.map (·.args)) e.state with
    | (.ok lists, t) => ∃ payload, payload.map (·.args) = lists ∧
        payloadClauses entry.definition clauses e = (.ok (.ok payload), { e with state := t })
    | (.error error, t) =>
        payloadClauses entry.definition clauses e = (.ok (.error error), { e with state := t }) := by
  induction clauses generalizing e with
  | nil => exact ⟨[], rfl, rfl⟩
  | cons clause rest ih =>
    rw [List.map_cons, readEach, bind_state_apply, payloadClauses, Run.bind_apply,
      callArguments_apply hskip]
    rcases readArguments clause.args e.state with ⟨error | args, t⟩
    · rfl
    · have ih := ih { e with state := t }
      dsimp only at ih ⊢
      rw [bind_state_apply]
      rcases hrest : readEach (rest.map (·.args)) t with ⟨error | lists, t'⟩
      · simp only [hrest] at ih ⊢
        exact Run.bind_of_ok ih
      · simp only [hrest] at ih ⊢
        obtain ⟨payload, rfl, hpayload⟩ := ih
        exact ⟨⟨clause.name, args, clause.contents, clause.source⟩ :: payload, rfl,
          Run.bind_of_ok hpayload⟩

/-- Making a context leaves the variables alone. -/
theorem attempt_make (data : ContextData η) (e : Engine η σ) :
    ∃ made e', Run.attempt (Context.make data) e = (.ok made, e') ∧ e'.state = e.state ∧
      ∀ context, made = .ok context →
        context.call.args = data.args ∧ context.call.payload = data.payload := by
  unfold Context.make
  cases data.entry with
  | none => exact ⟨_, e, Run.attempt_of_failure rfl, rfl, fun _ h => by cases h⟩
  | some entry =>
    by_cases hname : data.name.isEmpty = true
    · simp only [if_pos hname]
      exact ⟨_, e, Run.attempt_of_failure rfl, rfl, fun _ h => by cases h⟩
    · simp only [if_neg hname]
      cases data.output with
      | none => exact ⟨_, e, Run.attempt_of_failure rfl, rfl, fun _ h => by cases h⟩
      | some output =>
        refine ⟨_, _, Run.attempt_of_ok rfl, rfl, ?_⟩
        rintro context ⟨⟩
        exact ⟨rfl, rfl⟩

/-- A call reads its tag and then its clauses. -/
theorem openCall_readEach (hskip : entry.definition.skipArgs = false) (out : OutputId) (tag : Tag)
    (clauses : List Clause) (source : String) (e : Engine η σ) :
    ∃ made e', openCall out entry tag clauses source e = (.ok made, e') ∧
      e'.state = (readEach (tag.args :: clauses.map (·.args)) e.state).2 ∧
      ∀ context, made = some context →
        (readEach (tag.args :: clauses.map (·.args)) e.state).1
          = .ok (context.call.args :: context.call.payload.map (·.args)) := by
  rw [openCall, Run.bind_apply, callArguments_apply hskip, readEach, bind_state_apply]
  rcases readArguments tag.args e.state with ⟨error | args, t⟩
  · exact ⟨none, _, rfl, rfl, fun _ h => by cases h⟩
  dsimp only
  have hclauses := payloadClauses_apply hskip clauses { e with state := t }
  rw [bind_state_apply]
  rcases hread : readEach (clauses.map (·.args)) t with ⟨error | lists, t'⟩
  · simp only [hread] at hclauses ⊢
    rw [Run.bind_of_ok hclauses]
    exact ⟨none, _, rfl, rfl, fun _ h => by cases h⟩
  · simp only [hread] at hclauses ⊢
    obtain ⟨payload, rfl, hpayload⟩ := hclauses
    rw [Run.bind_of_ok hpayload]
    dsimp only
    rw [Run.get_bind_apply]
    obtain ⟨made, e', hmade, hstate, hcontext⟩ := attempt_make {
      entry := some entry
      name := tag.name
      args := args
      payload := payload
      source := source
      parent := e.current
      output := some out
      isDebug := e.config.debug } { e with state := t' }
    rw [Run.bind_of_ok hmade]
    cases made with
    | error failure => exact ⟨none, _, rfl, hstate, fun _ h => by cases h⟩
    | ok context =>
      refine ⟨some context, e', rfl, hstate, ?_⟩
      rintro _ ⟨⟩
      obtain ⟨hargs, hpayload⟩ := hcontext context rfl
      rw [hargs, hpayload]
      rfl

/-- The clauses of a call of the macro: those of its body, if it is a container. -/
def MacroEntry.ClausesOf (entry : MacroEntry (Handler η)) (tag : Tag) (clauses : List Clause) :
    Prop :=
  if entry.definition.isContainer then
    ∃ following body,
      bodyFrom tag.name entry.definition.childTags 0 (.ofTag tag) 0 following = .ok body ∧
        clauses = body.clauses
  else clauses = []

/-- Reading the arguments once more gives the same values and changes nothing. -/
def Repeatable (raw : String) (s : State) : Prop :=
  ∀ args t, readArguments raw s = (.ok args, t) → readArguments raw t = (.ok args, t)

/-- The first clause of a container is its opening tag. -/
theorem MacroEntry.ClausesOf.args_eq {tag : Tag} {clauses : List Clause}
    (h : entry.ClausesOf tag clauses) :
    clauses.map (·.args) =
      if entry.definition.isContainer then tag.args :: clauses.tail.map (·.args) else [] := by
  unfold MacroEntry.ClausesOf at h
  split
  · rename_i hcontainer
    rw [if_pos hcontainer] at h
    obtain ⟨following, body, hbody, rfl⟩ := h
    have hbegun : Clause.ofTag tag = .ofRun tag [] := rfl
    obtain ⟨contents, others, closing, hdiv⟩ := divides_of_bodyFrom hbegun rfl hbody
    rw [hdiv.clauses]
    rfl
  · rename_i hcontainer
    rw [if_neg hcontainer] at h
    rw [h]
    rfl

theorem length_of_readEach {raws : List String} {s : State} {lists : List ArgumentList}
    (h : (readEach raws s).1 = .ok lists) : lists.length = raws.length := by
  induction raws generalizing s lists with
  | nil => cases h; rfl
  | cons raw rest ih =>
    rw [readEach, bind_state_apply] at h
    rcases hraw : readArguments raw s with ⟨error | args, t⟩
    · rw [hraw] at h
      cases h
    · rw [hraw] at h
      dsimp only at h
      rw [bind_state_apply] at h
      rcases hrest : readEach rest t with ⟨error | lists', t'⟩
      · simp only [hrest] at h
        cases h
      · simp only [hrest] at h
        cases h
        simp [ih (by rw [hrest])]

/-- What can be read once more may be read twice. -/
theorem readEach_twice {raw : String} {s : State} (h : Repeatable raw s) (rest : List String) :
    (readEach (raw :: raw :: rest) s).2 = (readEach (raw :: rest) s).2 ∧
      ∀ first second lists, (readEach (raw :: raw :: rest) s).1 = .ok (first :: second :: lists) →
        first = second := by
  rw [readEach, readEach, bind_state_apply, bind_state_apply]
  rcases hraw : readArguments raw s with ⟨error | args, t⟩
  · exact ⟨rfl, fun _ _ _ h => by cases h⟩
  · have hagain := h args t hraw
    dsimp only
    rw [bind_state_apply, bind_state_apply, hagain]
    dsimp only
    rw [bind_state_apply]
    rcases readEach rest t with ⟨error | lists, t'⟩
    · exact ⟨rfl, fun _ _ _ h => by cases h⟩
    · refine ⟨rfl, ?_⟩
      rintro first second lists' ⟨⟩
      rfl

/-- A call evaluates the expressions in its tag, again those in its opening tag if the macro is a
container, and then those in each child tag, one after the other. Each of them is evaluated once,
and the first clause has the arguments of the call, if the macro is no container or if the
arguments of the opening tag can be read once more to no effect. -/
theorem arguments_evaluated (hskip : entry.definition.skipArgs = false) {tag : Tag}
    {clauses : List Clause} (hclauses : entry.ClausesOf tag clauses) (out : OutputId)
    (source : String) (e : Engine η σ) :
    let written := tag.args :: clauses.tail.map (·.args)
    let read := if entry.definition.isContainer then tag.args :: written else written
    ∃ made e', openCall out entry tag clauses source e = (.ok made, e') ∧
      e'.state = e.state.evaluating (expressionsOf read) ∧
      (∀ context, made = some context → (readEach read e.state).1
        = .ok (context.call.args :: context.call.payload.map (·.args))) ∧
      (entry.definition.isContainer = false ∨ Repeatable tag.args e.state →
        e'.state = e.state.evaluating (expressionsOf written) ∧
        ∀ context, made = some context →
          ∀ clause ∈ context.call.payload.head?, clause.args = context.call.args) := by
  intro written read
  have hraws : tag.args :: clauses.map (·.args) = read := by
    show _ = if entry.definition.isContainer then tag.args :: written else written
    rw [hclauses.args_eq]
    split
    · rfl
    · rename_i hcontainer
      rw [MacroEntry.ClausesOf, if_neg hcontainer] at hclauses
      show _ = tag.args :: clauses.tail.map (·.args)
      rw [hclauses]
      rfl
  obtain ⟨made, e', hopen, hstate, hlists⟩ := openCall_readEach hskip out tag clauses source e
  rw [hraws] at hstate hlists
  refine ⟨made, e', hopen, hstate.trans ((evaluates_readEach read).state _), hlists, ?_⟩
  rintro honce
  by_cases hcontainer : entry.definition.isContainer = true
  · have hread : read = tag.args :: written := if_pos hcontainer
    have hrepeat : Repeatable tag.args e.state := by
      obtain hnot | hrepeat := honce
      · rw [hnot] at hcontainer
        cases hcontainer
      · exact hrepeat
    obtain ⟨htwice, hsame⟩ := readEach_twice hrepeat (clauses.tail.map (·.args))
    rw [hread] at hstate hlists
    refine ⟨(hstate.trans htwice).trans ((evaluates_readEach written).state _), ?_⟩
    intro context hcontext clause hclause
    have hlists := hlists context hcontext
    cases hpayload : context.call.payload with
    | nil => rw [hpayload] at hclause; cases hclause
    | cons first more =>
      rw [hpayload] at hclause hlists
      cases hclause
      exact (hsame _ _ _ hlists).symm
  · have hread : read = written := if_neg hcontainer
    rw [hread] at hstate hlists
    refine ⟨hstate.trans ((evaluates_readEach written).state _), ?_⟩
    intro context hcontext clause hclause
    -- there are as many clauses in the payload as the call has
    rw [MacroEntry.ClausesOf, if_neg hcontainer] at hclauses
    have hlength := length_of_readEach (hlists context hcontext)
    have hpayload : context.call.payload = [] := by
      simpa [written, hclauses] using hlength
    rw [hpayload] at hclause
    cases hclause

end Call

/-- The entry of the macro that makes links. -/
def linkEntry : MacroEntry (Handler Empty) :=
  ⟨Builtin.link.definition (.builtin .link), 7, none⟩

/-- The opening tag of a link that shows what the expression gives. -/
def linkTag (expression : String) : Tag :=
  let args := "\x60" ++ expression ++ "\x60"
  ⟨"link", args, "<<link " ++ args ++ ">>", 0, 0⟩

/-- What follows the opening tag of a link. -/
def linkFollowing : List Segment :=
  [.text "go", .tag ⟨"/link", "", "<</link>>", 0, 0⟩]

/-- The clause that it begins. -/
def linkClause (expression : String) : Clause :=
  { Clause.ofTag (linkTag expression) with contents := "go" }

theorem linkEntry_clausesOf {expression : String} (body : Body)
    (h : bodyFrom "link" [] 0 (.ofTag (linkTag expression)) 0 linkFollowing = .ok body)
    (hclauses : body.clauses = [linkClause expression]) :
    linkEntry.ClausesOf (linkTag expression) [linkClause expression] :=
  ⟨linkFollowing, body, h, hclauses.symm⟩

/-- An opening tag that only reads a variable. -/
theorem arguments_evaluated_of_link :
    let written := [(linkTag "$x").args]
    let read := (linkTag "$x").args :: written
    let e : Engine Empty Unit := Engine.ofConfig {} ()
    linkEntry.definition.skipArgs = false ∧
    linkEntry.ClausesOf (linkTag "$x") [linkClause "$x"] ∧
    ∃ made e', openCall ⟨0⟩ linkEntry (linkTag "$x") [linkClause "$x"] "" e = (.ok made, e') ∧
      e'.state = e.state.evaluating (expressionsOf read) ∧
      (∀ context, made = some context → (readEach read e.state).1
        = .ok (context.call.args :: context.call.payload.map (·.args))) ∧
      (linkEntry.definition.isContainer = false ∨ Repeatable (linkTag "$x").args e.state →
        e'.state = e.state.evaluating (expressionsOf written) ∧
        ∀ context, made = some context →
          ∀ clause ∈ context.call.payload.head?, clause.args = context.call.args) := by
  have hclauses : linkEntry.ClausesOf (linkTag "$x") [linkClause "$x"] :=
    linkEntry_clausesOf ⟨[linkClause "$x"], 2, 0⟩ (by decide +kernel) rfl
  exact ⟨rfl, hclauses, arguments_evaluated rfl hclauses ⟨0⟩ "" _⟩

/-- The expression in the opening tag of a link is evaluated twice, and the second value is not the
one that the link shows. Evaluated once, it gives the variable the first value. -/
theorem opening_tag_read_twice :
    let tag := linkTag "$x to $x + 'a'"
    let clauses := [linkClause "$x to $x + 'a'"]
    ∃ e e' : Engine Empty Unit, ∃ context,
      e.registry.get? tag.name = some linkEntry ∧ linkEntry.definition.skipArgs = false ∧
      linkEntry.ClausesOf tag clauses ∧
      openCall ⟨0⟩ linkEntry tag clauses "" e = (.ok (some context), e') ∧
      ((e.state.evaluating (expressionsOf (tag.args :: clauses.tail.map (·.args)))).value
        "$x").display = "a" ∧
      (e'.state.value "$x").display = "aa" ∧
      context.call.args.text? 0 = some "a" ∧
      (context.call.payload.head?.bind (·.args.text? 0)) = some "aa" := by
  intro tag clauses
  let e : Engine Empty Unit :=
    { (Engine.ofConfig {} () : Engine Empty Unit) with
      state := { story := [("$x", .string "")] } }
  have hclauses : linkEntry.ClausesOf tag clauses :=
    linkEntry_clausesOf ⟨clauses, 2, 0⟩ (by decide +kernel) rfl
  let opened := openCall ⟨0⟩ linkEntry tag clauses "" e
  -- what a reader sees of the arguments of the context that is made
  let shown (context : Context Empty) : Option String × Option String :=
    (context.call.args.text? 0, context.call.payload.head?.bind (·.args.text? 0))
  obtain ⟨honce, htwice, hshown⟩ :
      ((e.state.evaluating (expressionsOf (tag.args :: clauses.tail.map (·.args)))).value
        "$x").display = "a" ∧
      (opened.2.state.value "$x").display = "aa" ∧
      opened.1.toOption.join.map shown = some (some "a", some "aa") := by
    decide +kernel
  obtain ⟨context, hcontext, hpair⟩ := Option.map_eq_some_iff.1 hshown
  obtain ⟨hargs, hpayload⟩ := Prod.mk.inj hpair
  have hopened : opened.1 = .ok (some context) := by
    cases hresult : opened.1 with
    | error halt => rw [hresult] at hcontext; cases hcontext
    | ok made =>
      rw [hresult] at hcontext
      exact congrArg _ hcontext
  exact ⟨e, opened.2, context, rfl, rfl, hclauses, Prod.ext hopened rfl, honce, htwice, hargs,
    hpayload⟩

end StoryEngine
