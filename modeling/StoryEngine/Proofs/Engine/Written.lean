import StoryEngine.Play
import StoryEngine.Proofs.Display.Pushed
import StoryEngine.Proofs.Engine.Call
import StoryEngine.Proofs.Expr.Literal
import StoryEngine.Proofs.Passage.Written
/-!
# StoryEngine.Proofs.Engine.Written

Calls as they are written in a passage, when they are rendered. The macro runs once, in a context
with the values that the written arguments stand for (`written_arguments_arrive`). On the way there
the source is divided into tags, the arguments of the tag into tokens and each token is given a
value, by three scans of their own; what they say of a written call was shown apart.

Text that a passage displays as it is comes in two forms: plain text, and the string of a literal
that is printed by the macro `-`. A reader sees what was written, whatever signs the string holds
(`literal_shown_as_it_is`).
-/

namespace StoryEngine

variable {η σ : Type}

open WrittenArgument

/-! ### One more render inside those under way -/

/-- There is room for the render, so it takes place. -/
theorem deeper_of_lt {e : Engine η σ} (hdepth : e.renderDepth < e.config.maxRenderDepth)
    (tooDeep x : Run η σ Unit) :
    deeper tooDeep x e =
      Run.andFinally x (fun e => { e with
          renderDepth := e.renderDepth - 1
          renderDepth_le := Nat.le_trans (Nat.sub_le ..) e.renderDepth_le })
        { e with renderDepth := e.renderDepth + 1, renderDepth_le := hdepth } := by
  rw [deeper, Run.get_bind_apply, dif_pos hdepth]
  rfl

/-! ### Rendering a written call -/

theorem Registry.get?_of_find? {r : Registry (Handler η)} {name : String}
    {entry : MacroEntry (Handler η)} {handler : Handler η}
    (hentry : Entries.find? name r.macros = some entry)
    (hhandler : entry.definition.handler = some handler) : r.get? name = some entry := by
  simp [Registry.get?, hentry, hhandler, Option.filter]

theorem callArguments_written {definition : Definition (Handler η)}
    (hparses : definition.skipArgs = false) (args : List WrittenArgument) (e : Engine η σ) :
    callArguments definition (" ".intercalate (args.map text)) e =
      (.ok (.ok ⟨args.map (value e.state), " ".intercalate (args.map text)⟩), e) := by
  have hread := readArguments_written args e.state
  have hskips : ¬ definition.skipArgs = true := by simp [hparses]
  have hreading (raw : String) : Run.reading (readArguments raw) e =
      (.ok (readArguments raw e.state).1, { e with state := (readArguments raw e.state).2 }) := rfl
  rw [callArguments, if_neg hskips, hreading, hread]

/-- A tag that makes up all of a source. -/
theorem renderSegments_of_renderTag {tag : Tag} {out : OutputId} {e e' : Engine η σ}
    {run : Handler η → Context η → Run η σ Unit} {x : Run η σ Unit} (hbreak : e.loopBreak = none)
    (htag : renderTag run out tag [] e = (x >>= fun _ => pure 0) e') :
    renderSegments run out 0 [.tag tag] e = x e' := by
  rw [renderSegments_tag hbreak, Run.bind_apply, htag, Run.bind_apply]
  rcases x e' with ⟨halt | u, e''⟩
  · rfl
  · rfl

/-- Whatever has been registered, a macro without a body that has its arguments read is called with
what was written: the text `<<name argument … argument>>` is one tag, and rendering the tag executes
one call, whose arguments are the strings and the values of the variables, in order. So does
rendering the text, unless the engine renders nothing because a loop is being left or the renders
nest too deep. -/
theorem written_arguments_arrive {calls : List (RegistryCall (Handler η))} {e : Engine η σ}
    (hregistry : e.registry = .after calls) {name : String} {entry : MacroEntry (Handler η)}
    (hentry : Entries.find? name e.registry.macros = some entry) {handler : Handler η}
    (hhandler : entry.definition.handler = some handler)
    (hcontainer : entry.definition.isContainer = false)
    (hparses : entry.definition.skipArgs = false) (args : List WrittenArgument) (out : OutputId) :
    ∃ tag context,
      segmentsOf ("<<" ++ " ".intercalate (name :: args.map text) ++ ">>") = [.tag tag] ∧
      context.call.definition = entry.definition ∧ context.call.displayName = name ∧
      context.call.output = out ∧ context.call.args.values = args.map (value e.state) ∧
      context.call.args.raw = " ".intercalate (args.map text) ∧
      (∀ run following, renderTag run out tag following e =
        (executeCall (run handler) context >>= fun _ => pure 0) e.addCall) ∧
      ∀ host n, e.loopBreak = none → e.renderDepth < e.config.maxRenderDepth →
        perform host (n + 1)
            (.render out ("<<" ++ " ".intercalate (name :: args.map text) ++ ">>")) e =
          deeper (pure ()) (executeCall (runHandler host (perform host n) handler) context)
            e.addCall := by
  have hname : MacroName name := by
    refine (Registry.Consistent.after calls).macros name ?_
    rw [← hregistry, Registry.has, Entries.has, hentry]
    rfl
  let tag := callTag name args
  have hsegments : segmentsOf (callSource name args) = [.tag tag] := by
    have hcall := segmentsOf_callSource hname args ""
    rwa [String.append_empty, String.toList_empty, segmentsFrom_nil] at hcall
  let found : ArgumentList := ⟨args.map (value e.state), " ".intercalate (args.map text)⟩
  have hget : e.registry.get? tag.name = some entry := by
    rw [callTag_name]
    exact Registry.get?_of_find? hentry hhandler
  -- what is read does not depend on how deep the renders nest
  have hargs (e' : Engine η σ) (hstate : e'.state = e.state) :
      callArguments entry.definition tag.args e' = (.ok (.ok found), e') := by
    rw [callTag_args, callArguments_written hparses, hstate]
  have hempty : tag.name.isEmpty = false := by
    rw [callTag_name]
    exact hname.isEmpty
  let context := e.callContext out entry tag.name found [] tag.source
  refine ⟨tag, context, hsegments, rfl, callTag_name name args, rfl, rfl, rfl, ?_, ?_⟩
  · intro run following
    exact renderTag_void hget hhandler hcontainer (hargs e rfl) hempty run following
  · intro host n hbreak hdepth
    let inner : Engine η σ :=
      { e with renderDepth := e.renderDepth + 1, renderDepth_le := hdepth }
    let run := runHandler host (perform host n)
    have htag : renderTag run out tag [] inner =
        (executeCall (run handler) context >>= fun _ => pure 0) inner.addCall :=
      renderTag_void (e := inner) hget hhandler hcontainer (hargs inner rfl) hempty run []
    have hrender : perform host (n + 1) (.render out (callSource name args)) e =
        render (runHandler host (perform host n)) out (callSource name args) e := rfl
    have hroom : e.addCall.renderDepth < e.addCall.config.maxRenderDepth := hdepth
    change perform host (n + 1) (.render out (callSource name args)) e = _
    rw [hrender, render, deeper_of_lt hdepth, deeper_of_lt hroom, hsegments]
    exact Run.andFinally_congr (renderSegments_of_renderTag (e := inner) hbreak htag) _

/-- A host with one procedure, which notes the arguments of each call. -/
def notingHost : Host Unit (List ArgumentList) := fun _ _ occasion =>
  match occasion with
  | .call context => modify fun e => { e with host := e.host ++ [context.call.args] }
  | _ => pure ()

/-- An engine whose only macro is called `note`. -/
def notingEngine : Engine Unit (List ArgumentList) :=
  { Engine.ofRegistry {} (.after [.add ["note"] { handler := some (.host ()) }]) [] with
    state := { story := [("$x", .bool true)] } }

/-- Signs that close a tag and a quote, a variable with a value, and one without. -/
theorem note_takes_written_arguments :
    (perform notingHost 1 (.render ⟨0⟩ "<<note \"a>>\\\"b\" $x _y>>") notingEngine).2.host =
      [⟨[.string "a>>\"b", .bool true, .null], "\"a>>\\\"b\" $x _y"⟩] := by
  have hentry : Entries.find? "note" notingEngine.registry.macros =
      some ⟨{ handler := some (.host ()) }, 0, none⟩ := rfl
  obtain ⟨tag, context, -, -, -, -, hvalues, hraw, -, hrender⟩ :=
    written_arguments_arrive (e := notingEngine) rfl hentry rfl rfl rfl
      [.string .double "a>>\"b", .var "$x" rfl, .var "_y" rfl] ⟨0⟩
  have hargs : context.call.args = ⟨context.call.args.values, context.call.args.raw⟩ := rfl
  have hnoted := hrender notingHost 0 rfl (by decide)
  have htext : "<<note \"a>>\\\"b\" $x _y>>" = "<<" ++ " ".intercalate ("note" ::
      [WrittenArgument.string .double "a>>\"b", .var "$x" rfl, .var "_y" rfl].map text) ++ ">>" := by
    decide
  rw [htext, hnoted]
  change [] ++ [context.call.args] = _
  rw [hargs, hvalues, hraw]
  rfl

/-! ### Plain text -/

/-- Text without a `<<` is displayed as it is. -/
theorem renderSegments_text {e : Engine η σ} (hbreak : e.loopBreak = none) {text : String}
    (htext : ¬ ['<', '<'] <:+: text.toList) (run : Handler η → Context η → Run η σ Unit)
    (out : OutputId) (start : Nat) :
    renderSegments run out 0 (segmentsFrom start text.toList) e =
      (.ok (), { e with tree := e.tree.pushText out text }) := by
  have hnone : e.loopBreak.isSome = false := by simp [hbreak]
  cases hchars : text.toList with
  | nil =>
      have hempty : text = "" := by simpa using hchars
      rw [segmentsFrom_nil, hempty]
      rfl
  | cons c cs =>
      have hwhole : String.ofList (c :: cs) = text := by
        rw [← hchars, String.ofList_toList]
      rw [hchars] at htext
      rw [segmentsFrom_unopened htext, hwhole, renderSegments, Run.get_bind_apply, hnone]
      rfl

/-! ### The macro `-` -/

namespace Registry

theorem find?_addEntries_of_notMem {name : String} {names : List String} (h : name ∉ names)
    (r : Registry η) (entry : MacroEntry η) :
    Entries.find? name (r.addEntries entry names).2.macros = Entries.find? name r.macros := by
  induction names generalizing r with
  | nil => rfl
  | cons first rest ih =>
      obtain ⟨hfirst, hrest⟩ := List.ne_and_not_mem_of_not_mem_cons h
      rw [addEntries, addEntry_eq]
      cases r.checkName first entry.definition with
      | error e => rfl
      | ok u => exact (ih hrest _).trans (Entries.find?_put_of_ne hfirst entry r.macros)

theorem find?_addAlias_of_notMem {name : String} {names : List String} (h : name ∉ names)
    (r : Registry η) (target : String) :
    Entries.find? name (r.addAlias names target).2.macros = Entries.find? name r.macros := by
  rw [addAlias]
  cases Entries.find? target r.macros with
  | none => rfl
  | some entry => exact find?_addEntries_of_notMem h r _

/-- Registering macros under other names does not change what a name stands for. -/
theorem find?_addAll_of_notMem {name : String} {macros : List (List String × Builtin)}
    (h : ∀ named ∈ macros, name ∉ named.1) (handler : Builtin → η) (r : Registry η) :
    Entries.find? name (macros.foldl (fun (r : Registry η) (names, builtin) =>
        (r.add names (builtin.definition (handler builtin))).2) r).macros =
      Entries.find? name r.macros := by
  induction macros generalizing r with
  | nil => rfl
  | cons first rest ih =>
      obtain ⟨hfirst, hrest⟩ := List.forall_mem_cons.1 h
      rw [List.foldl_cons, ih hrest]
      exact find?_addEntries_of_notMem hfirst _ _

/-- The name `-` is one of the three that the printing macro comes with. -/
theorem find?_hyphen (handler : Builtin → η) :
    Entries.find? "-" (ofBuiltins handler).macros =
      some ⟨Builtin.print.definition (handler .print), 0, none⟩ := by
  have hfirst : Entries.find? "-" (({} : Registry η).add ["print", "=", "-"]
      (Builtin.print.definition (handler .print))).2.macros =
        some ⟨Builtin.print.definition (handler .print), 0, none⟩ := by
    rfl
  have hrest : ∀ named ∈ Builtin.names.tail, "-" ∉ named.1 := by decide
  have hnames : Builtin.names = (["print", "=", "-"], .print) :: Builtin.names.tail := rfl
  rw [ofBuiltins, find?_addAlias_of_notMem (by decide), hnames, List.foldl_cons,
    find?_addAll_of_notMem hrest, ← hfirst]

theorem get?_hyphen :
    (ofBuiltins (@Handler.builtin η)).get? "-" =
      some ⟨Builtin.print.definition (.builtin .print), 0, none⟩ := by
  have hfind := find?_hyphen (@Handler.builtin η)
  have hhandler : (Builtin.print.definition (@Handler.builtin η .print)).handler =
      some (.builtin .print) := rfl
  exact get?_of_find? hfind hhandler

end Registry

/-! ### Printing a literal -/

/-- The macro `-` puts the string to where the call stands. -/
theorem runPrint_literal (p : Perform η σ) {call : MacroCall η} {e : Engine η σ} {q : QuoteMark}
    {s : String} (hraw : call.args.raw = q.literal s) (hname : call.name = "-")
    (hplain : call.IsPlain e) :
    Builtin.runPrint p call e = (.ok (), { e with tree := e.tree.pushText call.output s }) := by
  have hempty : ¬ (q.literal s).isEmpty = true := by simp [q.isEmpty_literal s]
  have hevaluate : Run.evaluating (evaluate (q.literal s)) e = (.ok (.ok (.string s)), e) := by
    rw [q.evaluate_literal]
    rfl
  have hnot : ¬ (Value.string s).isNull = true := Bool.false_ne_true
  rw [Builtin.runPrint, Builtin.withExpression, hraw, q.trimText_literal, if_neg hempty,
    Run.bind_of_ok hevaluate]
  dsimp only
  rw [if_neg hnot, Run.bind_of_ok hplain.target_apply, hname]
  rfl

/-- The tag of the call displays the string, and nothing else changes. -/
theorem renderTag_literal {e : Engine η σ}
    (hprint : e.registry.get? "-" = (Registry.ofBuiltins .builtin).get? "-")
    (hdebug : e.config.debug = false) (host : Host η σ) (p : Perform η σ) (q : QuoteMark)
    (s : String) (out : OutputId) (following : List Segment) :
    renderTag (runHandler host p) out (callTag "-" [.string q s]) following e =
      (.ok 0, { e with calls := e.calls.push {}, tree := e.tree.pushText out s }) := by
  let tag := callTag "-" [.string q s]
  let entry : MacroEntry (Handler η) := ⟨Builtin.print.definition (.builtin .print), 0, none⟩
  have hget : e.registry.get? tag.name = some entry := by
    rw [callTag_name, hprint]
    exact Registry.get?_hyphen
  have hargs : callArguments entry.definition tag.args e =
      (.ok (.ok (.unparsed tag.args)), e) := rfl
  have hname : tag.name.isEmpty = false := by
    rw [callTag_name]
    rfl
  let context := e.callContext out entry tag.name (.unparsed tag.args) [] tag.source
  have hraw : context.call.args.raw = q.literal s := by
    have htext : [WrittenArgument.string q s].map WrittenArgument.text = [q.literal s] := rfl
    change tag.args = _
    rw [callTag_args, htext]
    simp
  have hcall : context.call.name = "-" := by
    change tag.name = "-"
    exact callTag_name "-" [.string q s]
  have hplain : context.call.IsPlain (e.enterCall context) := Engine.isPlain_enterCall hdebug rfl
  have hprinted := runPrint_literal p hraw hcall hplain
  have hrun : runHandler host p (.builtin .print) context (e.enterCall context) =
      (.ok (), { e.enterCall context with tree := e.tree.pushText out s }) := hprinted
  have hcalls : e.calls.push { isDebug := e.config.debug } = e.calls.push {} := by
    rw [hdebug]
  rw [renderTag_void hget rfl rfl hargs hname, Run.bind_of_ok (executeCall_of_ok hrun)]
  change (Except.ok 0, { e with
    calls := e.calls.push { isDebug := e.config.debug }, tree := e.tree.pushText out s }) = _
  rw [hcalls]

/-- A literal that is printed by the macro `-`, with text behind it: the source
`<<- "string">>text` displays the string, with none of the escapes that it took to write it, and
the text. In an output that was empty a reader sees just these. Apart from the display nothing
changes but that there has been one call more. -/
theorem literal_shown_as_it_is {e : Engine η σ}
    (hprint : e.registry.get? "-" = (Registry.ofBuiltins .builtin).get? "-")
    (hdebug : e.config.debug = false) (hbreak : e.loopBreak = none)
    (hdepth : e.renderDepth < e.config.maxRenderDepth) {text : String}
    (htext : ¬ ['<', '<'] <:+: text.toList) (host : Host η σ) (n : Nat) (q : QuoteMark) (s : String)
    (out : OutputId) :
    ∃ tree, perform host (n + 1) (.render out ("<<- " ++ q.literal s ++ ">>" ++ text)) e =
        (.ok (), { e with calls := e.calls.push {}, tree := tree }) ∧
      tree = e.tree.pushText out (s ++ text) ∧
      (e.tree.IsBlank out → tree.text out = s ++ text ∧ tree.errors out = []) := by
  have hsource : "<<- " ++ q.literal s ++ ">>" ++ text = callSource "-" [.string q s] ++ text := by
    simp [← String.toList_inj, toList_callSource, WrittenArgument.text]
  -- the engine inside the render, before and after the call
  let run := runHandler host (perform host n)
  let inner : Engine η σ := { e with renderDepth := e.renderDepth + 1, renderDepth_le := hdepth }
  let shown : Engine η σ :=
    { inner with calls := e.calls.push {}, tree := e.tree.pushText out s }
  have hsegments :
      renderSegments run out 0 (segmentsOf (callSource "-" [.string q s] ++ text)) inner =
      (.ok (), { shown with tree := e.tree.pushText out (s ++ text) }) := by
    have htag := renderTag_literal (e := inner) hprint hdebug host (perform host n) q s out
      (segmentsFrom (callTag "-" [.string q s]).stop text.toList)
    rw [segmentsOf_callSource .hyphen, renderSegments_tag (e := inner) hbreak, Run.bind_of_ok htag]
    have hrest := renderSegments_text (e := shown) hbreak htext run out
      (callTag "-" [.string q s]).stop
    rw [Tree.pushText_pushText] at hrest
    exact hrest
  have hrender : perform host (n + 1) (.render out ("<<- " ++ q.literal s ++ ">>" ++ text)) e =
      render run out ("<<- " ++ q.literal s ++ ">>" ++ text) e := rfl
  refine ⟨e.tree.pushText out (s ++ text), ?_, rfl, fun hblank => ?_⟩
  · rw [hrender, render, deeper_of_lt hdepth, hsource]
    exact Run.andFinally_of_returned _ hsegments (returned_ok ())
  · exact ⟨hblank.text_pushText _, hblank.errors_pushText _⟩

/-- The signs that open and close tags, comments and link markup, in an engine that has just been
made. -/
theorem signs_shown_as_they_are :
    let e : Engine Empty Unit := Engine.ofConfig {} ()
    ∃ tree, perform Host.idle 1 (.render ⟨0⟩ "<<- \"<<a>>/*[[\\\"\\n\">>b") e =
        (.ok (), { e with calls := #[{}], tree := tree }) ∧
      tree.text ⟨0⟩ = "<<a>>/*[[\"\nb" ∧ tree.errors ⟨0⟩ = [] := by
  intro e
  have hregistry : e.registry = Registry.ofBuiltins .builtin := rfl
  have htext : ¬ ['<', '<'] <:+: "b".toList := by decide
  obtain ⟨tree, hrun, -, hshown⟩ := literal_shown_as_it_is (e := e) (by rw [hregistry]) rfl rfl
    (by decide) htext Host.idle 0 .double "<<a>>/*[[\"\n" ⟨0⟩
  have hsource : "<<- \"<<a>>/*[[\\\"\\n\">>b" =
      "<<- " ++ QuoteMark.double.literal "<<a>>/*[[\"\n" ++ ">>" ++ "b" := by
    decide
  rw [hsource]
  exact ⟨tree, hrun, hshown ⟨by decide, rfl⟩⟩

end StoryEngine
