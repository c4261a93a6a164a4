import Mathlib
import StoryEngine.Proofs.Engine.Termination
import StoryEngine.Proofs.Engine.Yields
/-!
# StoryEngine.Proofs.Engine.Retyping

A text that puts itself back into the queue. A variable holds source text that types out, all at
once, what the variable prints. When the text's turn comes it leaves the queue and is rendered; the
render puts the same text into the queue again, behind nothing, and so it is started at once, within
the start of the text before (`yields_startTyping`). The renders are closed each time, so the
settings do not bound how often that happens.
-/

namespace StoryEngine

variable {σ : Type} {out : OutputId}

/-! ### The text -/

/-- Source text that prints the variable `$x`. -/
def printSource : String := "<<print $x>>"

/-- Source text that types out what the variable `$x` prints, all at once. -/
def typeSource : String := "<<type 0s>><<print $x>><</type>>"

theorem parseStatements_x : parseStatements "$x" = .ok [.var "$x"] := by
  cbv

theorem evaluate_x (e : Engine Empty σ) :
    Run.evaluating (evaluate "$x") e = (.ok (.ok (e.state.value "$x")), e) := by
  rw [evaluate, parseStatements_x]
  rfl

theorem readArguments_speed (e : Engine Empty σ) :
    Run.reading (readArguments "0s") e = (.ok (.ok ⟨[.string "0s"], "0s"⟩), e) := by
  have hscan : scanArguments 0 "0s".toList = [⟨.bareword, "0s", 0, 2⟩] := by decide +kernel
  have hvariable : isVariable "0s" = false := by decide +kernel
  have hbareword : barewordValue "0s" = .string "0s" := by cbv
  rw [readArguments, hscan]
  simp only [tokenValues, ArgumentToken.value, hvariable, hbareword]
  rfl

theorem speed_zero : ∃ ms, milliseconds "0s" = .ok ms ∧ ¬ ms < 0.0 ∧
    checkedDelay ms "0s" = .ok 0 := by
  have hspeed : (match milliseconds "0s" with
      | .ok ms => !decide (ms < 0.0) && decide (checkedDelay ms "0s" = .ok 0)
      | .error _ => false) = true := by
    decide +kernel
  split at hspeed
  · rename_i ms heq
    rw [Bool.and_eq_true, Bool.not_eq_true', decide_eq_false_iff_not, decide_eq_true_eq] at hspeed
    exact ⟨ms, heq, hspeed⟩
  · cases hspeed

/-! ### Putting a text into the queue -/

/-- The engine with one more text in the queue. -/
def Engine.addText (e : Engine Empty σ) (listeners : List (Listener (ListenerAction Empty)))
    (h : ShadowHandler Empty) : Engine Empty σ :=
  { e with
    listeners := listeners
    handlers := e.handlers.push h
    nextTypeId := e.nextTypeId + 1
    typeQueue := some (e.texts ++ [⟨e.nextTypeId, ⟨e.handlers.size⟩⟩]) }

/-- The values that the handler of a text remembers are those that the variables have when it is
made. -/
theorem joinQueue_apply (context : Context Empty) (body : Nat → Callback Empty)
    {e : Engine Empty σ} (hplaying : e.isPlaying = false) :
    ∃ listeners store, Builtin.joinQueue context body e = (.ok e.texts.isEmpty,
        e.addText listeners ⟨context, store, none, some (body e.nextTypeId), none⟩) ∧
      ∀ name cell, Entries.find? name store = some cell → cell = e.state.get? name := by
  obtain ⟨listeners, hopen⟩ := Builtin.openQueue_apply e
  let names := context.calls.foldl
    (fun names call => Names.insertAll names (e.calls[call.id]?.getD {}).shadows) []
  let store : Overlay := Entries.ofPairs (names.map fun name => (name, e.state.get? name))
  have henqueue : Builtin.enqueue context body
      { e with listeners := listeners, typeQueue := some e.texts } =
      (.ok (), e.addText listeners ⟨context, store, none, some (body e.nextTypeId), none⟩) := rfl
  have hnot : ¬ e.isPlaying = true := by
    rw [hplaying]
    exact Bool.false_ne_true
  refine ⟨listeners, store, ?_, ?_⟩
  · rw [Builtin.joinQueue, Run.bind_of_ok hopen, Run.bind_of_ok henqueue]
    cases e.texts.isEmpty with
    | false => rfl
    | true =>
        change (if e.isPlaying = true then _ else (pure true : Run Empty σ Bool)) _ = _
        rw [if_neg hnot]
        rfl
  · intro name cell hcell
    rw [Entries.find?_ofPairs_map] at hcell
    split at hcell
    · exact (Option.some.inj hcell).symm
    · cases hcell

/-! ### An engine that holds the text -/

/-- The variable holds the text, and nothing keeps the text from being typed out. -/
structure Engine.Retyping (e : Engine Empty σ) : Prop where
  registry : e.registry = Registry.ofBuiltins .builtin
  debug : e.config.debug = false
  wish : e.loopBreak = none
  isPlaying : e.isPlaying = false
  value : e.state.get? "$x" = some (.string typeSource)

/-- The handler of the text, from which `$x` has the value it has elsewhere. -/
structure ShadowHandler.Retypes (h : ShadowHandler Empty) : Prop where
  start : h.start = none
  callback : ∃ call : TypeCall, h.callback = some (.typeBody call) ∧ call.speed = 0 ∧
    call.contents = printSource
  done : h.done = none
  store : ∀ cell, Entries.find? "$x" h.store = some cell → cell = some (.string typeSource)

/-- The text has been put at the end of the queue. -/
def Engine.Requeued (e e' : Engine Empty σ) : Prop :=
  ∃ calls tree listeners h, h.Retypes ∧
    e' = { e.addText listeners h with calls := calls, tree := tree }

theorem Engine.Retyping.descend {e : Engine Empty σ} (he : e.Retyping)
    (hdepth : e.renderDepth < e.config.maxRenderDepth) : (e.descend hdepth).Retyping :=
  ⟨he.registry, he.debug, he.wish, he.isPlaying, he.value⟩

/-- The call in which the text is printed or typed out. -/
theorem Engine.Retyping.enterCall {e : Engine Empty σ} (he : e.Retyping)
    {context : Context Empty} (hid : context.call.id = e.calls.size) :
    (e.enterCall context).Retyping ∧ context.call.IsPlain (e.enterCall context) :=
  ⟨⟨he.registry, he.debug, he.wish, he.isPlaying, he.value⟩,
    Engine.isPlain_enterCall he.debug hid⟩

/-! ### Printing the text -/

/-- The tag that prints the variable. -/
def printTag : Tag :=
  ⟨"print", "$x", "<<print $x>>", 0, 12⟩

/-- The entry of the macro that prints. -/
def printEntry : MacroEntry (Handler Empty) :=
  ⟨Builtin.print.definition (.builtin .print), 0, none⟩

theorem segmentsOf_printSource : segmentsOf printSource = [.tag printTag] := by
  decide +kernel

theorem Registry.get?_print :
    (Registry.ofBuiltins Handler.builtin).get? printTag.name = some printEntry := by
  rfl

theorem runPrint_apply (p : Perform Empty σ) {call : MacroCall Empty} {e : Engine Empty σ}
    (hraw : call.args.raw = "$x") (hname : call.name = "print") (hplain : call.IsPlain e)
    (hvalue : e.state.get? "$x" = some (.string typeSource)) :
    Builtin.runPrint p call e = p (.render call.output typeSource) e := by
  have htrim : trimText "$x" = "$x" := by decide +kernel
  have hempty : ¬ ("$x" : String).isEmpty = true := by decide +kernel
  have hresult : e.state.value "$x" = .string typeSource := by
    unfold State.value
    rw [hvalue]
    rfl
  have hnot : ¬ ((Value.string typeSource).isNull) = true := Bool.false_ne_true
  rw [Builtin.runPrint, Builtin.withExpression, hraw, htrim, if_neg hempty,
    Run.bind_of_ok (evaluate_x e), hresult]
  dsimp only
  rw [if_neg hnot, Run.bind_of_ok hplain.target_apply, hname]
  rfl

/-- Printing the variable puts the text into the queue, if the text does so. -/
theorem yields_print {n : Nat} {e : Engine Empty σ} (he : e.Retyping)
    (hdepth : e.renderDepth < e.config.maxRenderDepth)
    (htyped : ∀ e' : Engine Empty σ, e'.Retyping → e'.texts = e.texts →
      e'.config = e.config → e'.renderDepth = e.renderDepth + 1 →
      Yields (perform Host.idle n (.render out typeSource)) e' fun _ e'' =>
        e'.texts ≠ [] ∧ e'.Requeued e'') :
    Yields (perform Host.idle (n + 1) (.render out printSource)) e fun _ e' =>
      e.texts ≠ [] ∧ e.Requeued e' := by
  refine yields_render hdepth ?_
  rw [segmentsOf_printSource]
  refine yields_segments he.wish ?_
  let inner := e.descend hdepth
  have hentry : inner.registry.get? printTag.name = some printEntry := by
    change e.registry.get? printTag.name = some printEntry
    rw [he.registry]
    exact Registry.get?_print
  have hargs : callArguments printEntry.definition printTag.args inner =
      (.ok (.ok (.unparsed "$x")), inner) := rfl
  refine yields_void hentry rfl rfl (yields_callMacro hargs rfl rfl fun context hcontext => ?_)
  have hid : context.call.id = inner.calls.size := by
    rw [hcontext]
    rfl
  obtain ⟨hcall, hplain⟩ := (he.descend hdepth).enterCall hid
  have hraw : context.call.args.raw = "$x" := by
    rw [hcontext]
    rfl
  have hname : context.call.name = "print" := by
    rw [hcontext]
    rfl
  have hout : context.call.output = out := by
    rw [hcontext]
    rfl
  have hrun := runPrint_apply (perform Host.idle n) hraw hname hplain he.value
  rw [hout] at hrun
  refine Yields.congr ((htyped _ hcall rfl rfl rfl).mono ?_) hrun
  rintro - e' ⟨htexts, calls, tree, listeners, h, hh, rfl⟩
  exact ⟨htexts, calls, tree, listeners, h, hh, rfl⟩

/-! ### Typing the text -/

/-- The tag that opens the text to be typed out. -/
def typeTag : Tag :=
  ⟨"type", "0s", "<<type 0s>>", 0, 11⟩

/-- The entry of the macro that types out. -/
def typeEntry : MacroEntry (Handler Empty) :=
  ⟨Builtin.type.definition (.builtin .type), 11, none⟩

/-- What follows the opening tag. -/
def typeFollowing : List Segment :=
  [.tag ⟨"print", "$x", "<<print $x>>", 11, 23⟩, .tag ⟨"/type", "", "<</type>>", 23, 32⟩]

theorem segmentsOf_typeSource : segmentsOf typeSource = .tag typeTag :: typeFollowing := by
  decide +kernel

theorem bodyFrom_typeFollowing :
    bodyFrom typeTag.name typeEntry.definition.childTags 0 (.ofTag typeTag) 0 typeFollowing =
      .ok ⟨[⟨"type", "0s", printSource, "<<type 0s>>"⟩], 2, 32⟩ := by
  decide +kernel

theorem Registry.get?_type :
    (Registry.ofBuiltins Handler.builtin).get? typeTag.name = some typeEntry := by
  rfl

/-- Typing the text out puts it into the queue, and starts the queue if that was empty. -/
theorem yields_runType {p : Perform Empty σ} {context : Context Empty} {e : Engine Empty σ}
    (he : e.Retyping) (hvalues : context.call.args.values = [.string "0s"])
    (hcontents : context.call.contents = printSource) (hplain : context.call.IsPlain e)
    (hstart : e.texts = [] → ∀ e', e.Requeued e' →
      Yields (p .startTyping) e' fun _ _ => e.texts ≠ []) :
    Yields (Builtin.runType p context) e fun _ e' => e.texts ≠ [] ∧ e.Requeued e' := by
  obtain ⟨ms, hms, hnot, hdelay⟩ := speed_zero
  have hblank : ¬ isBlankText printSource = true := by decide +kernel
  have hnames : context.call.args.values.map Value.display = ["0s"] := by
    rw [hvalues]
    rfl
  have htype : Builtin.runType p context e =
      Builtin.queueText p context 0 { skipKey := e.config.typeSkipKey } e := by
    rw [Builtin.runType, hnames]
    dsimp only
    rw [hms]
    dsimp only
    rw [if_neg hnot, hdelay]
    dsimp only
    rw [Run.get_bind_apply, Builtin.typeOptions]
    dsimp only
    rw [hcontents, if_neg hblank]
  refine Yields.congr ?_ htype
  refine .next (hplain.showModes_apply ["block"]) ?_
  refine .next hplain.target_apply ?_
  refine .next (Run.withTree_apply _ e) ?_
  refine .next (x := Run.changeTree _) rfl ?_
  let call := context.call
  let className := "macro-" ++ call.name
  let options : TypeOptions := { skipKey := e.config.typeSkipKey }
  let made := e.tree.appendElement call.output options.tag
  let shown : Engine Empty σ :=
    { e with tree := made.2.addClass made.1 (className ++ " " ++ className ++ "-target") }
  let body (id : Nat) : Callback Empty :=
    .typeBody ⟨id, 0, options, className, call.contents, call.output, made.1⟩
  obtain ⟨listeners, store, hjoin, hstore⟩ := joinQueue_apply (e := shown) context body he.isPlaying
  refine .next hjoin ?_
  let h : ShadowHandler Empty := ⟨context, store, none, some (body e.nextTypeId), none⟩
  have hretypes : h.Retypes :=
    ⟨rfl, ⟨_, rfl, rfl, hcontents⟩, rfl, fun cell hcell => (hstore "$x" cell hcell).trans he.value⟩
  have hqueued : e.Requeued (shown.addText listeners h) :=
    ⟨e.calls, shown.tree, listeners, h, hretypes, rfl⟩
  by_cases htexts : e.texts = []
  · have hempty : e.texts.isEmpty = true := by
      rw [htexts]
      rfl
    change Yields (if e.texts.isEmpty = true then p .startTyping else pure ()) _ _
    rw [if_pos hempty]
    exact (hstart htexts _ hqueued).mono fun _ _ h => (h htexts).elim
  · have hempty : ¬ e.texts.isEmpty = true := fun h => htexts (List.isEmpty_iff.mp h)
    change Yields (if e.texts.isEmpty = true then p .startTyping else pure ()) _ _
    rw [if_neg hempty]
    exact .of_ok rfl ⟨htexts, hqueued⟩

/-- Rendering the text puts it into the queue, and starts the queue if that was empty. -/
theorem yields_type {n : Nat} {e : Engine Empty σ} (he : e.Retyping)
    (hdepth : e.renderDepth < e.config.maxRenderDepth)
    (hstart : e.texts = [] → ∀ inner e' : Engine Empty σ, inner.Retyping →
      inner.texts = e.texts → inner.config = e.config → inner.renderDepth = e.renderDepth + 1 →
      inner.Requeued e' → Yields (perform Host.idle n .startTyping) e' fun _ _ => inner.texts ≠ []) :
    Yields (perform Host.idle (n + 1) (.render out typeSource)) e fun _ e' =>
      e.texts ≠ [] ∧ e.Requeued e' := by
  refine yields_render hdepth ?_
  rw [segmentsOf_typeSource]
  refine yields_segments he.wish ?_
  let inner := e.descend hdepth
  have hentry : inner.registry.get? typeTag.name = some typeEntry := by
    change e.registry.get? typeTag.name = some typeEntry
    rw [he.registry]
    exact Registry.get?_type
  let args : ArgumentList := ⟨[.string "0s"], "0s"⟩
  have hargs : callArguments typeEntry.definition "0s" inner = (.ok (.ok args), inner) :=
    readArguments_speed inner
  have hpayload : payloadClauses typeEntry.definition
      [⟨"type", "0s", printSource, "<<type 0s>>"⟩] inner =
      (.ok (.ok [⟨"type", args, printSource, "<<type 0s>>"⟩]), inner) := by
    rw [payloadClauses, Run.bind_of_ok hargs]
    rfl
  refine yields_container hentry rfl rfl bodyFrom_typeFollowing rfl
    (yields_callMacro hargs hpayload rfl fun context hcontext => ?_)
  have hid : context.call.id = inner.calls.size := by
    rw [hcontext]
    rfl
  obtain ⟨hcall, hplain⟩ := (he.descend hdepth).enterCall hid
  have hvalues : context.call.args.values = [.string "0s"] := by
    rw [hcontext]
    rfl
  have hcontents : context.call.contents = printSource := by
    rw [hcontext]
    rfl
  refine (yields_runType hcall hvalues hcontents hplain ?_).mono ?_
  · exact fun htexts e' hqueued => hstart htexts _ e' hcall rfl rfl rfl hqueued
  · rintro - e' ⟨htexts, calls, tree, listeners, h, hh, rfl⟩
    exact ⟨htexts, calls, tree, listeners, h, hh, rfl⟩

/-! ### The queue that is never done -/

/-- The text is alone in the queue, and there is room for the renders that it takes. -/
structure Engine.Retypes (e : Engine Empty σ) : Prop where
  retyping : e.Retyping
  room : e.renderDepth + 2 ≤ e.config.maxRenderDepth
  alone : ∃ job h, e.texts = [job] ∧ e.handlers[job.handler.index]? = some h ∧ h.Retypes

theorem Engine.Retyping.enterShadow {e : Engine Empty σ} (he : e.Retyping)
    {h : ShadowHandler Empty} (hh : h.Retypes) : (e.enterShadow h).Retyping := by
  refine ⟨he.registry, he.debug, he.wish, he.isPlaying, ?_⟩
  have houter := he.value
  unfold State.get? at houter ⊢
  have hoverlays : (e.enterShadow h).state.overlays = h.store :: e.state.overlays := rfl
  rw [hoverlays, State.cell?]
  cases hcell : Entries.find? "$x" h.store with
  | some cell => exact hh.store cell hcell
  | none => exact houter

/-- The text that leaves the queue comes back to it while it is rendered. -/
theorem yields_wrapText {n : Nat} {e : Engine Empty σ} (he : e.Retyping)
    (hroom : e.renderDepth + 2 ≤ e.config.maxRenderDepth) (htexts : e.texts ≠ [])
    {call : TypeCall} (hcontents : call.contents = printSource) :
    Yields (Builtin.wrapText (perform Host.idle n) call) e fun _ e' => e.Requeued e' := by
  obtain ⟨out, tree, -, -, hwrap⟩ := wrapText_apply (.ofRegistry he.registry) call
  rw [hcontents] at hwrap
  refine .congr (.bind (Q := fun _ e' => e.Requeued e') ?_ fun _ _ h => .of_ok rfl h)
    (hwrap (perform Host.idle n))
  cases n with
  | zero => exact .of_halt rfl
  | succ n =>
      have hwrapped : Engine.Retyping { e with tree := tree } :=
        ⟨he.registry, he.debug, he.wish, he.isPlaying, he.value⟩
      have hdepth : e.renderDepth < e.config.maxRenderDepth := by omega
      refine (yields_print hwrapped hdepth ?_).mono ?_
      · intro e' he' htexts' hconfig hdepth'
        cases n with
        | zero => exact .of_halt rfl
        | succ n =>
            have hinner : e'.renderDepth < e'.config.maxRenderDepth := by
              rw [hconfig, hdepth']
              exact hroom
            exact yields_type he' hinner fun hnone => (htexts (htexts'.symm.trans hnone)).elim
      · rintro - e' ⟨-, calls, tree, listeners, h, hh, rfl⟩
        exact ⟨calls, tree, listeners, h, hh, rfl⟩

/-- The queue never runs dry. -/
theorem yields_startTyping (n : Nat) {e : Engine Empty σ} (he : e.Retypes) :
    Yields (perform Host.idle n .startTyping) e fun _ _ => False := by
  induction n using Nat.strongRecOn generalizing e with
  | _ n ih =>
      obtain ⟨hretyping, hroom, job, h, htexts, hh, hhandler⟩ := he
      obtain ⟨call, hcallback, hspeed, hcontents⟩ := hhandler.callback
      match n, ih with
      | 0, _ => exact .of_halt rfl
      | 1, _ =>
          have hfirst : Builtin.firstText e = (.ok (some job.handler), e) := by
            rw [Builtin.firstText_apply, htexts]
            rfl
          exact .next hfirst (.of_halt rfl)
      | n + 2, ih =>
          let inner := e.enterShadow h
          have hinner : inner.Retyping := hretyping.enterShadow hhandler
          have hsome : inner.texts ≠ [] := by
            change e.texts ≠ []
            rw [htexts]
            exact List.cons_ne_nil job []
          refine .congr (.andFinally (Q := fun _ _ => False) ?_ fun _ _ h => h)
            (startTyping_apply htexts hh hhandler.start hcallback hhandler.done n)
          unfold Builtin.runTypeBody
          refine (yields_wrapText hinner hroom hsome hcontents).bind fun wrapper e₁ hqueued => ?_
          obtain ⟨calls, tree, listeners, h₁, hh₁, rfl⟩ := hqueued
          refine .next (x := Run.moment) rfl ?_
          refine .next (x := Builtin.isShownAtOnce call wrapper) rfl ?_
          refine .next (Run.withTree_apply _ _) ?_
          have hatOnce (b : Bool) : (decide (call.speed = 0) || b) = true := by
            rw [hspeed]
            rfl
          rw [Bool.or_assoc, if_pos (hatOnce _)]
          -- the text that has come meanwhile is the only one left
          let left : Engine Empty σ := { inner.addText listeners h₁ with
            calls := calls
            tree := (tree.replaceElement call.parent call.target (.element wrapper)).2
            typeQueue := some [⟨e.nextTypeId, ⟨e.handlers.size⟩⟩] }
          have hdequeue : Builtin.dequeue { inner.addText listeners h₁ with
              calls := calls
              tree := (tree.replaceElement call.parent call.target (.element wrapper)).2 } =
              (.ok true, left) := by
            refine (@dequeue_apply σ _ job [⟨e.nextTypeId, ⟨e.handlers.size⟩⟩] ?_).trans rfl
            change some (e.texts ++ _) = _
            rw [htexts]
            rfl
          refine .next hdequeue ?_
          refine ih n (by omega) ⟨?_, hroom, _, h₁, rfl, Array.getElem?_push_size, hh₁⟩
          exact ⟨hinner.registry, hinner.debug, hinner.wish, hinner.isPlaying, hinner.value⟩

/-- A text that has come to an empty queue comes back again and again. -/
theorem Engine.Requeued.retypes {e e' : Engine Empty σ} (h : e.Requeued e')
    (he : e.Retyping) (htexts : e.texts = [])
    (hroom : e.renderDepth + 2 ≤ e.config.maxRenderDepth) : e'.Retypes := by
  obtain ⟨calls, tree, listeners, h, hh, rfl⟩ := h
  refine ⟨?_, hroom, ⟨e.nextTypeId, ⟨e.handlers.size⟩⟩, h, ?_, Array.getElem?_push_size, hh⟩
  · exact ⟨he.registry, he.debug, he.wish, he.isPlaying, he.value⟩
  · change e.texts ++ _ = _
    rw [htexts]
    rfl

/-- A render of what prints the text does not return. -/
theorem yields_retyping {n : Nat} {e : Engine Empty σ} (he : e.Retyping) (htexts : e.texts = [])
    (hroom : e.renderDepth + 4 ≤ e.config.maxRenderDepth) :
    Yields (perform Host.idle n (.render out printSource)) e fun _ _ => False := by
  cases n with
  | zero => exact .of_halt rfl
  | succ n =>
      have hdepth : e.renderDepth < e.config.maxRenderDepth := by omega
      refine (yields_print he hdepth ?_).mono fun _ _ h => h.1 htexts
      intro e₁ he₁ htexts₁ hconfig₁ hdepth₁
      cases n with
      | zero => exact .of_halt rfl
      | succ n =>
          have hinner : e₁.renderDepth < e₁.config.maxRenderDepth := by
            rw [hconfig₁, hdepth₁]
            omega
          refine yields_type he₁ hinner fun hnone e₂ e' he₂ htexts₂ hconfig₂ hdepth₂ h => ?_
          have hroom₂ : e₂.renderDepth + 2 ≤ e₂.config.maxRenderDepth := by
            rw [hconfig₂, hdepth₂, hconfig₁, hdepth₁]
            omega
          have hretypes := h.retypes he₂ (htexts₂.trans hnone) hroom₂
          exact (yields_startTyping n hretypes).mono fun _ _ h => h.elim

end StoryEngine
