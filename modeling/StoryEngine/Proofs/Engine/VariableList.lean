import StoryEngine.Proofs.Engine.Break
import StoryEngine.Proofs.Engine.Sure
import StoryEngine.Proofs.Text.Search
import StoryEngine.Proofs.Variables.Cells
/-!
# StoryEngine.Proofs.Engine.VariableList

The macros that take a list of variables, `<<unset>>` and `<<capture>>`. Their arguments may be any
text: the list is what a search for variables finds in it, so no name on it is refused. `<<unset>>`
takes the value from each variable on the list and from no other (`runUnset_apply`). `<<capture>>`
shadows just these, and renders its contents with cells for them in front that hold what the variables
hold (`runCapture_apply`). Together: `variable_lists_read`.
-/

namespace StoryEngine

variable {σ : Type}

/-! ### Unsetting -/

/-- A variable that is unset has no value. -/
theorem State.get?_of_unset {s t : State} {name : String} {had : Bool}
    (h : s.unset name = .ok (had, t)) : t.get? name = none := by
  unfold State.unset at h
  split at h
  · cases h
  · cases hcell : State.cell? name s.overlays with
    | some cell =>
        rw [hcell] at h
        cases h
        rw [State.get?, State.cell?_putCell_self none (by rw [hcell]; rfl)]
    | none =>
        rw [hcell] at h
        cases h
        unfold State.get? State.modifyStore State.stored?
        by_cases hstory : State.isStoryVariable name = true <;> simp [hstory, hcell]

namespace Builtin

/-- Unsetting variables takes their values, and leaves all others. -/
theorem unsetAll_apply (names : List String) (hnames : ∀ name ∈ names, isVariable name = true)
    (e : Engine Empty σ) :
    ∃ s, unsetAll names e = (.ok (), { e with state := s }) ∧ e.state.Reassigned s ∧
      ∀ name, s.get? name = if name ∈ names then none else e.state.get? name := by
  induction names generalizing e with
  | nil => exact ⟨e.state, rfl, .refl _, fun name => rfl⟩
  | cons first rest ih =>
      obtain ⟨had, s₁, hfirst⟩ := State.exists_unset (s := e.state) (hnames first List.mem_cons_self)
      have hstep : Run.changingState (fun s => (s.unset first).map (·.2)) e =
          (.ok (), { e with state := s₁ }) := by
        rw [Run.changingState, Run.get_bind_apply, hfirst]
        rfl
      obtain ⟨s, hrest, hreassigned, hvalues⟩ :=
        ih (fun name hname => hnames name (List.mem_cons_of_mem first hname)) { e with state := s₁ }
      refine ⟨s, ?_, (State.reassigned_of_unset hfirst).trans hreassigned, fun name => ?_⟩
      · rw [unsetAll, Run.bind_of_ok hstep, hrest]
      · rw [hvalues]
        by_cases hmem : name ∈ rest
        · simp [hmem]
        · by_cases heq : name = first
          · subst heq
            simp [hmem, State.get?_of_unset hfirst]
          · simp [hmem, heq, State.get?_of_unset_of_ne hfirst heq]

/-- A call of `<<unset>>` never fails. -/
theorem runUnset_apply (call : MacroCall Empty) (e : Engine Empty σ) :
    ∃ e', runUnset call e = (.ok (), e') ∧ e.state.Reassigned e'.state ∧
      ∀ name, e'.state.get? name =
        if name ∈ variablesIn call.args.raw then none else e.state.get? name := by
  rw [← variablesIn_trimText call.args.raw, runUnset]
  by_cases hempty : (trimText call.args.raw).isEmpty = true
  · have hnone : variablesIn (trimText call.args.raw) = [] := by
      rw [String.isEmpty_iff.mp hempty]
      decide +kernel
    simp only [hempty, if_true, hnone]
    exact ⟨_, rfl, .refl _, fun name => rfl⟩
  · obtain ⟨s, hunset, hreassigned, hvalues⟩ :=
      unsetAll_apply (variablesIn (trimText call.args.raw))
        (fun _ hname => isVariable_of_mem_variablesIn hname) e
    obtain ⟨e', hshow, calls, tree, rfl⟩ := call.showModes_apply { e with state := s } ["hidden"]
    refine ⟨{ e with state := s, calls := calls, tree := tree }, ?_, hreassigned, hvalues⟩
    rw [if_neg hempty]
    exact (Run.bind_of_ok hunset).trans hshow

end Builtin

/-! ### Capturing -/

/-- Names that are all variables are shadowed by the call, and nothing else changes. -/
theorem MacroCall.addShadows_apply (call : MacroCall Empty) (names : List String)
    (hnames : ∀ name ∈ names, isVariable name = true) (e : Engine Empty σ) :
    ∃ calls, call.addShadows names e = (.ok (), { e with calls := calls }) ∧
      ∀ id, calls[id]? = if call.id = id then
        e.calls[id]?.map fun s => { s with shadows := Names.insertAll s.shadows names }
      else e.calls[id]? := by
  induction names generalizing e with
  | nil => exact ⟨e.calls, rfl, fun id => by simp [Names.insertAll]⟩
  | cons first rest ih =>
      obtain ⟨calls, hrest, hcalls⟩ :=
        ih (fun name hname => hnames name (List.mem_cons_of_mem first hname))
          { e with calls := e.calls.modify call.id fun s =>
              { s with shadows := Names.insert first s.shadows } }
      refine ⟨calls, ?_, fun id => ?_⟩
      · rw [addShadows, if_pos (hnames first List.mem_cons_self)]
        exact hrest
      · rw [hcalls, Array.getElem?_modify]
        by_cases hid : call.id = id
        · simp only [hid, if_true, Option.map_map]
          rfl
        · simp only [hid, if_false]

/-- A call of `<<capture>>` without a list complains. Any other one shadows the variables on its
list, besides those that the call shadows already, and renders its contents behind cells for all of
them. -/
theorem Builtin.runCapture_apply (p : Perform Empty σ) (call : MacroCall Empty)
    {e : Engine Empty σ} {st : CallState} (hst : e.calls[call.id]? = some st) :
    (trimText call.args.raw = "" ∧ runCapture p call e = call.error noVariables e) ∨
    ∃ calls names overlay,
      runCapture p call e = underOverlay overlay (do p (.render (← call.target) call.contents))
        { e with calls := calls } ∧
      calls[call.id]? = some { st with shadows := names } ∧
      (∀ name, name ∈ names ↔ name ∈ st.shadows ∨ name ∈ variablesIn call.args.raw) ∧
      ∀ name, Entries.find? name overlay =
        if name ∈ names then some (e.state.get? name) else none := by
  rw [← variablesIn_trimText call.args.raw, runCapture]
  by_cases hempty : (trimText call.args.raw).isEmpty = true
  · simp only [hempty, if_true]
    exact .inl ⟨String.isEmpty_iff.mp hempty, trivial⟩
  · obtain ⟨calls, hadd, hcalls⟩ := call.addShadows_apply
      (variablesIn (trimText call.args.raw))
      (fun _ hname => isVariable_of_mem_variablesIn hname) e
    have hcall := hcalls call.id
    rw [if_pos rfl, hst] at hcall
    let names := Names.insertAll st.shadows (variablesIn (trimText call.args.raw))
    have hshadows : call.shadows { e with calls := calls } = (.ok names, { e with calls := calls }) := by
      change (Except.ok (calls[call.id]?.getD {}).shadows, _) = _
      rw [hcall]
      rfl
    refine .inr ⟨calls, names, Entries.ofPairs (names.map fun name => (name, e.state.get? name)),
      ?_, hcall, fun name => Names.mem_insertAll, Entries.find?_ofPairs_map _ names⟩
    rw [if_neg hempty, Run.bind_of_ok hadd, Run.bind_of_ok hshadows]
    rfl

/-- A call of `<<capture>>` never fails. -/
theorem Builtin.sure_runCapture (n : Nat) (call : MacroCall Empty) :
    Sure (runCapture (perform (Host.idle (σ := σ)) n) call) := by
  have hadd : Sure (call.addShadows (variablesIn (trimText call.args.raw)) : Run Empty σ Unit) :=
    .ofOk fun e =>
      let ⟨_, h, _⟩ :=
        call.addShadows_apply _ (fun _ hname => isVariable_of_mem_variablesIn hname) e
      ⟨_, _, h⟩
  have htarget : Sure (call.target : Run Empty σ OutputId) := .ofOk fun e =>
    let ⟨_, _, h, _⟩ := call.target_apply e
    ⟨_, _, h⟩
  unfold runCapture
  dsimp only
  split
  · exact .changeTree _
  · have hshadows : Sure (call.shadows : Run Empty σ (List String)) :=
      .bind (.bind .get fun _ => .pure _) fun _ => .pure _
    refine .bind hadd fun _ => .bind hshadows fun names => ?_
    refine .bind (.bind .get fun _ => .pure _) fun overlay => ?_
    refine .bind .get fun _ => .bind (.modify _) fun _ => .andFinally ?_ _
    exact .bind htarget fun out => sure_perform_render _ n out _

/-! ### Lists of variables -/

/-- The variables in a text are what a search for variables finds, and a text is a variable exactly if
it is the only one in itself. So no list of variables is refused: `<<unset>>` never fails and takes the
values of the variables on its list and of no others, and `<<capture>>` never fails and shadows the
variables on its list and no others, with the values that they have. -/
theorem variable_lists_read :
    (∀ (text : String) (found : List String), variablesIn text = found ↔
      Finds IsVariableText text.toList (found.map String.toList)) ∧
    (∀ text : String, isVariable text = true ↔ variablesIn text = [text]) ∧
    (∀ (call : MacroCall Empty) (e : Engine Empty σ), ∃ e', Builtin.runUnset call e = (.ok (), e') ∧
      e.state.Reassigned e'.state ∧ ∀ name, e'.state.get? name =
        if name ∈ variablesIn call.args.raw then none else e.state.get? name) ∧
    (∀ (n : Nat) (call : MacroCall Empty) (e e' : Engine Empty σ) (f : Failure),
      Builtin.runCapture (perform Host.idle n) call e ≠ (.error (.failure f), e')) ∧
    ∀ (p : Perform Empty σ) (call : MacroCall Empty) (e : Engine Empty σ) (st : CallState),
      e.calls[call.id]? = some st →
        (trimText call.args.raw = "" ∧
          Builtin.runCapture p call e = call.error Builtin.noVariables e) ∨
        ∃ calls names overlay,
          Builtin.runCapture p call e =
            underOverlay overlay (do p (.render (← call.target) call.contents))
              { e with calls := calls } ∧
          calls[call.id]? = some { st with shadows := names } ∧
          (∀ name, name ∈ names ↔ name ∈ st.shadows ∨ name ∈ variablesIn call.args.raw) ∧
          ∀ name, Entries.find? name overlay =
            if name ∈ names then some (e.state.get? name) else none :=
  ⟨fun _ _ => variablesIn_eq_iff, fun _ => isVariable_iff_variablesIn, Builtin.runUnset_apply,
    fun n call e e' f => Builtin.sure_runCapture n call e f e',
    fun p call _ _ hst => Builtin.runCapture_apply p call hst⟩

/-- `<<capture a$x, $1_y$, $>>` shadows `$x` and `_y$`. -/
theorem variable_lists_read_capture :
    let e : Engine Empty Unit := { Engine.ofConfig {} () with calls := #[{}] }
    let call : MacroCall Empty := ⟨0, Builtin.capture.definition (.builtin .capture), "capture",
      "capture", .unparsed "a$x, $1_y$, $", [⟨"capture", .unparsed "", "", ""⟩], "", ⟨0⟩⟩
    e.calls[call.id]? = some {} ∧ ∃ calls names overlay,
      Builtin.runCapture (perform Host.idle 1) call e =
        underOverlay overlay (do perform Host.idle 1 (.render (← call.target) call.contents))
          { e with calls := calls } ∧
      calls[call.id]? = some { shadows := names } ∧
      (∀ name, name ∈ names ↔ name = "$x" ∨ name = "_y$") ∧
      Entries.find? "_y$" overlay = some none := by
  intro e call
  have hst : e.calls[call.id]? = some {} := rfl
  have hlist : variablesIn call.args.raw = ["$x", "_y$"] := by decide +kernel
  have hblank : trimText call.args.raw ≠ "" := by decide +kernel
  refine ⟨hst, ?_⟩
  obtain ⟨hempty, -⟩ | ⟨calls, names, overlay, hrun, hcalls, hnames, hoverlay⟩ :=
    variable_lists_read.2.2.2.2 (perform Host.idle 1) call e {} hst
  · exact (hblank hempty).elim
  · have hmem (name : String) : name ∈ names ↔ name = "$x" ∨ name = "_y$" := by
      rw [hnames, hlist]
      simp
    refine ⟨calls, names, overlay, hrun, hcalls, hmem, ?_⟩
    rw [hoverlay, if_pos ((hmem _).mpr (.inr rfl))]
    rfl

end StoryEngine
