import StoryEngine.Play
import StoryEngine.Proofs.Engine.Shadow
import StoryEngine.Proofs.Variables.Cells
/-!
# StoryEngine.Proofs.Engine.Closures

Deferred handlers are closures. A closure has cells of its own for the variables that its context
shadows, filled when it is made with the values these have then. Its callback works on the cells,
and on the variables of the story for all other names; what it does before and after works on the
variables of the story alone (`Closure.invoke`). An engine whose handlers run scripts of a host goes
on exactly as such closures do, whatever is made, set, unset and invoked in whatever order
(`handlers_are_closures`).

The engine has no cells. It puts an overlay in front of the variables while a callback runs and
takes it back when that ends or fails.
-/

namespace StoryEngine

variable {η σ : Type}

/-! ### Scripts of a host -/

/-- Run a script on the variables of the engine. -/
def Script.asRun (script : Script) : Run η σ Unit := fun e =>
  ((script.run e.state).1.mapError .failure, { e with state := (script.run e.state).2 })

/-- As parts of handlers, the procedures of the host are scripts. -/
def Host.RunsScripts (host : Host η σ) (scripts : η → HandlerArg → Script) : Prop :=
  ∀ (p : Perform η σ) (procedure : η) (arg : HandlerArg),
    host p procedure (.part arg) = (scripts procedure arg).asRun

/-! ### Closures -/

/-- A procedure's cells and parts. -/
structure Closure (η : Type) where
  cells : Cells
  start : Option η
  callback : Option η
  done : Option η

/-- The script of a part, which does nothing if there is none. -/
def partScript (scripts : η → HandlerArg → Script) (arg : HandlerArg) : Option η → Script
  | some procedure => scripts procedure arg
  | none => .finish (.ok ())

/-- Invoke a closure. A part that fails is the last; what the callback left in the cells stays. -/
def Closure.invoke (scripts : η → HandlerArg → Script) (arg : HandlerArg) (c : Closure η)
    (live : State) : Except Failure Unit × Closure η × State :=
  match (partScript scripts arg c.start).run live with
  | (.error f, live) => (.error f, c, live)
  | (.ok (), live) =>
    match (partScript scripts arg c.callback).runWith c.cells live with
    | (.error f, cells, live) => (.error f, { c with cells := cells }, live)
    | (.ok (), cells, live) =>
      match (partScript scripts arg c.done).run live with
      | (outcome, live) => (outcome, { c with cells := cells }, live)

/-- The variables of the story and closures. -/
structure Closures (η : Type) where
  live : State
  closures : Array (Closure η)

/-- What a program that embeds an engine does to its variables and handlers. -/
inductive HandlerAct (η : Type) where
  /-- Make a handler in a context. -/
  | make (context : Context η) (start callback done : Option η)
  | set (name : String) (value : Value)
  | unset (name : String)
  | invoke (handler : HandlerId) (arg : HandlerArg)

/-- The names that a call or one of those around it shadows. -/
def Shadows (calls : Array CallState) (context : Context η) (name : String) : Prop :=
  ∃ call ∈ context.calls, name ∈ (calls[call.id]?.getD {}).shadows

instance (calls : Array CallState) (context : Context η) (name : String) :
    Decidable (Shadows calls context name) :=
  inferInstanceAs (Decidable (∃ call ∈ context.calls, name ∈ (calls[call.id]?.getD {}).shadows))

/-- The cells that a closure made in the context has at first: one for each name that is shadowed,
with the value of the variable, or empty if there is no such variable. -/
def Cells.capture (calls : Array CallState) (context : Context η) (live : State) : Cells :=
  fun name => if Shadows calls context name then some (live.get? name) else none

namespace Closures

/-- Do an act with closures. -/
def act (scripts : η → HandlerArg → Script) (calls : Array CallState)
    (m : Closures η) : HandlerAct η → Except Failure Unit × Closures η
  | .make context start callback done =>
    let cells := if callback.isSome then Cells.capture calls context m.live else fun _ => none
    (.ok (), { m with closures := m.closures.push ⟨cells, start, callback, done⟩ })
  | .set name value =>
    match m.live.set name value with
    | .ok live => (.ok (), { m with live := live })
    | .error e => (.error (.context (.invalidVariable e)), m)
  | .unset name =>
    match m.live.unset name with
    | .ok (_, live) => (.ok (), { m with live := live })
    | .error e => (.error (.context (.invalidVariable e)), m)
  | .invoke handler arg =>
    match m.closures[handler.index]? with
    | none => (.ok (), m)
    | some c =>
      match c.invoke scripts arg m.live with
      | (outcome, c, live) => (outcome, ⟨live, m.closures.modify handler.index fun _ => c⟩)

/-- Do acts with closures, one after another. A failure does not keep the others from being done. -/
def acts (scripts : η → HandlerArg → Script) (calls : Array CallState) :
    List (HandlerAct η) → Closures η → List (Except Failure Unit) × Closures η
  | [], m => ([], m)
  | a :: rest, m =>
    match m.act scripts calls a with
    | (outcome, m) =>
      match acts scripts calls rest m with
      | (outcomes, m) => (outcome :: outcomes, m)

end Closures

/-! ### Handlers as closures -/

/-- The procedure of the host that the part of a handler runs. -/
def Callback.procedure? : Callback η → Option η
  | .host procedure => some procedure
  | _ => none

/-- What a handler is as a closure. -/
def ShadowHandler.closure (h : ShadowHandler η) : Closure η where
  cells := h.store.cells
  start := h.start.bind Callback.procedure?
  callback := h.callback.bind Callback.procedure?
  done := h.done.bind Callback.procedure?

/-- The variables of an engine, and its handlers as closures. -/
def Engine.closures (e : Engine η σ) : Closures η :=
  ⟨e.state, e.handlers.map ShadowHandler.closure⟩

/-- All parts of the handler run procedures of the host. -/
structure ShadowHandler.IsScripted (h : ShadowHandler η) : Prop where
  start : ∀ c, h.start = some c → ∃ procedure, c = .host procedure
  callback : ∀ c, h.callback = some c → ∃ procedure, c = .host procedure
  done : ∀ c, h.done = some c → ∃ procedure, c = .host procedure

/-- Do an act with an engine. -/
def HandlerAct.run (p : Perform η σ) : HandlerAct η → Run η σ Unit
  | .make context start callback done => do
    let _ ← ShadowHandler.make context (start.map .host) (callback.map .host) (done.map .host)
  | .set name value => Run.changingState fun s => s.set name value
  | .unset name => Run.changingState fun s => (s.unset name).map Prod.snd
  | .invoke handler arg => p (.invoke handler arg)

/-- Do acts with an engine, one after another. A failure does not keep the others from being
done. -/
def HandlerAct.runAll (p : Perform η σ) : List (HandlerAct η) → Run η σ (List (Except Failure Unit))
  | [] => pure []
  | a :: rest => do
    let outcome ← Run.attempt (a.run p)
    let outcomes ← runAll p rest
    return outcome :: outcomes

theorem runPart?_apply {host : Host η σ} {scripts : η → HandlerArg → Script}
    (hhost : host.RunsScripts scripts) (p : Perform η σ) (arg : HandlerArg)
    {part : Option (Callback η)} (hpart : ∀ c, part = some c → ∃ procedure, c = .host procedure) :
    runPart? (runCallback host p) arg part =
      ((partScript scripts arg (part.bind Callback.procedure?)).asRun : Run η σ Unit) := by
  cases part with
  | none => rfl
  | some c =>
    obtain ⟨procedure, rfl⟩ := hpart c rfl
    exact hhost p procedure arg

theorem returned_mapError (outcome : Except Failure Unit) :
    Returned (outcome.mapError Halt.failure) := by
  cases outcome with
  | ok a => exact returned_ok a
  | error f => exact returned_failure f

theorem Run.attempt_of_mapError {x : Run η σ Unit} {e e' : Engine η σ}
    {outcome : Except Failure Unit} (h : x e = (outcome.mapError .failure, e')) :
    Run.attempt x e = (.ok outcome, e') := by
  cases outcome with
  | ok a => exact Run.attempt_of_ok h
  | error f => exact Run.attempt_of_failure h

/-- The callback of a handler, run on the values that the handler remembers, works on these as its
cells. -/
theorem runShadowed_script {e : Engine η σ} {id : HandlerId} {h : ShadowHandler η}
    (hh : e.handlers[id.index]? = some h) (script : Script) :
    ∃ store : Overlay, store.cells = (script.runWith h.store.cells e.state).2.1 ∧
      runShadowed id script.asRun e =
        ((script.runWith h.store.cells e.state).1.mapError .failure,
          { e with
            state := (script.runWith h.store.cells e.state).2.2
            handlers := e.handlers.modify id.index fun h => { h with store := store } }) := by
  obtain ⟨store, hstore, hrun⟩ := script.run_push e.state h.store
  have hapart := script.apart_runWith h.store.cells e.state
  rcases hwith : script.runWith h.store.cells e.state with ⟨outcome, cells, live⟩
  rw [hwith] at hstore hrun hapart
  refine ⟨store, hstore, ?_⟩
  let inner : Engine η σ := { e.enterShadow h with state := live.push store }
  have hinner : (script.asRun : Run η σ Unit) (e.enterShadow h)
      = (outcome.mapError .failure, inner) := by
    have hstate : (e.enterShadow h).state = e.state.push h.store := rfl
    rw [Script.asRun, hstate, hrun]
  have hdepth : e.state.overlays.length = live.overlays.length := by
    rw [← State.length_shape, ← State.length_shape, hapart.reassigned.shape]
  have hleave := Engine.leaveShadow_of_cons (e := inner) rfl hdepth id e.current
  rw [runShadowed_apply, hh]
  dsimp only
  rw [Run.andFinally_of_returned _ hinner (returned_mapError outcome), hleave]
  rfl

/-- Giving a handler the values that it remembers changes nothing. -/
theorem Engine.modify_store_self (e : Engine η σ) {id : HandlerId} {h : ShadowHandler η}
    (hh : e.handlers[id.index]? = some h) :
    (e.handlers.modify id.index fun h' => { h' with store := h.store }) = e.handlers := by
  apply Array.ext_getElem?
  intro index
  rw [Array.getElem?_modify]
  split
  next hindex =>
    rw [← hindex, hh]
    rfl
  next => rfl

/-- The callback of a handler, if it has one. -/
theorem callback_script {e : Engine η σ} {id : HandlerId} {h : ShadowHandler η}
    {host : Host η σ} {scripts : η → HandlerArg → Script} (hhost : host.RunsScripts scripts)
    (hh : e.handlers[id.index]? = some h) (hs : h.IsScripted) (p : Perform η σ)
    (arg : HandlerArg) :
    let script := partScript scripts arg h.closure.callback
    ∃ store : Overlay, store.cells = (script.runWith h.store.cells e.state).2.1 ∧
      (if h.callback.isSome then runShadowed id (runPart? (runCallback host p) arg h.callback)
        else pure ()) e =
        ((script.runWith h.store.cells e.state).1.mapError .failure,
          { e with
            state := (script.runWith h.store.cells e.state).2.2
            handlers := e.handlers.modify id.index fun h => { h with store := store } }) := by
  intro script
  cases hcallback : h.callback with
  | none =>
    have hscript : script = .finish (.ok ()) := by
      show partScript scripts arg (h.callback.bind _) = _
      rw [hcallback]
      rfl
    rw [hscript]
    refine ⟨h.store, rfl, ?_⟩
    rw [e.modify_store_self hh]
    rfl
  | some c =>
    have hpart := runPart?_apply hhost p arg hs.callback
    rw [hcallback] at hpart
    have hsome : (some c).isSome = true := rfl
    rw [if_pos hsome, hpart, ← hcallback]
    exact runShadowed_script hh script

theorem invokeHandler_apply {e : Engine η σ} {id : HandlerId} {h : ShadowHandler η}
    (hh : e.handlers[id.index]? = some h) (runPart : Callback η → HandlerArg → Run η σ Unit)
    (arg : HandlerArg) :
    invokeHandler runPart id arg e =
      (runPart? runPart arg h.start >>= fun _ =>
        (if h.callback.isSome then runShadowed id (runPart? runPart arg h.callback) else pure ())
          >>= fun _ => runPart? runPart arg h.done) e := by
  rw [invokeHandler, Run.get_bind_apply, hh]
  dsimp only
  split <;> rfl

/-- Invoking a handler whose parts are scripts is invoking its closure. -/
theorem invokeHandler_scripts {e : Engine η σ} {id : HandlerId} {h : ShadowHandler η}
    {host : Host η σ} {scripts : η → HandlerArg → Script} (hhost : host.RunsScripts scripts)
    (hh : e.handlers[id.index]? = some h) (hs : h.IsScripted) (p : Perform η σ)
    (arg : HandlerArg) :
    ∃ store : Overlay,
      { h with store := store }.closure = (h.closure.invoke scripts arg e.state).2.1 ∧
      invokeHandler (runCallback host p) id arg e =
        ((h.closure.invoke scripts arg e.state).1.mapError .failure,
          { e with
            state := (h.closure.invoke scripts arg e.state).2.2
            handlers := e.handlers.modify id.index fun h => { h with store := store } }) := by
  let start := partScript scripts arg h.closure.start
  let callback := partScript scripts arg h.closure.callback
  let done := partScript scripts arg h.closure.done
  have hstart : runPart? (runCallback host p) arg h.start = start.asRun :=
    runPart?_apply hhost p arg hs.start
  have hdone : runPart? (runCallback host p) arg h.done = done.asRun :=
    runPart?_apply hhost p arg hs.done
  rw [invokeHandler_apply hh, hstart, hdone]
  have hinvoke : h.closure.invoke scripts arg e.state =
      match start.run e.state with
      | (.error f, live) => (.error f, h.closure, live)
      | (.ok (), live) =>
        match callback.runWith h.store.cells live with
        | (.error f, cells, live) => (.error f, { h.closure with cells := cells }, live)
        | (.ok (), cells, live) =>
          match done.run live with
          | (outcome, live) => (outcome, { h.closure with cells := cells }, live) := rfl
  rw [hinvoke]
  rcases hfirst : start.run e.state with ⟨f | ⟨⟩, live⟩
  · -- the start failed, and the callback does not run
    have hrun : (start.asRun : Run η σ Unit) e = (.error (.failure f), { e with state := live }) := by
      rw [Script.asRun, hfirst]
      rfl
    refine ⟨h.store, rfl, ?_⟩
    rw [Run.bind_of_error hrun, e.modify_store_self hh]
    rfl
  · have hrun : (start.asRun : Run η σ Unit) e = (.ok (), { e with state := live }) := by
      rw [Script.asRun, hfirst]
      rfl
    rw [Run.bind_of_ok hrun]
    dsimp only
    let e₁ : Engine η σ := { e with state := live }
    have hh₁ : e₁.handlers[id.index]? = some h := hh
    obtain ⟨store, hstore, hcallback⟩ := callback_script hhost hh₁ hs p arg
    change store.cells = (callback.runWith h.store.cells live).2.1 at hstore
    rcases hsecond : callback.runWith h.store.cells live with ⟨outcome, cells, live'⟩
    let e₂ : Engine η σ :=
      { e with
        state := live'
        handlers := e.handlers.modify id.index fun h => { h with store := store } }
    have hmiddle : (if h.callback.isSome then
        runShadowed id (runPart? (runCallback host p) arg h.callback) else pure ()) e₁
        = (outcome.mapError .failure, e₂) := by
      rw [hcallback]
      change ((callback.runWith h.store.cells live).1.mapError Halt.failure, _) = _
      rw [hsecond]
    have hstore : store.cells = cells := by
      rw [hstore, hsecond]
    have hcells : { h with store := store }.closure = { h.closure with cells := cells } := by
      rw [← hstore]
      rfl
    rcases outcome with f | ⟨⟩
    · -- the callback failed, and what it left in the cells stays
      refine ⟨store, hcells, ?_⟩
      exact Run.bind_of_error hmiddle
    · refine ⟨store, hcells, ?_⟩
      rw [Run.bind_of_ok hmiddle]
      rfl

/-! ### Runs -/

/-- All handlers of the engine run scripts. -/
def Engine.IsScripted (e : Engine η σ) : Prop :=
  ∀ (index : Nat) (h : ShadowHandler η), e.handlers[index]? = some h → h.IsScripted

/-- What an act leaves as it is, and what it does to the variables and the handlers. -/
structure HandlerAct.Does (e e' : Engine η σ) (m : Closures η) : Prop where
  closures : e'.closures = m
  current : e'.current = e.current
  calls : e'.calls = e.calls
  shape : e'.state.shape = e.state.shape
  scripted : e'.IsScripted

theorem foldl_shadows (calls : Array CallState) (frames : List (MacroCall η)) (names : List String)
    (name : String) :
    name ∈ frames.foldl (fun names call =>
        Names.insertAll names (calls[call.id]?.getD {}).shadows) names ↔
      name ∈ names ∨ ∃ call ∈ frames, name ∈ (calls[call.id]?.getD {}).shadows := by
  induction frames generalizing names with
  | nil => simp
  | cons call frames ih =>
    rw [List.foldl_cons, ih, Names.mem_insertAll, or_assoc]
    simp only [List.mem_cons, exists_eq_or_imp]

/-- A handler remembers the values of the variables that its context shadows. -/
theorem make_apply (context : Context η) (start callback done : Option η) (e : Engine η σ) :
    ∃ store : Overlay,
      store.cells = (if callback.isSome then Cells.capture e.calls context e.state
        else fun _ => none) ∧
      (ShadowHandler.make context (start.map .host) (callback.map .host) (done.map .host) :
          Run η σ HandlerId) e =
        (.ok ⟨e.handlers.size⟩, { e with
          handlers := e.handlers.push
            ⟨context, store, start.map .host, callback.map .host, done.map .host⟩ }) := by
  cases callback with
  | none => exact ⟨[], rfl, rfl⟩
  | some procedure =>
    let names := context.calls.foldl
      (fun names call => Names.insertAll names (e.calls[call.id]?.getD {}).shadows) []
    refine ⟨Entries.ofPairs (names.map fun name => (name, e.state.get? name)), ?_, rfl⟩
    funext name
    have hmem : name ∈ names ↔ Shadows e.calls context name := by
      rw [foldl_shadows]
      simp [Shadows]
    show Entries.find? name _ = _
    rw [Entries.find?_ofPairs_map]
    simp only [hmem, Option.isSome_some, if_true, Cells.capture]

/-- Invoking a closure gives the variables other values and does nothing else to them. -/
theorem Closure.reassigned_invoke (scripts : η → HandlerArg → Script) (arg : HandlerArg)
    (c : Closure η) (live : State) : live.Reassigned (c.invoke scripts arg live).2.2 := by
  unfold Closure.invoke
  have hfirst := (partScript scripts arg c.start).reassigned_run live
  rcases hstart : (partScript scripts arg c.start).run live with ⟨f | ⟨⟩, s₁⟩
  · rw [hstart] at hfirst
    exact hfirst
  · rw [hstart] at hfirst
    have hsecond := ((partScript scripts arg c.callback).apart_runWith c.cells s₁).reassigned
    dsimp only
    rcases hcallback : (partScript scripts arg c.callback).runWith c.cells s₁
      with ⟨f | ⟨⟩, cells, s₂⟩
    · rw [hcallback] at hsecond
      exact hfirst.trans hsecond
    · rw [hcallback] at hsecond
      exact (hfirst.trans hsecond).trans ((partScript scripts arg c.done).reassigned_run s₂)

theorem map_host_isScripted {part : Option η} (c : Callback η) (h : part.map .host = some c) :
    ∃ procedure, c = .host procedure := by
  obtain ⟨procedure, -, rfl⟩ := Option.map_eq_some_iff.1 h
  exact ⟨procedure, rfl⟩

theorem bind_procedure?_map_host (part : Option η) :
    (part.map Callback.host).bind Callback.procedure? = part := by
  cases part <;> rfl

theorem changingState_apply (change : State → Except InvalidVariable State) (e : Engine η σ) :
    (Run.changingState change : Run η σ Unit) e =
      match change e.state with
      | .ok s => (.ok (), { e with state := s })
      | .error error => (.error (.failure (.context (.invalidVariable error))), e) := by
  rw [Run.changingState, Run.get_bind_apply]
  cases change e.state <;> rfl

/-- Handlers of which one remembers other values, as closures. -/
theorem map_closure_modify {handlers : Array (ShadowHandler η)} {index : Nat}
    {h : ShadowHandler η} {c : Closure η} {store : Overlay} (hh : handlers[index]? = some h)
    (hc : { h with store := store }.closure = c) :
    (handlers.modify index fun h => { h with store := store }).map ShadowHandler.closure =
      (handlers.map ShadowHandler.closure).modify index fun _ => c := by
  apply Array.ext_getElem?
  intro other
  rw [Array.getElem?_map, Array.getElem?_modify, Array.getElem?_modify, Array.getElem?_map]
  by_cases hother : index = other
  · subst hother
    rw [if_pos rfl, if_pos rfl, hh, Option.map_some, Option.map_some, Option.map_some, hc,
      Option.map_some]
  · rw [if_neg hother, if_neg hother]

/-- An act on an engine is the act on its handlers as closures. -/
theorem HandlerAct.run_does {host : Host η σ} {scripts : η → HandlerArg → Script}
    (hhost : host.RunsScripts scripts) {e : Engine η σ} (he : e.IsScripted) (a : HandlerAct η)
    (n : Nat) :
    ∃ e', Run.attempt (a.run (perform host (n + 1))) e
        = (.ok (e.closures.act scripts e.calls a).1, e') ∧
      HandlerAct.Does e e' (e.closures.act scripts e.calls a).2 := by
  cases a with
  | make context start callback done =>
    obtain ⟨store, hstore, hmake⟩ := make_apply context start callback done e
    have hrun : (HandlerAct.make context start callback done).run (perform host (n + 1)) e = _ :=
      Run.bind_of_ok hmake
    refine ⟨_, Run.attempt_of_ok hrun, ?_, rfl, rfl, rfl, ?_⟩
    · show Closures.mk e.state (Array.map _ (Array.push _ _)) = _
      rw [Array.map_push]
      simp only [ShadowHandler.closure, bind_procedure?_map_host, hstore]
      rfl
    · intro index h hh
      rw [Array.getElem?_push] at hh
      split at hh
      · cases hh
        exact ⟨map_host_isScripted, map_host_isScripted, map_host_isScripted⟩
      · exact he index h hh
  | set name value =>
    have happly := changingState_apply (fun s => s.set name value) e
    unfold Closures.act
    dsimp only [Engine.closures, HandlerAct.run] at happly ⊢
    cases hset : e.state.set name value with
    | ok s =>
      rw [hset] at happly
      exact ⟨_, Run.attempt_of_ok happly, rfl, rfl, rfl, (State.reassigned_of_set hset).shape, he⟩
    | error error =>
      rw [hset] at happly
      exact ⟨_, Run.attempt_of_failure happly, rfl, rfl, rfl, rfl, he⟩
  | unset name =>
    have happly := changingState_apply (fun s => (s.unset name).map Prod.snd) e
    unfold Closures.act
    dsimp only [Engine.closures, HandlerAct.run] at happly ⊢
    cases hunset : e.state.unset name with
    | ok result =>
      rw [hunset] at happly
      exact ⟨_, Run.attempt_of_ok happly, rfl, rfl, rfl, (State.reassigned_of_unset hunset).shape,
        he⟩
    | error error =>
      rw [hunset] at happly
      exact ⟨_, Run.attempt_of_failure happly, rfl, rfl, rfl, rfl, he⟩
  | invoke handler arg =>
    have hperform : (HandlerAct.invoke handler arg).run (perform host (n + 1))
        = invokeHandler (runCallback host (perform host n)) handler arg := rfl
    have hget : e.closures.closures[handler.index]?
        = e.handlers[handler.index]?.map ShadowHandler.closure := Array.getElem?_map
    rw [hperform, Closures.act, hget]
    cases hh : e.handlers[handler.index]? with
    | none =>
      have hinvoke : invokeHandler (runCallback host (perform host n)) handler arg e
          = (.ok (), e) := by
        rw [invokeHandler, Run.get_bind_apply, hh]
        rfl
      exact ⟨e, Run.attempt_of_ok hinvoke, rfl, rfl, rfl, rfl, he⟩
    | some h =>
      obtain ⟨store, hstore, hinvoke⟩ :=
        invokeHandler_scripts hhost hh (he _ h hh) (perform host n) arg
      refine ⟨_, Run.attempt_of_mapError hinvoke, ?_, rfl, rfl, ?_, ?_⟩
      · show Closures.mk _ (Array.map _ _) = Closures.mk _ _
        rw [map_closure_modify hh hstore]
        rfl
      · exact (Closure.reassigned_invoke scripts arg h.closure e.state).shape
      · intro index other hother
        rw [Array.getElem?_modify] at hother
        split at hother
        · obtain ⟨old, hold, rfl⟩ := Option.map_eq_some_iff.1 hother
          exact ⟨(he index old hold).start, (he index old hold).callback, (he index old hold).done⟩
        · exact he index other hother

/-- An engine whose handlers run scripts of its host goes on as their closures do. It returns from
all acts with the same outcomes, and leaves what the closures leave: what the variables of the story
hold, what each handler remembers, the context that is current and the overlays in force. Of the
closures it is known that a script which works on cells keeps the cells that there are, and that it
touches no variable of the story for which there is a cell. -/
theorem handlers_are_closures {host : Host η σ} {scripts : η → HandlerArg → Script}
    (hhost : host.RunsScripts scripts) (n : Nat) (acts : List (HandlerAct η)) {e : Engine η σ}
    (he : e.IsScripted) :
    (∃ e', HandlerAct.runAll (perform host (n + 1)) acts e
        = (.ok (e.closures.acts scripts e.calls acts).1, e') ∧
      HandlerAct.Does e e' (e.closures.acts scripts e.calls acts).2) ∧
    ∀ (script : Script) (cells : Cells) (live : State),
      cells.Apart live (script.runWith cells live).2.1 (script.runWith cells live).2.2 := by
  refine ⟨?_, Script.apart_runWith⟩
  induction acts generalizing e with
  | nil => exact ⟨e, rfl, rfl, rfl, rfl, rfl, he⟩
  | cons a rest ih =>
    obtain ⟨e₁, hrun₁, hdoes₁⟩ := HandlerAct.run_does hhost he a n
    obtain ⟨e', hrun', hdoes'⟩ := ih hdoes₁.scripted
    rw [hdoes₁.closures, hdoes₁.calls] at hrun' hdoes'
    refine ⟨e', ?_, hdoes'.closures, hdoes'.current.trans hdoes₁.current,
      hdoes'.calls.trans hdoes₁.calls, hdoes'.shape.trans hdoes₁.shape, hdoes'.scripted⟩
    rw [HandlerAct.runAll, Run.bind_of_ok hrun₁, Run.bind_of_ok hrun']
    rfl

/-- A handler that adds to a variable which its context shadows, and fails: made, left alone while
the variable changes, and invoked twice. -/
theorem handler_is_closure_of_counter :
    let host : Host Script Unit := fun _ script occasion =>
      match occasion with
      | .part _ => script.asRun
      | _ => pure ()
    let scripts : Script → HandlerArg → Script := fun script _ => script
    let mark : Script := .get "$x" fun old =>
      .set "$x" (.array [old.getD .null]) fun _ => .finish (.error (.message "no"))
    let call : MacroCall Script :=
      ⟨0, ⟨none, .none, false, false, []⟩, "link", "link", {}, [], "", ⟨0⟩⟩
    let context : Context Script := ⟨call, []⟩
    let e : Engine Script Unit :=
      { Engine.ofRegistry {} {} () with calls := #[{ shadows := ["$x"] }] }
    let acts : List (HandlerAct Script) :=
      [.make context none (some mark) none, .set "$x" (.bool true), .invoke ⟨0⟩ .nothing,
        .invoke ⟨0⟩ .nothing]
    host.RunsScripts scripts ∧ e.IsScripted ∧
    ∃ e', HandlerAct.runAll (perform host 1) acts e
        = (.ok (e.closures.acts scripts e.calls acts).1, e') ∧
      HandlerAct.Does e e' (e.closures.acts scripts e.calls acts).2 := by
  intro host scripts mark call context e acts
  have hhost : host.RunsScripts scripts := fun _ _ _ => rfl
  have he : e.IsScripted := by
    intro index h hh
    cases hh
  exact ⟨hhost, he, (handlers_are_closures hhost 0 acts he).1⟩

end StoryEngine
