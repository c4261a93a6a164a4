import StoryEngine.Play
import StoryEngine.Proofs.Engine.Attentive
/-!
# StoryEngine.Proofs.Play.Heard

Events are delivered (`events_delivered`), whatever a host and its listeners do. `Heard` runs work
once more and keeps a log of what happens to listeners meanwhile: what the work does by itself to
listeners is logged as such, and a trigger calls the listeners that the log tells to be registered,
one after another, each of which can do all this in turn (`Round`). What is run in this way is what the
engine does (`Heard.eq_run`), and all attentive work is (`Attentive.heard`).

By every such log triggers call those that are registered, since triggers that are under way are nested
(`Heard.sound`).
-/

namespace StoryEngine

variable {η σ α : Type}

/-! ### Runs with a log -/

/-- How a log goes on while something is done on an engine, with the outcome. -/
abbrev Hearing (η σ α : Type) :=
  EventLog (ListenerAction η) → Engine η σ → EventLog (ListenerAction η) →
    Except Halt α × Engine η σ → Prop

/-- What is noted when a listener has come to its end. -/
def reported : Except Halt Unit → List Failure
  | .ok () => []
  | .error (.failure f) => [f]
  | .error .outOfFuel => []

/-- The engine in which the next listener is called: the failure of one that has failed is noted. -/
def Engine.afterCall (ended : Except Halt Unit × Engine η σ) : Engine η σ :=
  { ended.2 with errors := ended.2.errors ++ reported ended.1 }

/-- What happens to listeners while work is done. `T` says so for tasks. -/
inductive Heard (T : Task → Hearing η σ Unit) :
    {α : Type} → (Perform η σ → Run η σ α) → Hearing η σ α
  /-- What the work does by itself. -/
  | own {α : Type} {x : Run η σ α} {log : EventLog (ListenerAction η)} {e : Engine η σ}
      {changes : List (Enrolment (ListenerAction η))}
      (h : (x e).2.listeners = changes.foldl Enrolment.apply e.listeners) :
      Heard T (fun _ => x) log e (log ++ changes.map .enrol) (x e)
  | bind {α β : Type} {X : Perform η σ → Run η σ α} {F : α → Perform η σ → Run η σ β}
      {log log₁ log₂ : EventLog (ListenerAction η)} {e e₁ : Engine η σ} {a : α}
      {out : Except Halt β × Engine η σ} (first : Heard T X log e log₁ (.ok a, e₁))
      (rest : Heard T (F a) log₁ e₁ log₂ out) : Heard T (fun p => X p >>= fun a => F a p) log e log₂ out
  /-- The first part fails, or does not come to its end. -/
  | stop {α β : Type} {X : Perform η σ → Run η σ α} {F : α → Perform η σ → Run η σ β}
      {log log₁ : EventLog (ListenerAction η)} {e e₁ : Engine η σ} {halt : Halt}
      (first : Heard T X log e log₁ (.error halt, e₁)) :
      Heard T (fun p => X p >>= fun a => F a p) log e log₁ (.error halt, e₁)
  | attempt {α : Type} {X : Perform η σ → Run η σ α} {log log₁ : EventLog (ListenerAction η)}
      {e : Engine η σ} {out : Except Halt α × Engine η σ} (h : Heard T X log e log₁ out) :
      Heard T (fun p => Run.attempt (X p)) log e log₁ (Run.attempt (fun _ => out) e)
  | task {t : Task} {log log₁ : EventLog (ListenerAction η)} {e : Engine η σ}
      {out : Except Halt Unit × Engine η σ} (h : T t log e log₁ out) :
      Heard T (fun p => p t) log e log₁ out

section Rules

variable {T : Task → Hearing η σ Unit} (log : EventLog (ListenerAction η)) (e : Engine η σ)

theorem Heard.still {x : Run η σ α} (h : (x e).2.listeners = e.listeners) :
    Heard T (fun _ => x) log e log (x e) := by
  have hown := @Heard.own η σ T α x log e [] h
  rwa [List.map_nil, List.append_nil] at hown

/-- Who registers a listener is logged as such. -/
theorem Heard.listen (l : Listener (ListenerAction η)) :
    Heard T (fun _ => Run.listen l) log e (log ++ [.enrol (.register l)]) (Run.listen l e) :=
  @Heard.own η σ T Unit (Run.listen l) log e [.register l] rfl

/-- Who removes listeners is logged as such. -/
theorem Heard.unlisten (event : Option Event) (name : String) :
    Heard T (fun _ => Run.unlisten event name) log e (log ++ [.enrol (.off event name)])
      (Run.unlisten event name e) :=
  @Heard.own η σ T Unit (Run.unlisten event name) log e [.off event name] rfl

end Rules

/-- What happens while the trigger that has happened at a place calls those that it has found. -/
inductive Round (host : Host η σ) (T : Task → Hearing η σ Unit) (t : Nat) (detail : String) :
    List (Nat × Listener (ListenerAction η)) → Hearing η σ Unit
  | done (log : EventLog (ListenerAction η)) (e : Engine η σ) :
      Round host T t detail [] log e (log ++ [.done t]) (.ok (), e)
  /-- A listener is called, and when it has come to its end the others are, though it may have
  failed. -/
  | call {id : Nat} {l : Listener (ListenerAction η)} {left : List (Nat × Listener (ListenerAction η))}
      {log log₁ log₂ : EventLog (ListenerAction η)} {e : Engine η σ}
      {ended out : Except Halt Unit × Engine η σ}
      (called : Heard T (fun p => runListener host p detail l.action) (log ++ [.call t id]) e log₁ ended)
      (hreturned : Returned ended.1)
      (rest : Round host T t detail left log₁ (Engine.afterCall ended) log₂ out) :
      Round host T t detail ((id, l) :: left) log e log₂ out
  /-- A listener is called that does not come to its end. -/
  | halt {id : Nat} {l : Listener (ListenerAction η)} {left : List (Nat × Listener (ListenerAction η))}
      {log log₁ : EventLog (ListenerAction η)} {e e₁ : Engine η σ}
      (called : Heard T (fun p => runListener host p detail l.action) (log ++ [.call t id]) e log₁
        (.error .outOfFuel, e₁)) :
      Round host T t detail ((id, l) :: left) log e log₁ (.error .outOfFuel, e₁)

/-- What happens while a task is done, of which the parts are done as `T` says. -/
inductive HeardTask (host : Host η σ) (T : Task → Hearing η σ Unit) (fuel : Nat) :
    Task → Hearing η σ Unit
  /-- The listeners of the event are called that the log tells to be registered. -/
  | trigger {event : Event} {detail : String} {log log₁ : EventLog (ListenerAction η)}
      {e : Engine η σ} {out : Except Halt Unit × Engine η σ} (hlog : log.listeners = e.listeners)
      (round : Round host T log.length detail (log.found event) (log ++ [.trigger event])
        { e with listeners := (Listener.take e.listeners event).2 } log₁ out) :
      HeardTask host T fuel (.trigger event detail) log e log₁ out
  | other {t : Task} {log log₁ : EventLog (ListenerAction η)} {e : Engine η σ}
      {out : Except Halt Unit × Engine η σ} (ht : ∀ event detail, t ≠ .trigger event detail)
      (h : Heard T (fun p => performTask host p fuel t) log e log₁ out) :
      HeardTask host T fuel t log e log₁ out

/-- What happens while tasks are done that may nest as deep as the fuel lasts. -/
def Hears (host : Host η σ) : Nat → Task → Hearing η σ Unit
  | 0 => fun _ log e log₁ out => log₁ = log ∧ out = (.error .outOfFuel, e)
  | fuel + 1 => HeardTask host (Hears host fuel) fuel

/-! ### The engine does what is heard -/

theorem Run.reporting_of_returned {x : Run η σ Unit} {e : Engine η σ} (h : Returned (x e).1) :
    Run.reporting x e = (.ok (), Engine.afterCall (x e)) := by
  rcases hrun : x e with ⟨(f | _) | ⟨⟩, e₁⟩
  · exact bind_of_ok (attempt_of_failure hrun)
  · exact absurd (congrArg Prod.fst hrun) h
  · rw [reporting_of_ok hrun]
    simp [Engine.afterCall, reported]

section Calls

variable {host : Host η σ} {p : Perform η σ} {detail : String} {action : ListenerAction η}
  {rest : List (ListenerAction η)} {e e₁ : Engine η σ}

/-- When a listener has come to its end, the others are called. If it has failed, one failure more is
noted. -/
theorem callListeners_of_returned (h : Returned (runListener host p detail action e).1) :
    callListeners host p detail (action :: rest) e =
      callListeners host p detail rest (Engine.afterCall (runListener host p detail action e)) := by
  rw [callListeners, Run.bind_of_ok (Run.reporting_of_returned h)]

theorem callListeners_of_halt (h : runListener host p detail action e = (.error .outOfFuel, e₁)) :
    callListeners host p detail (action :: rest) e = (.error .outOfFuel, e₁) :=
  Run.bind_of_error (Run.bind_of_error (Run.attempt_of_halt h))

end Calls

/-- The outcome is that of the tasks as they are performed. -/
def Outcomes (p : Perform η σ) (T : Task → Hearing η σ Unit) : Prop :=
  ∀ t log e log' out, T t log e log' out → out = p t e

section Adequate

variable {host : Host η σ} {p : Perform η σ} {T : Task → Hearing η σ Unit}
  {log log' : EventLog (ListenerAction η)} {e : Engine η σ}

theorem Heard.eq_run (hT : Outcomes p T) {X : Perform η σ → Run η σ α}
    {out : Except Halt α × Engine η σ} (h : Heard T X log e log' out) : out = X p e := by
  induction h with
  | own _ => rfl
  | @bind α β X F _ _ _ _ _ a _ _ _ ihfirst ihrest =>
      rw [ihrest]
      exact (Run.bind_of_ok (f := fun a => F a p) ihfirst.symm).symm
  | stop _ ihfirst => exact (Run.bind_of_error ihfirst.symm).symm
  | attempt _ ih =>
      unfold Run.attempt
      rw [ih]
  | task h => exact hT _ _ _ _ _ h

theorem Round.eq_run (hT : Outcomes p T) {t : Nat} {detail : String}
    {calls : List (Nat × Listener (ListenerAction η))} {out : Except Halt Unit × Engine η σ}
    (h : Round host T t detail calls log e log' out) :
    out = callListeners host p detail (calls.map (·.2.action)) e := by
  induction h with
  | done log e => rfl
  | call called hreturned _ ih =>
      have hrun := called.eq_run hT
      rw [hrun] at hreturned ih
      rw [ih, List.map_cons, callListeners_of_returned hreturned]
  | halt called => rw [List.map_cons, callListeners_of_halt (called.eq_run hT).symm]

theorem Hears.outcomes (host : Host η σ) (n : Nat) : Outcomes (perform host n) (Hears host n) := by
  induction n with
  | zero => exact fun t log e log' out h => h.2
  | succ n ih =>
      intro t log e log' out h
      cases h with
      | trigger hlog round =>
          rw [round.eq_run ih, EventLog.map_action_found, hlog]
          rfl
      | other ht h => exact h.eq_run ih

end Adequate

/-! ### All that is done is heard -/

/-- The tasks are heard as they are performed, and the log tells at their end who is registered. -/
def HeardAll (p : Perform η σ) (T : Task → Hearing η σ Unit) : Prop :=
  ∀ t log e, log.listeners = e.listeners →
    ∃ log', T t log e log' (p t e) ∧ log'.listeners = (p t e).2.listeners

section Exists

variable {host : Host η σ} {p : Perform η σ} {T : Task → Hearing η σ Unit}
  {log : EventLog (ListenerAction η)} {e : Engine η σ}

theorem Attentive.heard (hT : HeardAll p T) {X : Perform η σ → Run η σ α} (hX : Attentive X)
    (hlog : log.listeners = e.listeners) :
    ∃ log', Heard T X log e log' (X p e) ∧ log'.listeners = (X p e).2.listeners := by
  induction hX generalizing log e with
  | own hx =>
      obtain ⟨changes, hchanges⟩ := hx e
      exact ⟨_, .own hchanges, by rw [EventLog.listeners_enrols, hlog, hchanges]⟩
  | @bind α β X F _ _ ihX ihF =>
      obtain ⟨log₁, hfirst, hlog₁⟩ := ihX hlog
      dsimp only
      rcases hrun : X p e with ⟨halt | a, e₁⟩
      · rw [hrun] at hfirst hlog₁
        rw [Run.bind_of_error hrun]
        exact ⟨log₁, .stop hfirst, hlog₁⟩
      · rw [hrun] at hfirst hlog₁
        rw [Run.bind_of_ok hrun]
        obtain ⟨log₂, hrest, hlog₂⟩ := ihF a hlog₁
        exact ⟨log₂, .bind hfirst hrest, hlog₂⟩
  | attempt _ ihX =>
      obtain ⟨log₁, hheard, hlog₁⟩ := ihX hlog
      exact ⟨log₁, .attempt hheard, by rw [Run.attempt_snd, hlog₁]⟩
  | task t =>
      obtain ⟨log₁, htask, hlog₁⟩ := hT t log e hlog
      exact ⟨log₁, .task htask, hlog₁⟩

theorem exists_round (hT : HeardAll p T) (hhost : host.IsAttentive) (t : Nat) (detail : String)
    (calls : List (Nat × Listener (ListenerAction η))) (hlog : log.listeners = e.listeners) :
    ∃ log', Round host T t detail calls log e log'
        (callListeners host p detail (calls.map (·.2.action)) e) ∧
      log'.listeners = (callListeners host p detail (calls.map (·.2.action)) e).2.listeners := by
  induction calls generalizing log e with
  | nil => exact ⟨_, .done log e, by rw [EventLog.listeners_done, hlog]; rfl⟩
  | cons entry left ih =>
      obtain ⟨id, l⟩ := entry
      have hcall : EventLog.listeners (log ++ [.call t id]) = e.listeners := by
        rw [EventLog.listeners_call, hlog]
      obtain ⟨log₁, hcalled, hlog₁⟩ := (attentive_runListener hhost detail l.action).heard hT hcall
      rw [List.map_cons]
      by_cases hreturned : Returned (runListener host p detail l.action e).1
      · obtain ⟨log₂, hrest, hlog₂⟩ :=
          ih (e := Engine.afterCall (runListener host p detail l.action e)) hlog₁
        rw [callListeners_of_returned hreturned]
        exact ⟨log₂, .call hcalled hreturned hrest, hlog₂⟩
      · rcases hrun : runListener host p detail l.action e with ⟨ended, e₁⟩
        rw [hrun] at hreturned hcalled hlog₁
        obtain rfl : ended = .error .outOfFuel := not_not.mp hreturned
        rw [callListeners_of_halt hrun]
        exact ⟨log₁, .halt hcalled, hlog₁⟩

theorem Hears.heardAll (hhost : host.IsAttentive) (n : Nat) :
    HeardAll (perform host n) (Hears host n) := by
  induction n with
  | zero => exact fun t log e hlog => ⟨log, ⟨rfl, rfl⟩, hlog⟩
  | succ n ih =>
      intro t log e hlog
      by_cases ht : ∃ event detail, t = .trigger event detail
      · obtain ⟨event, detail, rfl⟩ := ht
        have htaken : EventLog.listeners (log ++ [.trigger event]) =
            (Listener.take e.listeners event).2 := by
          rw [EventLog.listeners_trigger, hlog]
        obtain ⟨log₁, hround, hlog₁⟩ :=
          exists_round (e := { e with listeners := (Listener.take e.listeners event).2 }) ih hhost
            log.length detail (log.found event) htaken
        rw [EventLog.map_action_found, hlog] at hround hlog₁
        exact ⟨log₁, .trigger hlog hround, hlog₁⟩
      · have hother : ∀ event detail, t ≠ .trigger event detail :=
          fun event detail heq => ht ⟨event, detail, heq⟩
        obtain ⟨log₁, hheard, hlog₁⟩ := (attentive_performTask hhost n hother).heard ih hlog
        exact ⟨log₁, .other hother hheard, hlog₁⟩

end Exists

/-! ### What is heard is delivered -/

/-- A log goes on to another one while the triggers stay under way that were so before. Further ones
are under way only where the work did not come to its end. -/
structure EventLog.GoesOn (log : EventLog (ListenerAction η)) (rounds : List (Nat × List Nat))
    (log' : EventLog (ListenerAction η)) (out : Except Halt α × Engine η σ) : Prop where
  grows : log <+: log'
  listeners : log'.listeners = out.2.listeners
  opens : ∃ inner, log'.Opens (inner ++ rounds) ∧ (Returned out.1 → inner = [])

/-- Where a log is one in which triggers are under way, and tells who is registered, it goes on. -/
def Hearing.Sound (hearing : Hearing η σ α) : Prop :=
  ∀ {log e log' out rounds}, hearing log e log' out → log.Opens rounds →
    log.listeners = e.listeners → log.GoesOn rounds log' out

section Sound

variable {host : Host η σ} {T : Task → Hearing η σ Unit}

theorem EventLog.GoesOn.opens_of_returned {log log' : EventLog (ListenerAction η)}
    {rounds : List (Nat × List Nat)} {out : Except Halt α × Engine η σ}
    (h : log.GoesOn rounds log' out) (hreturned : Returned out.1) : log'.Opens rounds := by
  obtain ⟨inner, hopens, hinner⟩ := h.opens
  rwa [hinner hreturned] at hopens

theorem Heard.sound (hT : ∀ t, (T t).Sound) (X : Perform η σ → Run η σ α) :
    Hearing.Sound (Heard T X) := by
  intro log e log' out rounds h hopens hlog
  induction h generalizing rounds with
  | own h =>
      refine ⟨List.prefix_append _ _, ?_, [], hopens.enrols _, fun _ => rfl⟩
      rw [EventLog.listeners_enrols, hlog, h]
  | bind _ _ ihfirst ihrest =>
      have hfirst := ihfirst hopens hlog
      have hrest := ihrest (hfirst.opens_of_returned (returned_ok _)) hfirst.listeners
      exact ⟨hfirst.grows.trans hrest.grows, hrest.listeners, hrest.opens⟩
  | stop _ ihfirst =>
      obtain ⟨hgrows, hlisteners, inner, hinner, hnone⟩ := ihfirst hopens hlog
      refine ⟨hgrows, hlisteners, inner, hinner, fun hr => hnone fun hhalt => hr ?_⟩
      cases hhalt
      rfl
  | @attempt _ _ _ _ e out _ ih =>
      obtain ⟨hgrows, hlisteners, inner, hinner, hnone⟩ := ih hopens hlog
      refine ⟨hgrows, by rw [Run.attempt_snd, hlisteners], inner, hinner, fun hr => ?_⟩
      obtain ⟨r, hout, hreturned⟩ := Run.attempt_returned (x := fun _ => out) (e := e) rfl hr
      exact hnone (hout ▸ hreturned)
  | task h => exact hT _ h hopens hlog

/-- A trigger under way that has called all it had to is done, and leaves under way what was so
before. -/
theorem Round.sound (hT : ∀ t, (T t).Sound) {t : Nat} {detail : String}
    {calls : List (Nat × Listener (ListenerAction η))} {log log' : EventLog (ListenerAction η)}
    {e : Engine η σ} {out : Except Halt Unit × Engine η σ} {rounds : List (Nat × List Nat)}
    (h : Round host T t detail calls log e log' out)
    (hopens : log.Opens ((t, calls.map (·.1)) :: rounds)) (hlog : log.listeners = e.listeners) :
    log.GoesOn rounds log' out := by
  induction h with
  | done log e =>
      refine ⟨List.prefix_append _ _, ?_, [], hopens.done, fun _ => rfl⟩
      rw [EventLog.listeners_done, hlog]
  | call called hreturned _ ih =>
      -- for the listener this trigger is one of those that are under way already
      have hcalled := Heard.sound hT _ called hopens.call (by rw [EventLog.listeners_call, hlog])
      have hrest := ih (hcalled.opens_of_returned hreturned) hcalled.listeners
      refine ⟨?_, hrest.listeners, hrest.opens⟩
      exact (List.prefix_append _ _).trans (hcalled.grows.trans hrest.grows)
  | halt called =>
      obtain ⟨hgrows, hlisteners, inner, hinner, -⟩ :=
        Heard.sound hT _ called hopens.call (by rw [EventLog.listeners_call, hlog])
      rw [List.append_cons] at hinner
      exact ⟨(List.prefix_append _ _).trans hgrows, hlisteners, _, hinner, fun hr => (hr rfl).elim⟩

theorem Hears.sound (host : Host η σ) (n : Nat) (t : Task) : Hearing.Sound (Hears host n t) := by
  induction n generalizing t with
  | zero =>
      rintro log e log' out rounds ⟨rfl, rfl⟩ hopens hlog
      exact ⟨List.prefix_rfl, hlog, [], hopens, fun _ => rfl⟩
  | succ n ih =>
      intro log e log' out rounds h hopens hlog
      cases h with
      | trigger _ round =>
          obtain ⟨hgrows, hlisteners, hinner⟩ :=
            round.sound ih (hopens.trigger _) (by rw [EventLog.listeners_trigger, hlog])
          exact ⟨(List.prefix_append _ _).trans hgrows, hlisteners, hinner⟩
      | other ht h => exact Heard.sound ih _ h hopens hlog

end Sound

/-- Events are delivered, whatever a host does and whatever listeners do while they run: register and
remove listeners, trigger events, have the engine do something else, or fail. By every log of this,
and there is one, each trigger calls those that are registered for its event at that moment, and all
of them if the work comes to its end. The failure of a listener is noted once, and the others are called
all the same. -/
theorem events_delivered {host : Host η σ} (hhost : host.IsAttentive)
    {X : Perform η σ → Run η σ α} (hX : Attentive X) (n : Nat) {log : EventLog (ListenerAction η)}
    {e : Engine η σ} (hopens : log.Opens []) (hlog : log.listeners = e.listeners) :
    (∃ log', Heard (Hears host n) X log e log' (X (perform host n) e)) ∧
    (∀ log' out, Heard (Hears host n) X log e log' out →
      out = X (perform host n) e ∧ log <+: log' ∧ log'.listeners = out.2.listeners ∧
      log'.Delivers ∧ (Returned out.1 → log'.Opens [] ∧
        ∀ t event, log'[t]? = some (.trigger event) → .done t ∈ log')) ∧
    ∀ detail action rest e, Returned (runListener host (perform host n) detail action e).1 →
      callListeners host (perform host n) detail (action :: rest) e =
        callListeners host (perform host n) detail rest
          (Engine.afterCall (runListener host (perform host n) detail action e)) := by
  refine ⟨?_, fun log' out h => ?_, fun detail action rest e => callListeners_of_returned⟩
  · obtain ⟨log', hheard, -⟩ := hX.heard (Hears.heardAll hhost n) hlog
    exact ⟨log', hheard⟩
  · have hgoes := Heard.sound (Hears.sound host n) X h hopens hlog
    obtain ⟨inner, hinner, -⟩ := hgoes.opens
    refine ⟨h.eq_run (Hears.outcomes host n), hgoes.grows, hgoes.listeners, hinner.delivers,
      fun hreturned => ?_⟩
    have hnone := hgoes.opens_of_returned hreturned
    refine ⟨hnone, fun t event ht => ?_⟩
    obtain ⟨left, -, hround | hdone⟩ := hnone.account ht
    · cases hround
    · exact hdone.2

/-- A listener for one call triggers its own event again and fails. The other one removes itself when
it is called for the inner trigger, and is called once more for the outer one. -/
theorem events_delivered_within_one_another :
    let host : Host Bool Unit := fun p again _ =>
      if again then do
        p (.trigger .keydown "b")
        Run.failWith "tired"
      else Run.unlisten none "keys"
    let once : Listener (ListenerAction Bool) := ⟨.keydown, none, true, .host true⟩
    let other : Listener (ListenerAction Bool) := ⟨.keydown, some "keys", false, .host false⟩
    let X : Perform Bool Unit → Run Bool Unit Unit := fun p => do
      Run.listen once
      Run.listen other
      p (.trigger .keydown "a")
    let e : Engine Bool Unit := Engine.ofRegistry {} {} ()
    let start : EventLog (ListenerAction Bool) := []
    let log : EventLog (ListenerAction Bool) := [.enrol (.register once), .enrol (.register other),
      .trigger .keydown, .call 2 0, .trigger .keydown, .call 4 1, .enrol (.off none "keys"), .done 4,
      .call 2 1, .enrol (.off none "keys"), .done 2]
    host.IsAttentive ∧ Attentive X ∧ start.Opens [] ∧ start.listeners = e.listeners ∧
      Heard (Hears host 2) X start e log (X (perform host 2) e) ∧
      (X (perform host 2) e).2.errors = [.message "tired"] ∧ log.Delivers := by
  intro host once other X e start log
  have hhost : host.IsAttentive := by
    intro again occasion
    cases again with
    | true => exact .bind (.task _) fun _ => .still fun _ => rfl
    | false => exact .unlisten none "keys"
  have hX : Attentive X := .bind (.listen once) fun _ => .bind (.listen other) fun _ => .task _
  have hheard : Heard (Hears host 2) X start e log (X (perform host 2) e) := by
    have hother (T : Task → Hearing Bool Unit Unit) (detail : String)
        (log : EventLog (ListenerAction Bool)) (e : Engine Bool Unit) :
        Heard T (fun p => runListener host p detail other.action) log e
          (log ++ [.enrol (.off none "keys")]) (Run.unlisten none "keys" e) :=
      .unlisten log e none "keys"
    let e₁ : Engine Bool Unit := { e with listeners := [other] }
    let e₂ : Engine Bool Unit := { e with listeners := [] }
    -- the listener for one call is not registered any more when the inner trigger happens
    have hinner : Hears host 1 (.trigger .keydown "b") (log.take 4) e₁ (log.take 8) (.ok (), e₂) := by
      have hround : Round host (Hears host 0) 4 "b" [(1, other)] (log.take 5) e₁ (log.take 8)
          (.ok (), e₂) := .call (hother _ "b" _ _) nofun (.done _ _)
      exact .trigger rfl hround
    have honce : Heard (Hears host 1) (fun p => runListener host p "a" once.action) (log.take 4) e₁
        (log.take 8) (.error (.failure (.message "tired")), e₂) :=
      .bind (.task hinner) (.still _ _ rfl)
    have houter : Hears host 2 (.trigger .keydown "a") (log.take 2)
        { e with listeners := [once, other] } log (X (perform host 2) e) := by
      have hround : Round host (Hears host 1) 2 "a" [(0, once), (1, other)] (log.take 3) e₁ log
          (X (perform host 2) e) :=
        .call honce nofun (.call (hother _ "a" _ _) nofun (.done _ _))
      exact .trigger rfl hround
    exact .bind (.listen start e once) (.bind (.listen _ _ other) (.task houter))
  have herrors : (X (perform host 2) e).2.errors = [.message "tired"] := rfl
  obtain ⟨-, hall, -⟩ := events_delivered hhost hX 2 (e := e) .start rfl
  obtain ⟨-, -, -, hdelivers, -⟩ := hall log _ hheard
  exact ⟨hhost, hX, .start, rfl, hheard, herrors, hdelivers⟩

end StoryEngine
