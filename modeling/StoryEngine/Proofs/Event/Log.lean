import Mathlib
import StoryEngine.Event
/-!
# StoryEngine.Proofs.Event.Log

Logs of what happens to listeners: they register and are removed, events are triggered, and the
listeners that a trigger has found are called. A listener is known by the place in the log where it
registered, and a trigger by the place where it happened, so two listeners that look alike are told
apart.

`EventLog.Opens` says in what order things can happen when listeners do all this themselves while they
run: a trigger calls those it has found one after another, and the triggers that are under way are
nested. Every log of this kind is delivered (`EventLog.Opens.delivers`): each trigger calls those
that are registered at that moment, and a listener for one call is called no more than once.
-/

namespace StoryEngine

variable {κ : Type}

/-! ### Logs -/

/-- How listeners come and go, other than by what is triggered. -/
inductive Enrolment (κ : Type) where
  | register (l : Listener κ)
  /-- The listeners of a namespace are removed, for one event or for all. -/
  | off (event : Option Event) (name : String)

/-- What becomes of the listeners. -/
def Enrolment.apply (listeners : List (Listener κ)) : Enrolment κ → List (Listener κ)
  | .register l => listeners ++ [l]
  | .off event name => Listener.off listeners event name

/-- What happens to listeners. -/
inductive EventEntry (κ : Type) where
  | enrol (change : Enrolment κ)
  | trigger (event : Event)
  /-- A trigger calls a listener, each known by its place. -/
  | call (trigger listener : Nat)
  /-- A trigger has called all that it had to. -/
  | done (trigger : Nat)

/-- What happened to listeners, in order. -/
abbrev EventLog (κ : Type) := List (EventEntry κ)

namespace EventEntry

/-- The listener that registers. -/
def registered? : EventEntry κ → Option (Listener κ)
  | enrol (.register l) => some l
  | _ => none

/-- The listener is removed, if it is registered. -/
def removes (l : Listener κ) : EventEntry κ → Bool
  | enrol (.off event name) => l.namespace = some name && event.all (· = l.event)
  | trigger event => l.event = event && l.once
  | _ => false

/-- The listener that a trigger calls. -/
def callOf? (t : Nat) : EventEntry κ → Option Nat
  | call t' id => if t' = t then some id else none
  | _ => none

/-- The listener is called. -/
def calls (id : Nat) : EventEntry κ → Bool
  | call _ id' => id' = id
  | _ => false

/-- What becomes of the listeners that are registered, each with its place, by what happens at a
place. -/
def update (table : List (Nat × Listener κ)) (place : Nat) (entry : EventEntry κ) :
    List (Nat × Listener κ) :=
  (table.filter fun x => !entry.removes x.2) ++ entry.registered?.toList.map fun l => (place, l)

theorem registered?_eq_some {entry : EventEntry κ} {l : Listener κ} :
    entry.registered? = some l ↔ entry = enrol (.register l) := by
  rcases entry with (l' | _) | _ | _ | _ <;> simp [registered?]

theorem removes_off_eq_false {event : Option Event} {name : String} {l : Listener κ} :
    (enrol (.off event name)).removes l = false ↔
      ¬(l.namespace = some name ∧ (event = none ∨ event = some l.event)) := by
  cases event <;> simp [removes]

theorem mem_update {table : List (Nat × Listener κ)} {place id : Nat} {entry : EventEntry κ}
    {l : Listener κ} : (id, l) ∈ entry.update table place ↔
      ((id, l) ∈ table ∧ entry.removes l = false) ∨ (id = place ∧ entry = enrol (.register l)) := by
  simp only [update, List.mem_append, List.mem_filter, Bool.not_eq_eq_eq_not, Bool.not_true,
    List.mem_map, Option.mem_toList, registered?_eq_some, Prod.mk.injEq]
  refine or_congr_right ⟨?_, ?_⟩
  · rintro ⟨l', h, rfl, rfl⟩
    exact ⟨rfl, h⟩
  · rintro ⟨rfl, h⟩
    exact ⟨l, h, rfl, rfl⟩

/-- What happens at another place does not add a listener. -/
theorem count_update_le {id place : Nat} (h : id ≠ place) (entry : EventEntry κ)
    (table : List (Nat × Listener κ)) :
    ((entry.update table place).map (·.1)).count id ≤ (table.map (·.1)).count id := by
  have hnew : ((entry.registered?.toList.map fun l => (place, l)).map (·.1)).count id = 0 := by
    refine List.count_eq_zero.mpr fun hmem => h ?_
    cases hregister : entry.registered? <;> simp_all
  rw [update, List.map_append, List.count_append, hnew, Nat.add_zero]
  exact (List.filter_sublist.map _).count_le id

end EventEntry

namespace EventLog

/-- The listeners that are registered, each with its place, in the order in which they registered. -/
def table (log : EventLog κ) : List (Nat × Listener κ) :=
  log.zipIdx.foldl (fun table x => x.1.update table x.2) []

/-- The listeners of an event that are registered, each with its place. -/
def found (log : EventLog κ) (event : Event) : List (Nat × Listener κ) :=
  log.table.filter fun x => x.2.event = event

/-- The places of the listeners of an event that are registered. -/
def listenersOf (log : EventLog κ) (event : Event) : List Nat :=
  (log.found event).map (·.1)

/-- The listeners that a trigger has called, in order. -/
def callsOf (log : EventLog κ) (t : Nat) : List Nat :=
  log.filterMap (EventEntry.callOf? t)

/-- How often a listener is called. -/
def timesCalled (log : EventLog κ) (id : Nat) : Nat :=
  log.countP (·.calls id)

/-- At a place in the log, the listener has registered before and has not been removed since. -/
def Registered (log : EventLog κ) (place id : Nat) (l : Listener κ) : Prop :=
  id < place ∧ log[id]? = some (.enrol (.register l)) ∧
    ∀ k entry, id < k → k < place → log[k]? = some entry → entry.removes l = false

/-- What triggers do with the listeners. -/
structure Delivers (log : EventLog κ) : Prop where
  /-- A trigger calls those that are registered for its event when it happens, in the order in which
  they registered and each of them once. By the time that it is done, it leaves out nobody. -/
  trigger : ∀ {t : Nat} {event : Event}, log[t]? = some (.trigger event) → ∃ left,
    (log.callsOf t ++ left).Pairwise (· < ·) ∧
    (∀ id, id ∈ log.callsOf t ++ left ↔ ∃ l, log.Registered t id l ∧ l.event = event) ∧
    (.done t ∈ log → left = [])
  /-- Nobody is called but by a trigger that has happened before. -/
  call : ∀ {k t id : Nat}, log[k]? = some (.call t id) →
    t < k ∧ ∃ event, log[t]? = some (.trigger event)
  /-- A listener for one call is called no more than once, by whatever triggers. -/
  once : ∀ {id : Nat} {l : Listener κ}, log[id]? = some (.enrol (.register l)) → l.once = true →
    log.timesCalled id ≤ 1
  /-- Of those that are registered, exactly the ones of the namespace are removed, and of these only
  the ones for the event if there is one. -/
  off : ∀ {k : Nat} {event : Option Event} {name : String},
    log[k]? = some (.enrol (.off event name)) → ∀ id l, log.Registered (k + 1) id l ↔
      log.Registered k id l ∧ ¬(l.namespace = some name ∧ (event = none ∨ event = some l.event))

/-! ### Who is registered -/

/-- What has happened stays where it is when more happens. -/
theorem getElem?_append_of_eq_some {log more : EventLog κ} {k : Nat} {entry : EventEntry κ}
    (h : log[k]? = some entry) : (log ++ more)[k]? = some entry := by
  rw [List.getElem?_append_left (List.getElem?_eq_some_iff.mp h).1, h]

theorem getElem?_concat_eq_some {log : EventLog κ} {entry other : EventEntry κ} {k : Nat} :
    (log ++ [entry])[k]? = some other ↔
      log[k]? = some other ∨ (k = log.length ∧ entry = other) := by
  rcases Nat.lt_trichotomy k log.length with hk | rfl | hk
  · rw [List.getElem?_append_left hk]
    exact ⟨.inl, fun h => h.resolve_right fun hlast => hk.ne hlast.1⟩
  · simp
  · rw [List.getElem?_eq_none (by simp; omega), List.getElem?_eq_none hk.le]
    simp [hk.ne']

section Registered

variable {log more : EventLog κ} {entry : EventEntry κ} {place id : Nat} {l : Listener κ}

theorem table_concat (log : EventLog κ) (entry : EventEntry κ) :
    table (log ++ [entry]) = entry.update log.table log.length := by
  simp [table, List.zipIdx_append]

/-- One step further, those are registered who were so before and are not removed, and who registers
there. -/
theorem registered_succ (hentry : log[place]? = some entry) :
    log.Registered (place + 1) id l ↔
      (log.Registered place id l ∧ entry.removes l = false) ∨
        (id = place ∧ entry = .enrol (.register l)) := by
  constructor
  · rintro ⟨hlt, hregister, hkeep⟩
    rcases Nat.lt_succ_iff_lt_or_eq.mp hlt with hbefore | rfl
    · refine .inl ⟨⟨hbefore, hregister, fun k other hid hk => ?_⟩, ?_⟩
      · exact hkeep k other hid (Nat.lt_succ_of_lt hk)
      · exact hkeep place entry hbefore (Nat.lt_succ_self place) hentry
    · exact .inr ⟨rfl, Option.some.inj (hentry.symm.trans hregister)⟩
  · rintro (⟨⟨hlt, hregister, hkeep⟩, hstays⟩ | ⟨rfl, rfl⟩)
    · refine ⟨Nat.lt_succ_of_lt hlt, hregister, fun k other hid hk hother => ?_⟩
      rcases Nat.lt_succ_iff_lt_or_eq.mp hk with hbefore | rfl
      · exact hkeep k other hid hbefore hother
      · rwa [← Option.some.inj (hentry.symm.trans hother)]
    · exact ⟨Nat.lt_succ_self id, hentry, fun k other hid hk => by omega⟩

/-- What happens later does not matter for who is registered. -/
theorem registered_append (h : place ≤ log.length) :
    Registered (log ++ more) place id l ↔ log.Registered place id l := by
  have hget {k : Nat} (hk : k < place) : (log ++ more)[k]? = log[k]? :=
    List.getElem?_append_left (hk.trans_le h)
  refine and_congr_right fun hlt => and_congr (by rw [hget hlt]) ?_
  refine forall₂_congr fun k other => forall₂_congr fun _ hk => ?_
  rw [hget hk]

theorem mem_table : (id, l) ∈ log.table ↔ log.Registered log.length id l := by
  induction log using List.reverseRecOn with
  | nil => simp [table, Registered]
  | append_singleton log entry ih =>
      have hlast : (log ++ [entry])[log.length]? = some entry := by simp
      rw [table_concat, EventEntry.mem_update, ih, List.length_append, List.length_singleton,
        registered_succ hlast, registered_append le_rfl]

theorem lt_length_of_mem_table {x : Nat × Listener κ} (h : x ∈ log.table) : x.1 < log.length :=
  (mem_table.mp h).1

/-- The table is in the order in which the listeners registered. -/
theorem pairwise_table (log : EventLog κ) : (log.table.map (·.1)).Pairwise (· < ·) := by
  induction log using List.reverseRecOn with
  | nil => simp [table]
  | append_singleton log entry ih =>
      rw [table_concat, EventEntry.update, List.map_append, List.pairwise_append]
      refine ⟨ih.sublist (List.filter_sublist.map _), ?_, fun id hid place hplace => ?_⟩
      · cases entry.registered? <;> simp
      · obtain ⟨x, hx, rfl⟩ := List.mem_map.mp hid
        have hplace : place = log.length := by
          cases hregister : entry.registered? <;> simp_all
        rw [hplace]
        exact lt_length_of_mem_table (List.mem_of_mem_filter hx)

theorem pairwise_listenersOf (log : EventLog κ) (event : Event) :
    (log.listenersOf event).Pairwise (· < ·) :=
  (pairwise_table log).sublist (List.filter_sublist.map _)

theorem mem_listenersOf {event : Event} :
    id ∈ log.listenersOf event ↔ ∃ l, log.Registered log.length id l ∧ l.event = event := by
  simp [listenersOf, found, mem_table]

/-- A trigger takes a listener for one call out of the table if it is going to call it. -/
theorem count_listenersOf_le (event : Event) (place : Nat)
    (hl : log[id]? = some (.enrol (.register l))) (honce : l.once = true) :
    (log.listenersOf event).count id +
        ((EventEntry.update log.table place (.trigger event)).map (·.1)).count id ≤
      (log.table.map (·.1)).count id := by
  have hupdate : EventEntry.update log.table place (.trigger event) =
      log.table.filter fun x => !(x.2.event = event && x.2.once) := by
    simp [EventEntry.update, EventEntry.removes, EventEntry.registered?]
  have hsame {l' : Listener κ} (h : (id, l') ∈ log.table) : l' = l := by
    simpa [hl] using (mem_table.mp h).2.1.symm
  rw [hupdate]
  by_cases hevent : l.event = event
  · have hgone : id ∉ (log.table.filter fun x => !(x.2.event = event && x.2.once)).map (·.1) := by
      rintro hmem
      obtain ⟨⟨_, l'⟩, hfound, rfl⟩ := List.mem_map.mp hmem
      obtain ⟨htable, hstays⟩ := List.mem_filter.mp hfound
      simp [hsame htable, hevent, honce] at hstays
    rw [List.count_eq_zero.mpr hgone, Nat.add_zero]
    exact (List.filter_sublist.map _).count_le id
  · have hother : id ∉ log.listenersOf event := by
      rw [mem_listenersOf]
      rintro ⟨l', hl', hevent'⟩
      exact hevent (hsame (mem_table.mpr hl') ▸ hevent')
    rw [List.count_eq_zero.mpr hother, Nat.zero_add]
    exact (List.filter_sublist.map _).count_le id

end Registered

theorem callsOf_concat (log : EventLog κ) (entry : EventEntry κ) (t : Nat) :
    callsOf (log ++ [entry]) t = log.callsOf t ++ (entry.callOf? t).toList := by
  cases h : entry.callOf? t <;> simp [callsOf, h]

theorem timesCalled_concat (log : EventLog κ) (entry : EventEntry κ) (id : Nat) :
    timesCalled (log ++ [entry]) id = log.timesCalled id + if entry.calls id then 1 else 0 := by
  simp [timesCalled, List.countP_append, List.countP_singleton]

/-! ### The listeners themselves -/

/-- The listeners that are registered. -/
def listeners (log : EventLog κ) : List (Listener κ) :=
  log.table.map (·.2)

theorem listeners_concat (log : EventLog κ) (entry : EventEntry κ) :
    listeners (log ++ [entry]) =
      (log.listeners.filter fun l => !entry.removes l) ++ entry.registered?.toList := by
  simp [listeners, table_concat, EventEntry.update, List.filter_map, Function.comp_def]

theorem listeners_enrol (log : EventLog κ) (change : Enrolment κ) :
    listeners (log ++ [.enrol change]) = change.apply log.listeners := by
  rw [listeners_concat]
  cases change with
  | register l => simp [EventEntry.removes, EventEntry.registered?, Enrolment.apply]
  | off event name =>
      have hkeep (l : Listener κ) : (!EventEntry.removes l (.enrol (.off event name))) =
          (l.namespace != some name || event.any (· != l.event)) := by
        cases event <;> simp [EventEntry.removes, bne, beq_eq_decide]
      simp only [hkeep, EventEntry.registered?, Enrolment.apply, Listener.off, Option.toList_none,
        List.append_nil]

theorem listeners_enrols (log : EventLog κ) (changes : List (Enrolment κ)) :
    listeners (log ++ changes.map .enrol) = changes.foldl Enrolment.apply log.listeners := by
  induction changes generalizing log with
  | nil => simp
  | cons change rest ih =>
      rw [List.map_cons, List.append_cons, ih, listeners_enrol, List.foldl_cons]

theorem listeners_trigger (log : EventLog κ) (event : Event) :
    listeners (log ++ [.trigger event]) = (Listener.take log.listeners event).2 := by
  simp [listeners_concat, EventEntry.removes, EventEntry.registered?, Listener.take]

theorem listeners_call (log : EventLog κ) (t id : Nat) :
    listeners (log ++ [.call t id]) = log.listeners := by
  simp [listeners_concat, EventEntry.removes, EventEntry.registered?]

theorem listeners_done (log : EventLog κ) (t : Nat) :
    listeners (log ++ [.done t]) = log.listeners := by
  simp [listeners_concat, EventEntry.removes, EventEntry.registered?]

/-- What the listeners do that are found. -/
theorem map_action_found (log : EventLog κ) (event : Event) :
    (log.found event).map (·.2.action) = (Listener.take log.listeners event).1 := by
  simp [found, listeners, Listener.take, List.filter_map, Function.comp_def]

/-! ### What is under way -/

/-- The log is one in which the triggers are under way that are listed, the innermost one first, each
with those that it still has to call. -/
inductive Opens : EventLog κ → List (Nat × List Nat) → Prop
  | start : Opens [] []
  | enrol {log : EventLog κ} {rounds : List (Nat × List Nat)} (h : Opens log rounds)
      (change : Enrolment κ) : Opens (log ++ [.enrol change]) rounds
  | trigger {log : EventLog κ} {rounds : List (Nat × List Nat)} (h : Opens log rounds)
      (event : Event) :
      Opens (log ++ [.trigger event]) ((log.length, log.listenersOf event) :: rounds)
  | call {log : EventLog κ} {rounds : List (Nat × List Nat)} {t id : Nat} {left : List Nat}
      (h : Opens log ((t, id :: left) :: rounds)) : Opens (log ++ [.call t id]) ((t, left) :: rounds)
  | done {log : EventLog κ} {rounds : List (Nat × List Nat)} {t : Nat}
      (h : Opens log ((t, []) :: rounds)) : Opens (log ++ [.done t]) rounds

namespace Opens

variable {log : EventLog κ} {rounds : List (Nat × List Nat)} {t id : Nat} {left : List Nat}

theorem enrols (h : Opens log rounds) (changes : List (Enrolment κ)) :
    Opens (log ++ changes.map .enrol) rounds := by
  induction changes generalizing log with
  | nil => simpa using h
  | cons change rest ih =>
      rw [List.map_cons, List.append_cons]
      exact ih (h.enrol change)

/-- A trigger that is under way has happened. -/
theorem exists_trigger (h : Opens log rounds) (hround : (t, left) ∈ rounds) :
    ∃ event, log[t]? = some (.trigger event) := by
  induction h generalizing left with
  | start => cases hround
  | enrol _ change ih => exact (ih hround).imp fun _ => getElem?_append_of_eq_some
  | trigger _ event ih =>
      rcases List.mem_cons.mp hround with heq | hround
      · obtain ⟨rfl, rfl⟩ := Prod.mk.inj heq
        exact ⟨event, by simp⟩
      · exact (ih hround).imp fun _ => getElem?_append_of_eq_some
  | call _ ih =>
      refine Exists.imp (fun _ => getElem?_append_of_eq_some) ?_
      rcases List.mem_cons.mp hround with heq | hround
      · obtain ⟨rfl, rfl⟩ := Prod.mk.inj heq
        exact ih List.mem_cons_self
      · exact ih (List.mem_cons_of_mem _ hround)
  | done _ ih => exact (ih (List.mem_cons_of_mem _ hround)).imp fun _ => getElem?_append_of_eq_some

theorem lt_length (h : Opens log rounds) (hround : (t, left) ∈ rounds) : t < log.length := by
  obtain ⟨event, hevent⟩ := h.exists_trigger hround
  exact (List.getElem?_eq_some_iff.mp hevent).1

/-- No trigger is under way twice. -/
theorem nodup (h : Opens log rounds) : (rounds.map (·.1)).Nodup := by
  induction h with
  | start => exact .nil
  | enrol _ change ih => exact ih
  | trigger h event ih =>
      refine List.nodup_cons.mpr ⟨fun hmem => ?_, ih⟩
      obtain ⟨⟨t, left⟩, hround, rfl⟩ := List.mem_map.mp hmem
      exact absurd (h.lt_length hround) (Nat.lt_irrefl _)
  | call _ ih => exact ih
  | done _ ih => exact (List.nodup_cons.mp ih).2

/-- Who is still to be called has registered. -/
theorem lt_length_of_left (h : Opens log rounds) (hid : id ∈ rounds.flatMap (·.2)) :
    id < log.length := by
  induction h with
  | start => cases hid
  | enrol _ change ih => exact (ih hid).trans (by simp)
  | @trigger log rounds _ event ih =>
      rw [List.flatMap_cons, List.mem_append] at hid
      refine Nat.lt_of_lt_of_le (m := log.length) ?_ (by simp)
      rcases hid with hid | hid
      · obtain ⟨l, hl, -⟩ := mem_listenersOf.mp hid
        exact hl.1
      · exact ih hid
  | call _ ih => exact (ih (by simp_all)).trans (by simp)
  | done _ ih => exact (ih (by simp_all)).trans (by simp)

/-- A call is by a trigger that has happened, of a listener that has registered. -/
theorem of_call (h : Opens log rounds) {k : Nat} (hcall : log[k]? = some (.call t id)) :
    id < k ∧ t < k ∧ ∃ event, log[t]? = some (.trigger event) := by
  have later {log : EventLog κ} {entry : EventEntry κ}
      (h : id < k ∧ t < k ∧ ∃ event, log[t]? = some (.trigger event)) :
      id < k ∧ t < k ∧ ∃ event, (log ++ [entry])[t]? = some (.trigger event) :=
    ⟨h.1, h.2.1, h.2.2.imp fun _ => getElem?_append_of_eq_some⟩
  induction h with
  | start => cases hcall
  | call h ih =>
      rcases getElem?_concat_eq_some.mp hcall with hbefore | ⟨rfl, hlast⟩
      · exact later (ih hbefore)
      · cases hlast
        have htrigger := h.exists_trigger List.mem_cons_self
        exact ⟨h.lt_length_of_left (by simp), h.lt_length List.mem_cons_self,
          htrigger.imp fun _ => getElem?_append_of_eq_some⟩
  | _ => exact later (by rename_i ih; exact ih ((getElem?_concat_eq_some.mp hcall).resolve_right nofun))

/-- Nobody is called who has not registered. -/
theorem timesCalled_eq_zero (h : Opens log rounds) (hid : log.length ≤ id) :
    log.timesCalled id = 0 := by
  refine List.countP_eq_zero.mpr fun entry hentry hcalls => ?_
  obtain ⟨k, hk⟩ := List.mem_iff_getElem?.mp hentry
  cases entry with
  | call t id' =>
      have hlt : k < log.length := (List.getElem?_eq_some_iff.mp hk).1
      have hbefore := (h.of_call hk).1
      simp only [EventEntry.calls, decide_eq_true_eq] at hcalls
      omega
  | _ => simp [EventEntry.calls] at hcalls

/-- What has not happened calls nobody. -/
theorem callsOf_eq_nil (h : Opens log rounds) (ht : log.length ≤ t) : log.callsOf t = [] := by
  refine List.filterMap_eq_nil_iff.mpr fun entry hentry => ?_
  obtain ⟨k, hk⟩ := List.mem_iff_getElem?.mp hentry
  cases entry with
  | call t' id =>
      have hlt : k < log.length := (List.getElem?_eq_some_iff.mp hk).1
      have hbefore := (h.of_call hk).2.1
      exact if_neg (by omega)
  | _ => rfl

/-- Only what has happened is done. -/
theorem of_done (h : Opens log rounds) (hdone : .done t ∈ log) : t < log.length := by
  induction h with
  | start => cases hdone
  | done h ih =>
      refine Nat.lt_of_lt_of_le (m := List.length _) ?_ (List.length_append ▸ Nat.le_add_right _ _)
      rcases List.mem_append.mp hdone with hbefore | hlast
      · exact ih hbefore
      · cases List.mem_singleton.mp hlast
        exact h.lt_length List.mem_cons_self
  | _ =>
      rename_i ih
      exact (ih (by simpa using hdone)).trans (by simp)

/-- What is under way is not done. -/
theorem not_done (h : Opens log rounds) (hround : (t, left) ∈ rounds) : .done t ∉ log := by
  induction h generalizing left with
  | start => cases hround
  | enrol _ change ih => simpa using ih hround
  | trigger h event ih =>
      rcases List.mem_cons.mp hround with heq | hround
      · obtain ⟨rfl, rfl⟩ := Prod.mk.inj heq
        exact fun hdone => (h.of_done (by simpa using hdone)).false
      · simpa using ih hround
  | call _ ih =>
      rcases List.mem_cons.mp hround with heq | hround
      · obtain ⟨rfl, rfl⟩ := Prod.mk.inj heq
        simpa using ih List.mem_cons_self
      · simpa using ih (List.mem_cons_of_mem _ hround)
  | @done log rounds t' h ih =>
      have hne : t ≠ t' := by
        rintro rfl
        have hmem : t ∈ rounds.map (·.1) := List.mem_map.mpr ⟨_, hround, rfl⟩
        exact (List.nodup_cons.mp h.nodup).1 hmem
      simpa [hne] using ih (List.mem_cons_of_mem _ hround)

/-- What a trigger under way still has to call is settled. -/
theorem left_unique {left' : List Nat} (h : Opens log ((t, left) :: rounds))
    (hround : (t, left') ∈ (t, left) :: rounds) : left' = left := by
  rcases List.mem_cons.mp hround with heq | hround
  · exact (Prod.mk.inj heq).2
  · have hmem : t ∈ rounds.map (·.1) := List.mem_map.mpr ⟨_, hround, rfl⟩
    exact absurd hmem (List.nodup_cons.mp h.nodup).1

/-- Of those that a trigger has found, it has called the first ones, and it has the others still to
call unless it is done. -/
def Accounts (log : EventLog κ) (rounds : List (Nat × List Nat)) (t : Nat) (event : Event) : Prop :=
  ∃ left, log.callsOf t ++ left = listenersOf (log.take t) event ∧
    ((t, left) ∈ rounds ∨ left = [] ∧ .done t ∈ log)

/-- The account stays as it is while the trigger calls nobody. -/
theorem Accounts.concat {rounds' : List (Nat × List Nat)} {event : Event} {entry : EventEntry κ}
    (h : Accounts log rounds t event) (ht : t ≤ log.length) (hcall : entry.callOf? t = none)
    (hrounds : ∀ left, (t, left) ∈ rounds → (t, left) ∈ rounds' ∨ left = [] ∧ entry = .done t) :
    Accounts (log ++ [entry]) rounds' t event := by
  obtain ⟨left, hfound, hleft⟩ := h
  refine ⟨left, ?_, ?_⟩
  · rw [callsOf_concat, hcall, List.take_append_of_le_length ht, ← hfound]
    simp
  · rcases hleft with hround | ⟨hnone, hdone⟩
    · exact (hrounds left hround).imp_right fun ⟨hnone, hlast⟩ => ⟨hnone, by simp [hlast]⟩
    · exact .inr ⟨hnone, List.mem_append_left _ hdone⟩

theorem account (h : Opens log rounds) {event : Event} (ht : log[t]? = some (.trigger event)) :
    Accounts log rounds t event := by
  have hle {log : EventLog κ} (ht : log[t]? = some (.trigger event)) : t ≤ log.length :=
    (List.getElem?_eq_some_iff.mp ht).1.le
  induction h with
  | start => cases ht
  | enrol _ change ih =>
      replace ht := (getElem?_concat_eq_some.mp ht).resolve_right nofun
      exact (ih ht).concat (hle ht) rfl fun _ => .inl
  | @trigger log rounds h event ih =>
      rcases getElem?_concat_eq_some.mp ht with ht | ⟨rfl, hlast⟩
      · exact (ih ht).concat (hle ht) rfl fun _ hround => .inl (List.mem_cons_of_mem _ hround)
      · cases hlast
        refine ⟨log.listenersOf event, ?_, .inl List.mem_cons_self⟩
        rw [callsOf_concat, h.callsOf_eq_nil le_rfl, List.take_left]
        rfl
  | @call log rounds t' id left' h ih =>
      replace ht := (getElem?_concat_eq_some.mp ht).resolve_right nofun
      by_cases hthis : t' = t
      · subst hthis
        obtain ⟨left, hfound, hround | ⟨-, hdone⟩⟩ := ih ht
        -- the call is of the first of those that were left
        · cases h.left_unique hround
          refine ⟨left', ?_, .inl List.mem_cons_self⟩
          rw [callsOf_concat, List.take_append_of_le_length (hle ht), ← hfound]
          simp [EventEntry.callOf?]
        · exact absurd hdone (h.not_done List.mem_cons_self)
      · refine (ih ht).concat (hle ht) (if_neg hthis) fun left hround => ?_
        rcases List.mem_cons.mp hround with heq | hround
        · exact absurd (Prod.mk.inj heq).1.symm hthis
        · exact .inl (List.mem_cons_of_mem _ hround)
  | done _ ih =>
      replace ht := (getElem?_concat_eq_some.mp ht).resolve_right nofun
      refine (ih ht).concat (hle ht) rfl fun left hround => ?_
      rcases List.mem_cons.mp hround with heq | hround
      · obtain ⟨rfl, rfl⟩ := Prod.mk.inj heq
        exact .inr ⟨rfl, rfl⟩
      · exact .inl hround

/-- A listener for one call has been called, is still to be called or is registered, and this only
once in all. -/
theorem count_le (h : Opens log rounds) {l : Listener κ}
    (hl : log[id]? = some (.enrol (.register l))) (honce : l.once = true) :
    log.timesCalled id + (rounds.flatMap (·.2)).count id + (log.table.map (·.1)).count id ≤ 1 := by
  induction h with
  | start => cases hl
  | @enrol log rounds h change ih =>
      rcases getElem?_concat_eq_some.mp hl with hl | ⟨rfl, hlast⟩
      · have hlt : id < log.length := (List.getElem?_eq_some_iff.mp hl).1
        have htable := EventEntry.count_update_le hlt.ne (.enrol change) log.table
        rw [timesCalled_concat, table_concat]
        exact (Nat.add_le_add_left htable _).trans (ih hl)
      · cases hlast
        -- who registers here has a place that nothing before knows of
        have hcalls := h.timesCalled_eq_zero le_rfl
        have hleft : (rounds.flatMap (·.2)).count log.length = 0 :=
          List.count_eq_zero.mpr fun hmem => (h.lt_length_of_left hmem).false
        have htable : ((log.table.filter fun x => !EventEntry.removes x.2 (.enrol (.register l))).map
            (·.1)).count log.length = 0 := by
          refine List.count_eq_zero.mpr fun hmem => ?_
          obtain ⟨x, hx, hplace⟩ := List.mem_map.mp hmem
          exact (lt_length_of_mem_table (List.mem_of_mem_filter hx)).ne hplace
        rw [timesCalled_concat, table_concat, EventEntry.update, List.map_append, List.count_append, hcalls,
          hleft, htable]
        simp [EventEntry.calls, EventEntry.registered?]
  | @trigger log rounds h event ih =>
      replace hl := (getElem?_concat_eq_some.mp hl).resolve_right nofun
      -- what the trigger is going to call is not in the table any more
      have htable := count_listenersOf_le event log.length hl honce
      have hbefore := ih hl
      have hcalls : timesCalled (log ++ [.trigger event]) id = log.timesCalled id :=
        timesCalled_concat log (.trigger event) id
      rw [hcalls, table_concat, List.flatMap_cons, List.count_append]
      dsimp only
      omega
  | @call log rounds t' id' left' h ih =>
      replace hl := (getElem?_concat_eq_some.mp hl).resolve_right nofun
      have hlt : id < log.length := (List.getElem?_eq_some_iff.mp hl).1
      have htable := EventEntry.count_update_le hlt.ne (.call t' id') log.table
      have hbefore := ih hl
      rw [timesCalled_concat, table_concat]
      simp only [List.flatMap_cons, List.count_append, List.count_cons, beq_iff_eq,
        EventEntry.calls, decide_eq_true_eq] at hbefore ⊢
      omega
  | @done log rounds t' h ih =>
      replace hl := (getElem?_concat_eq_some.mp hl).resolve_right nofun
      have hlt : id < log.length := (List.getElem?_eq_some_iff.mp hl).1
      have htable := EventEntry.count_update_le hlt.ne (.done t') log.table
      rw [timesCalled_concat, table_concat]
      exact (Nat.add_le_add_left htable _).trans (ih hl)

/-- Triggers call those that are registered, and listeners for one call no more than once. -/
theorem delivers (h : Opens log rounds) : log.Delivers where
  trigger := by
    intro t event ht
    obtain ⟨left, hfound, hleft⟩ := h.account ht
    have hlt : t < log.length := (List.getElem?_eq_some_iff.mp ht).1
    have hlength : (log.take t).length = t := List.length_take_of_le hlt.le
    refine ⟨left, hfound ▸ pairwise_listenersOf _ event, fun id => ?_, fun hdone => ?_⟩
    · rw [hfound, mem_listenersOf, hlength]
      refine exists_congr fun l => and_congr_left fun _ => ?_
      have hbefore : Registered (log.take t ++ log.drop t) t id l ↔ Registered (log.take t) t id l :=
        registered_append hlength.ge
      rwa [List.take_append_drop, Iff.comm] at hbefore
    · rcases hleft with hround | ⟨hnone, -⟩
      · exact absurd hdone (h.not_done hround)
      · exact hnone
  call := fun hcall => (h.of_call hcall).2
  once := fun hl honce => by
    have := h.count_le hl honce
    omega
  off := by
    intro k event name hoff id l
    rw [registered_succ hoff, EventEntry.removes_off_eq_false]
    exact or_iff_left fun hlast => nomatch hlast.2

end Opens

end EventLog

end StoryEngine
