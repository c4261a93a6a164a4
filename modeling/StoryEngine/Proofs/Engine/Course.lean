import StoryEngine.Proofs.Engine.Record
/-!
# StoryEngine.Proofs.Engine.Course

What a record says about the texts of a turn if there is one text at a time, that is, if its notices
follow each other as `Phase.Step` allows. They are started in the order of the queue, and each of
them once. At most one is animated, and the next one is not started before the typing of that has
stopped (`OneAtATime`). That the typing of all of them has stopped is announced when, and only when,
the typing of the last one in the queue has (`Announced`).
-/

namespace StoryEngine

/-! ### Statements about a record -/

namespace Occurrence

/-- The text of the turn to be started next, if the occurrence has a say in that. -/
def next? : Occurrence → Option Nat
  | turn first => some first
  | started id => some (id + 1)
  | _ => none

def isTurn : Occurrence → Bool
  | turn _ => true
  | _ => false

def isStart : Occurrence → Bool
  | started _ => true
  | _ => false

end Occurrence

/-- No turn begins in the record. -/
def Record.InTurn (record : Record) : Prop :=
  ∀ m ∈ record, m.what.isTurn = false

/-- A notice of the first kind is in the record, and all those after it are of the second kind. -/
def Since (p q : Notice → Prop) (record : Record) : Prop :=
  ∃ before m between, record = before ++ m :: between ∧ p m ∧ ∀ m' ∈ between, q m'

/-- There is one text at a time. -/
structure OneAtATime (record : Record) : Prop where
  /-- The queue has the texts in the order in which they got their identities, with none left out. -/
  queue {m : Notice} (h : m ∈ record) : ∃ first, m.queue = List.range' first m.queue.length
  /-- The first text of the queue is started. -/
  first {m : Notice} {id : Nat} (h : m ∈ record) (hstart : m.what = .started id) :
    m.queue.head? = some id
  /-- The texts of a turn are started in order, and each of them once. -/
  order {before between after : Record} {m m' : Notice} {next id : Nat}
    (h : record = before ++ m :: (between ++ m' :: after)) (hturn : between.InTurn)
    (hnext : m.what.next? = some next) (hstart : m'.what = .started id) :
    id = next + between.countP fun m => m.what.isStart
  /-- One text at most is animated. -/
  single {m : Notice} (h : m ∈ record) : m.animating.length ≤ 1
  /-- The text that begins to be typed is animated. It has been started last, and begins once. -/
  begun {before after : Record} {m : Notice} (h : record = before ++ m :: after)
    (hbegun : m.what = .begun) : ∃ id, m.animating = [id] ∧
      Since (fun m => m.what = .started id) (fun m => m.what.next? = none ∧ m.what ≠ .begun) before
  /-- The text that is typed out has begun to be typed, and no other text has since. -/
  ended {before after : Record} {m : Notice} (h : record = before ++ m :: after)
    (hended : m.what = .ended) : Since (fun m => m.what = .begun)
      (fun m => m.what.next? = none ∧ m.what ≠ .begun ∧ m.what ≠ .ended) before
  /-- No text of a turn begins to be typed before the one that began before it is typed out. -/
  alternate {before between after : Record} {m m' : Notice}
    (h : record = before ++ m :: (between ++ m' :: after)) (hturn : between.InTurn)
    (hbegun : m.what = .begun) (hbegun' : m'.what = .begun) : ∃ m'' ∈ between, m''.what = .ended
  /-- No text of a turn is started before the one that is animated is typed out. -/
  wait {before between after : Record} {m m' : Notice} {id : Nat}
    (h : record = before ++ m :: (between ++ m' :: after)) (hturn : between.InTurn)
    (hanimated : m.animating ≠ []) (hstart : m'.what = .started id) :
    ∃ m'' ∈ between, m''.what = .ended

/-- It is announced that all texts are typed out right after the last text of the queue is, unless the
record has been cut off there, and at no other time. -/
structure Announced (isCut : Prop) (record : Record) : Prop where
  completed {before after : Record} {m : Notice} (h : record = before ++ m :: after)
    (hcompleted : m.what = .completed) :
    ∃ earlier m', before = earlier ++ [m'] ∧ m'.what = .ended ∧ m'.queue = []
  ended {before after : Record} {m : Notice} (h : record = before ++ m :: after)
    (hended : m.what = .ended) (hqueue : m.queue = []) :
    (∃ m' later, after = m' :: later ∧ m'.what = .completed) ∨ after = [] ∧ isCut

/-! ### Phases -/

namespace Since

variable {p q : Notice → Prop} {record : Record} {m : Notice}

theorem now (h : p m) : Since p q (record ++ [m]) :=
  ⟨record, m, [], rfl, h, fun _ h => by cases h⟩

theorem later (h : Since p q record) (hm : q m) : Since p q (record ++ [m]) := by
  obtain ⟨before, m₀, between, rfl, hp, hq⟩ := h
  refine ⟨before, m₀, between ++ [m], List.append_assoc _ _ _, hp, fun m' hm' => ?_⟩
  rcases List.mem_append.mp hm' with hold | hnew
  · exact hq m' hold
  · rw [List.mem_singleton.mp hnew]
    exact hm

end Since

namespace Phase

/-- The text of the turn to be started next. -/
def next : Phase → Nat
  | idle next => next
  | started id => id + 1
  | waiting id => id + 1
  | typing id => id + 1
  | drained next => next

/-- A text is animated. -/
def isAnimated : Phase → Bool
  | waiting _ => true
  | typing _ => true
  | _ => false

def isTyping : Phase → Bool
  | typing _ => true
  | _ => false

namespace Step

variable {phase phase' : Phase} {m : Notice}

theorem queue_eq (h : phase.Step m phase') : ∃ first, m.queue = List.range' first m.queue.length := by
  cases h with
  | turn | stopLast | complete => exact ⟨0, rfl⟩
  | _ => exact ⟨_, by rw [List.length_range']⟩

theorem length_animating (h : phase.Step m phase') : m.animating.length ≤ 1 := by
  cases h <;> simp

theorem next_eq (h : phase.Step m phase') : phase'.next = m.what.next?.getD phase.next := by
  cases h <;> rfl

/-- The text that is started has its turn, and is the first of the queue. -/
theorem started (h : phase.Step m phase') {id : Nat} (hstart : m.what = .started id) :
    id = phase.next ∧ m.queue.head? = some id := by
  cases h <;> cases hstart <;> exact ⟨rfl, rfl⟩

theorem isAnimated_of_animating (h : phase.Step m phase') (hm : m.animating ≠ []) :
    phase'.isAnimated = true := by
  cases h with
  | begin | beginWaiting | wait | waiting | typing => rfl
  | _ => exact (hm rfl).elim

/-- A text is animated until its typing stops or the turn is over. -/
theorem isAnimated (h : phase.Step m phase') (hphase : phase.isAnimated = true)
    (hended : m.what ≠ .ended) (hturn : m.what.isTurn = false) : phase'.isAnimated = true := by
  cases h with
  | stop | stopLast => exact (hended rfl).elim
  | turn => cases hturn
  | beginWaiting | waiting | typing => rfl
  | _ => cases hphase

/-- No text is started while another one is animated. -/
theorem not_started (h : phase.Step m phase') (hphase : phase.isAnimated = true) {id : Nat} :
    m.what ≠ .started id := by
  cases h with
  | first | next => cases hphase
  | _ => exact fun h => by cases h

theorem isTyping_of_begun (h : phase.Step m phase') (hbegun : m.what = .begun) :
    phase'.isTyping = true := by
  cases h with
  | begin | beginWaiting => rfl
  | _ => cases hbegun

/-- A text is typed until its typing stops or the turn is over. -/
theorem isTyping (h : phase.Step m phase') (hphase : phase.isTyping = true)
    (hended : m.what ≠ .ended) (hturn : m.what.isTurn = false) : phase'.isTyping = true := by
  cases h with
  | stop | stopLast => exact (hended rfl).elim
  | turn => cases hturn
  | typing => rfl
  | _ => cases hphase

/-- No text begins to be typed while another one is typed. -/
theorem not_begun (h : phase.Step m phase') (hphase : phase.isTyping = true) : m.what ≠ .begun := by
  cases h with
  | begin | beginWaiting => cases hphase
  | _ => exact fun h => by cases h

end Step

namespace Leads

variable {phase phase' : Phase} {record : Record}

theorem of_append {first second : Record} (h : Leads phase (first ++ second) phase') :
    ∃ phase₁, Leads phase first phase₁ ∧ Leads phase₁ second phase' := by
  generalize hall : first ++ second = all at h
  -- a record grows at its end, and so does its second part unless that is empty
  induction h generalizing second with
  | refl =>
      obtain ⟨rfl, rfl⟩ := List.append_eq_nil_iff.mp hall
      exact ⟨phase, .refl _, .refl _⟩
  | @step phase₂ phase' record m before hstep ih =>
      rcases List.eq_nil_or_concat second with rfl | ⟨init, last, rfl⟩
      · rw [List.append_nil] at hall
        exact ⟨phase', hall ▸ .step before hstep, .refl _⟩
      · rw [List.concat_eq_append, ← List.append_assoc] at hall
        obtain ⟨hinit, hlast⟩ := List.append_inj' hall rfl
        cases hlast
        obtain ⟨phase₁, hfirst, hsecond⟩ := ih hinit
        exact ⟨phase₁, hfirst, by rw [List.concat_eq_append]; exact .step hsecond hstep⟩

theorem eq_of_nil (h : Leads phase [] phase') : phase' = phase := by
  generalize hnil : ([] : Record) = record at h
  cases h with
  | refl => rfl
  | step => exact (List.append_ne_nil_of_right_ne_nil _ (List.cons_ne_nil _ _) hnil.symm).elim

theorem of_cons {m : Notice} {later : Record} (h : Leads phase (m :: later) phase') :
    ∃ phase₁, phase.Step m phase₁ ∧ Leads phase₁ later phase' := by
  rw [← List.singleton_append] at h
  obtain ⟨phase₁, hone, hlater⟩ := h.of_append
  refine ⟨phase₁, ?_, hlater⟩
  generalize hrecord : [m] = record at hone
  cases hone with
  | refl => cases hrecord
  | @step _ _ record m' before hstep =>
      obtain ⟨rfl, hlast⟩ := List.append_inj' (show [] ++ [m] = record ++ [m'] from hrecord) rfl
      cases hlast
      rw [← before.eq_of_nil]
      exact hstep

/-- The record around one of its notices. -/
theorem split {before after : Record} {m : Notice}
    (h : Leads phase (before ++ m :: after) phase') :
    ∃ phase₁ phase₂, Leads phase before phase₁ ∧ phase₁.Step m phase₂ ∧ Leads phase₂ after phase' := by
  obtain ⟨phase₁, hbefore, hrest⟩ := h.of_append
  obtain ⟨phase₂, hstep, hafter⟩ := hrest.of_cons
  exact ⟨phase₁, phase₂, hbefore, hstep, hafter⟩

/-- The record around two of its notices. -/
theorem split_between {before between after : Record} {m m' : Notice}
    (h : Leads phase (before ++ m :: (between ++ m' :: after)) phase') :
    ∃ phase₁ phase₂ phase₃ phase₄ : Phase,
      phase₁.Step m phase₂ ∧ Leads phase₂ between phase₃ ∧ phase₃.Step m' phase₄ := by
  obtain ⟨phase₁, phase₂, -, hfirst, hrest⟩ := h.split
  obtain ⟨phase₃, phase₄, hbetween, hsecond, -⟩ := hrest.split
  exact ⟨phase₁, phase₂, phase₃, phase₄, hfirst, hbetween, hsecond⟩

theorem step_of_mem {m : Notice} (h : Leads phase record phase') (hm : m ∈ record) :
    ∃ phase₁ phase₂ : Phase, phase₁.Step m phase₂ := by
  obtain ⟨before, after, rfl⟩ := List.append_of_mem hm
  obtain ⟨phase₁, phase₂, -, hstep, -⟩ := h.split
  exact ⟨phase₁, phase₂, hstep⟩

/-- No text is left out within a turn. -/
theorem next_eq (h : Leads phase record phase') (hturn : record.InTurn) :
    phase'.next = phase.next + record.countP fun m => m.what.isStart := by
  induction h with
  | refl => rfl
  | @step phase₁ phase' record m _ hstep ih =>
      have hfirst := ih fun m' hm' => hturn m' (List.mem_append_left _ hm')
      have hm : m.what.isTurn = false := hturn m (List.mem_append_right _ List.mem_cons_self)
      rw [hstep.next_eq, List.countP_append, List.countP_singleton]
      cases hwhat : m.what with
      | turn first => rw [hwhat] at hm; cases hm
      | started id =>
          rw [(hstep.started hwhat).1, hfirst]
          rfl
      | _ => exact hfirst

/-- What would last until a text is typed out or the turn is over has not: so a text has been typed
out. -/
theorem ended_of_not {P : Phase → Prop} (hP : ∀ {phase phase' : Phase} {m : Notice},
      phase.Step m phase' → P phase → m.what ≠ .ended → m.what.isTurn = false → P phase')
    (h : Leads phase record phase') (hphase : P phase) (hturn : record.InTurn)
    (hnot : ¬ P phase') : ∃ m ∈ record, m.what = .ended := by
  induction h with
  | refl => exact (hnot hphase).elim
  | @step phase₁ phase' record m _ hstep ih =>
      have hm : m ∈ record ++ [m] := List.mem_append_right _ List.mem_cons_self
      -- the last notice is the one, or it ends nothing, and what would last was over before it
      by_cases hended : m.what = .ended
      · exact ⟨m, hm, hended⟩
      · obtain ⟨m', hm', hended'⟩ := ih (fun m' hm' => hturn m' (List.mem_append_left _ hm'))
          fun hlasts => hnot (hP hstep hlasts hended (hturn m hm))
        exact ⟨m', List.mem_append_left _ hm', hended'⟩

end Leads

/-- What has been noted down about the text that has its turn. -/
def Follows : Phase → Record → Prop
  | idle _, _ => True
  | started id, record => Since (fun m => m.what = .started id)
      (fun m => m.what.next? = none ∧ m.what ≠ .begun) record
  | waiting id, record => Since (fun m => m.what = .started id)
      (fun m => m.what.next? = none ∧ m.what ≠ .begun) record
  | typing _, record => Since (fun m => m.what = .begun)
      (fun m => m.what.next? = none ∧ m.what ≠ .begun ∧ m.what ≠ .ended) record
  | drained _, record => ∃ earlier m, record = earlier ++ [m] ∧ m.what = .ended ∧ m.queue = []

theorem Leads.follows {next : Nat} {record : Record} {phase : Phase}
    (h : Leads (.idle next) record phase) : phase.Follows record := by
  induction h with
  | refl => trivial
  | @step phase₁ phase' record m _ hstep hbefore =>
      cases hstep with
      | turn | stop | complete | idle => trivial
      | first | next => exact .now rfl
      | begin | beginWaiting => exact .now rfl
      | stopLast => exact ⟨record, _, rfl, rfl, rfl⟩
      | rendering | shown | wait | waiting =>
          exact hbefore.later ⟨rfl, fun h => by cases h⟩
      | typing => exact hbefore.later ⟨rfl, fun h => (by cases h), fun h => (by cases h)⟩

/-- A record whose notices follow each other as they may is about one text at a time. -/
theorem Leads.oneAtATime {record : Record} {phase : Phase} (h : Leads (.idle 0) record phase) :
    OneAtATime record where
  queue hm :=
    let ⟨_, _, hstep⟩ := h.step_of_mem hm
    hstep.queue_eq
  first hm hstart :=
    let ⟨_, _, hstep⟩ := h.step_of_mem hm
    (hstep.started hstart).2
  order hrecord hturn hnext hstart := by
    subst hrecord
    obtain ⟨_, _, _, _, hfirst, hbetween, hsecond⟩ := h.split_between
    rw [(hsecond.started hstart).1, hbetween.next_eq hturn, hfirst.next_eq, hnext]
    rfl
  single hm :=
    let ⟨_, _, hstep⟩ := h.step_of_mem hm
    hstep.length_animating
  begun hrecord hbegun := by
    subst hrecord
    obtain ⟨_, _, hbefore, hstep, -⟩ := h.split
    have hfollows := hbefore.follows
    cases hstep with
    | begin | beginWaiting => exact ⟨_, rfl, hfollows⟩
    | _ => cases hbegun
  ended hrecord hended := by
    subst hrecord
    obtain ⟨_, _, hbefore, hstep, -⟩ := h.split
    have hfollows := hbefore.follows
    cases hstep with
    | stop | stopLast => exact hfollows
    | _ => cases hended
  alternate hrecord hturn hbegun hbegun' := by
    subst hrecord
    obtain ⟨_, _, _, _, hfirst, hbetween, hsecond⟩ := h.split_between
    exact hbetween.ended_of_not (P := fun phase => phase.isTyping = true) Step.isTyping
      (hfirst.isTyping_of_begun hbegun) hturn fun htyping => hsecond.not_begun htyping hbegun'
  wait hrecord hturn hanimated hstart := by
    subst hrecord
    obtain ⟨_, _, _, _, hfirst, hbetween, hsecond⟩ := h.split_between
    exact hbetween.ended_of_not (P := fun phase => phase.isAnimated = true) Step.isAnimated
      (hfirst.isAnimated_of_animating hanimated) hturn fun hlasts =>
        hsecond.not_started hlasts hstart

/-- It is announced that all texts are typed out when the last one is. -/
theorem Leads.announced {record : Record} {phase : Phase} {isCut : Prop}
    (h : Leads (.idle 0) record phase) (hcut : ∀ next, phase = .drained next → isCut) :
    Announced isCut record where
  completed hrecord hcompleted := by
    subst hrecord
    obtain ⟨_, _, hbefore, hstep, -⟩ := h.split
    have hfollows := hbefore.follows
    cases hstep with
    | complete => exact hfollows
    | _ => cases hcompleted
  ended {before after m} hrecord hended hqueue := by
    subst hrecord
    obtain ⟨_, phase₂, -, hstep, hafter⟩ := h.split
    have hdrained : ∃ next, phase₂ = .drained next := by
      cases hstep with
      | stopLast => exact ⟨_, rfl⟩
      | stop => cases hqueue
      | _ => cases hended
    obtain ⟨next, rfl⟩ := hdrained
    cases after with
    | nil => exact .inr ⟨rfl, hcut next hafter.eq_of_nil⟩
    | cons m' later =>
        obtain ⟨_, hnext, -⟩ := hafter.of_cons
        cases hnext with
        | turn hnot => exact (hnot next rfl).elim
        | complete => exact .inl ⟨_, later, rfl, rfl⟩

end Phase

end StoryEngine
