/-!
# StoryEngine.Clock

A clock that is moved by hand, and the timers that wait for it. A timer fires once after a delay
or again and again with a period; of several that are due, the earliest fires first, and of two
due at the same time the one that was set first. Times are whole milliseconds and stop at
`lastTime`.
-/

namespace StoryEngine

/-- The identity of a timer. Later timers have larger ones. -/
abbrev TimerId := Nat

/-- The last time that the clock shows, the largest unsigned 64-bit number. -/
def lastTime : Nat := UInt64.size - 1

/-- A timer that does `κ` when it fires. -/
structure Timer (κ : Type) where
  id : TimerId
  due : Nat
  /-- The time between two firings, for a timer that fires more than once. -/
  period : Option Nat
  action : κ

/-- A clock with its timers, in the order in which they were set. -/
structure Clock (κ : Type) where
  now : Nat := 0
  nextId : TimerId := 1
  timers : List (Timer κ) := []

namespace Clock

variable {κ : Type}

/-- A time in milliseconds from another, or the last time if that is beyond it. -/
def later (time ms : Nat) : Nat :=
  min (time + ms) lastTime

/-- Set a timer. -/
def addTimer (c : Clock κ) (delay : Nat) (period : Option Nat) (action : κ) : TimerId × Clock κ :=
  (c.nextId,
    { c with
      nextId := c.nextId + 1
      timers := c.timers ++ [⟨c.nextId, later c.now delay, period, action⟩] })

/-- Set a timer that fires once. -/
def setTimeout (c : Clock κ) (delay : Nat) (action : κ) : TimerId × Clock κ :=
  c.addTimer delay none action

/-- Set a timer that fires again and again, with at least a millisecond between. -/
def setInterval (c : Clock κ) (period : Nat) (action : κ) : TimerId × Clock κ :=
  c.addTimer (max period 1) (some (max period 1)) action

/-- The timer is waiting. -/
def isPending (c : Clock κ) (id : TimerId) : Bool :=
  c.timers.any fun timer => timer.id == id

/-- Cancel a timer. -/
def clearTimer (c : Clock κ) (id : TimerId) : Clock κ :=
  { c with timers := c.timers.filter fun timer => timer.id != id }

/-- Cancel some timers. -/
def clearTimers (c : Clock κ) (ids : List TimerId) : Clock κ :=
  { c with timers := c.timers.filter fun timer => !ids.contains timer.id }

/-- The timer that fires first among those due by a time. -/
def firstDue? (limit : Nat) : List (Timer κ) → Option (Timer κ)
  | [] => none
  | timer :: rest =>
    match firstDue? limit rest with
    | none => if timer.due ≤ limit then some timer else none
    | some best =>
      if timer.due ≤ limit && timer.due ≤ best.due then some timer else some best

/-- Take the next firing by a time: the clock moves to it, and the timer is removed or, if it
fires again, set to its next time. A timer whose next time is beyond the last is removed. -/
def takeDue (c : Clock κ) (limit : Nat) : Option (Timer κ × Clock κ) :=
  match firstDue? limit c.timers with
  | none => none
  | some timer =>
    let next : Option Nat :=
      match timer.period with
      | some period => if timer.due + period ≤ lastTime then some (timer.due + period) else none
      | none => none
    let timers :=
      match next with
      | some due => c.timers.map fun t => if t.id = timer.id then { t with due := due } else t
      | none => c.timers.filter fun t => t.id != timer.id
    some (timer, { c with now := max c.now timer.due, timers := timers })

/-- Move the clock on without firing anything. It never goes back. -/
def setNow (c : Clock κ) (time : Nat) : Clock κ :=
  { c with now := max c.now time }

/-! ### The order of firing -/

theorem later_le_lastTime (time ms : Nat) : later time ms ≤ lastTime := Nat.min_le_right ..

theorem mem_of_firstDue? {limit : Nat} {timer : Timer κ} {timers : List (Timer κ)}
    (h : firstDue? limit timers = some timer) : timer ∈ timers := by
  induction timers with
  | nil => simp [firstDue?] at h
  | cons first rest ih =>
    simp only [firstDue?] at h
    split at h
    · split at h
      · simp_all
      · simp at h
    · rename_i best hb
      split at h
      · simp_all
      · simp only [Option.some.injEq] at h
        subst h
        exact List.mem_cons_of_mem _ (ih hb)

theorem due_le_of_firstDue? {limit : Nat} {timer : Timer κ} {timers : List (Timer κ)}
    (h : firstDue? limit timers = some timer) : timer.due ≤ limit := by
  induction timers with
  | nil => simp [firstDue?] at h
  | cons first rest ih =>
    simp only [firstDue?] at h
    split at h
    · split at h
      · simp_all
      · simp at h
    · rename_i best hb
      split at h
      · rename_i hd
        simp only [Bool.and_eq_true, decide_eq_true_eq] at hd
        simp only [Option.some.injEq] at h
        exact h ▸ hd.1
      · simp only [Option.some.injEq] at h
        exact ih (h ▸ hb)

/-- Nothing fires by a time exactly if every timer is due after it. -/
theorem firstDue?_eq_none_iff {limit : Nat} {timers : List (Timer κ)} :
    firstDue? limit timers = none ↔ ∀ timer ∈ timers, limit < timer.due := by
  induction timers with
  | nil => simp [firstDue?]
  | cons first rest ih =>
    simp only [firstDue?]
    split
    · rename_i hn
      simp only [ite_eq_right_iff, reduceCtorEq, imp_false, Nat.not_le, List.mem_cons,
        forall_eq_or_imp]
      exact ⟨fun h => ⟨h, ih.1 hn⟩, fun h => h.1⟩
    · rename_i best hb
      have : ¬ ∀ timer ∈ rest, limit < timer.due := fun ha => by simp [ih.2 ha] at hb
      split <;> simp_all

/-- No timer is due before the one that fires first. -/
theorem firstDue?_due_le {limit : Nat} {timer other : Timer κ} {timers : List (Timer κ)}
    (h : firstDue? limit timers = some timer) (hm : other ∈ timers) : timer.due ≤ other.due := by
  induction timers generalizing timer with
  | nil => simp [firstDue?] at h
  | cons first rest ih =>
    simp only [firstDue?] at h
    split at h
    · rename_i hn
      split at h
      · rename_i hd
        simp only [Option.some.injEq] at h
        subst h
        rcases List.mem_cons.1 hm with rfl | hm
        · exact Nat.le_refl _
        · have := firstDue?_eq_none_iff.1 hn _ hm
          omega
      · simp at h
    · rename_i best hb
      split at h
      · rename_i hd
        simp only [Bool.and_eq_true, decide_eq_true_eq] at hd
        simp only [Option.some.injEq] at h
        subst h
        rcases List.mem_cons.1 hm with rfl | hm
        · exact Nat.le_refl _
        · exact Nat.le_trans hd.2 (ih hb hm)
      · rename_i hd
        simp only [Option.some.injEq] at h
        subst h
        rcases List.mem_cons.1 hm with rfl | hm
        · have := due_le_of_firstDue? hb
          simp only [Bool.and_eq_true, decide_eq_true_eq, not_and, Nat.not_le] at hd
          by_cases hl : other.due ≤ limit
          · exact Nat.le_of_lt (hd hl)
          · omega
        · exact ih hb hm

/-- A firing never moves the clock back. -/
theorem now_le_of_takeDue {c d : Clock κ} {limit : Nat} {timer : Timer κ}
    (h : c.takeDue limit = some (timer, d)) : c.now ≤ d.now := by
  unfold takeDue at h
  split at h
  · simp at h
  · simp only [Option.some.injEq, Prod.mk.injEq] at h
    rw [← h.2]
    exact Nat.le_max_left ..

end Clock

end StoryEngine
