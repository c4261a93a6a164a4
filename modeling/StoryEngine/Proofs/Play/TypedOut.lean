import StoryEngine.Proofs.Builtin.MirrorTyping
import StoryEngine.Proofs.Display.Typed
import StoryEngine.Proofs.Play.Pending
/-!
# StoryEngine.Proofs.Play.TypedOut

A text that is typed out on the clock. While it is, so many of its letters are in its element
(`Engine.Types`); each firing of its interval types the next one, and the first firing that finds none
puts the content back, is cancelled, and announces the end (`Typing.OnTime.fireOwn`). As long as nothing
else happens to the text (`LeftUntouched`) and the player does not move on, it keeps to its schedule,
whatever else the engine does (`typed_out`).
-/

namespace StoryEngine

variable {σ : Type} {typing count : Nat} {job : Typing} {original : List Node}
  {e e' : Engine Empty σ} {p : Perform Empty σ}

/-! ### A text that is being typed out -/

/-- The text when so many of its letters have been typed. -/
def Typing.after (job : Typing) (count : Nat) : Typing :=
  { job with typer := { job.typer with untyped := job.typer.untyped.drop count } }

theorem Typing.after_zero (job : Typing) : job.after 0 = job := rfl

/-- In the engine so many letters of the text have been typed, and its original content is set aside. -/
structure Engine.Types (typing : Nat) (job : Typing) (original : List Node) (count : Nat)
    (e : Engine Empty σ) : Prop where
  record : e.typings[typing]? = some (job.after count)
  shows : (job.after count).typer.Shows e.tree original job.typer.untyped count

/-- The text has not been given up, and it is still the moment that it was rendered in. -/
structure Engine.KeepsAt (job : Typing) (e : Engine Empty σ) : Prop where
  going : job.isStopped = false
  present : job.moment = ⟨e.state.passage, e.state.turns⟩

/-- Between the two engines nothing has happened to the text: neither has its typer been asked for
anything, nor have the nodes in its element and those set aside changed. -/
structure Engine.LeavesText (typing : Nat) (job : Typing) (e e' : Engine Empty σ) : Prop where
  record : e'.typings[typing]? = e.typings[typing]?
  content : e'.tree.content job.typer.wrapper = e.tree.content job.typer.wrapper
  shown : e'.tree.nodes (e.tree.content job.typer.wrapper) =
    e.tree.nodes (e.tree.content job.typer.wrapper)
  aside : e'.tree.nodes job.typer.full = e.tree.nodes job.typer.full
  outputs : e.tree.outputs.size ≤ e'.tree.outputs.size

theorem Engine.Types.left (h : e.Types typing job original count) (hleft : e.LeavesText typing job e') :
    e'.Types typing job original count where
  record := hleft.record.trans h.record
  shows := by
    have hshows := h.shows
    have hcontent : e'.tree.content (job.after count).typer.wrapper =
        e.tree.content (job.after count).typer.wrapper := hleft.content
    refine ⟨hshows.underWay, hshows.untyped, hshows.count_le, ?_, ?_, ?_, ?_, ?_⟩
    · rw [hcontent]
      exact Nat.lt_of_lt_of_le hshows.made hleft.outputs
    · exact Nat.lt_of_lt_of_le hshows.fullMade hleft.outputs
    · rw [hcontent]
      exact hshows.apart
    · rw [hcontent]
      exact hleft.shown.trans hshows.shown
    · exact hleft.aside.trans hshows.aside

theorem Engine.LeavesText.refl (typing : Nat) (job : Typing) (e : Engine Empty σ) :
    e.LeavesText typing job e :=
  ⟨rfl, rfl, rfl, rfl, Nat.le_refl _⟩

/-- The engine with one letter more in the element of the text. -/
def Engine.typeOn (e : Engine Empty σ) (typing : Nat) (job : Typing) (count : Nat) : Engine Empty σ :=
  { e with
    tree := e.tree.setNodes (e.tree.content job.typer.wrapper)
      (Typer.typed (job.typer.untyped.take (count + 1)))
    typings := e.typings.modify typing fun other =>
      { other with typer := (job.after (count + 1)).typer } }

/-- The engine with the content of the text back in its place. -/
def Engine.typeOut (e : Engine Empty σ) (typing : Nat) (job : Typing) (original : List Node)
    (count : Nat) : Engine Empty σ :=
  { e with
    tree := job.typer.putBack e.tree original
    typings := e.typings.modify typing fun other =>
      { other with typer := { (job.after count).typer with isDone := true } } }

namespace Engine.Types

/-- The next letter is typed, if there is one. -/
theorem withTyper_next (h : e.Types typing job original count)
    (hcount : count < job.typer.untyped.length) :
    Builtin.withTyper typing (job.after count) Typer.typeNext e =
      (.ok true, e.typeOn typing job count) := by
  rw [Builtin.withTyper_eq, h.shows.typeNext_eq hcount]
  rfl

/-- One more letter has been typed then. -/
theorem next (h : e.Types typing job original count) (hcount : count < job.typer.untyped.length) :
    (e.typeOn typing job count).Types typing job original (count + 1) where
  record := by
    rw [typeOn, Array.getElem?_modify, if_pos rfl, h.record]
    rfl
  shows := h.shows.next hcount

/-- If there is none, the content is put back. -/
theorem withTyper_last (h : e.Types typing job original job.typer.untyped.length) :
    Builtin.withTyper typing (job.after job.typer.untyped.length) Typer.typeNext e =
      (.ok false, e.typeOut typing job original job.typer.untyped.length) := by
  rw [Builtin.withTyper_eq, h.shows.typeNext_last, h.shows.finish_eq]
  rfl

/-- An interval that finds another letter types it. -/
theorem typeLetter_next (h : e.Types typing job original count) (hkeeps : e.KeepsAt job)
    (hcount : count < job.typer.untyped.length) (id : TimerId) :
    Builtin.typeLetter p typing id e = (.ok (), e.typeOn typing job count) := by
  have hgoing : (job.after count).isStopped = false := hkeeps.going
  have hpresent : (⟨e.state.passage, e.state.turns⟩ : Moment) = (job.after count).moment :=
    hkeeps.present.symm
  rw [Builtin.typeLetter, Run.get_bind_apply, h.record]
  dsimp only
  rw [hgoing, if_neg Bool.false_ne_true, Run.isStale_bind_apply, if_neg (by simpa using hpresent),
    Run.bind_of_ok (h.withTyper_next hcount)]
  rfl

end Engine.Types

/-- The classes of an element whose text is typed out. -/
def Typing.markDone (job : Typing) (t : Tree) : Tree :=
  let t := (t.removeClass job.typer.wrapper job.cursorClass).addClass job.typer.wrapper job.doneClass
  if job.cursor = .kept then t.addClass job.typer.wrapper job.cursorClass else t

/-- The engine in which the end of a text is announced: the text has left the queue. -/
def Engine.leaveQueue (e : Engine Empty σ) (typing : Nat) (job : Typing) : Engine Empty σ :=
  { e with
    typings := e.typings.modify typing fun t => { t with isStopped := true }
    typeQueue := e.typeQueue.map (Builtin.textsAfter job.id) }

/-- The end of a text is announced, and its element shows that it is done. -/
theorem stopTyping_eq (hgoing : job.isStopped = false) :
    Builtin.stopTyping p typing (job.after count) e = (do
      p (.trigger .typingStop "")
      Run.changeTree job.markDone : Run Empty σ Unit) (e.leaveQueue typing job) := by
  have hgoing : (job.after count).isStopped = false := hgoing
  rw [Builtin.stopTyping, hgoing]
  rfl

/-- An interval that finds no other letter puts the content back and is cancelled. The end is
announced. -/
theorem Engine.Types.typeLetter_last (h : e.Types typing job original job.typer.untyped.length)
    (hkeeps : e.KeepsAt job) (id : TimerId) :
    Builtin.typeLetter p typing id e = (do
      p (.trigger .typingStop "")
      Run.changeTree job.markDone : Run Empty σ Unit)
        (Engine.leaveQueue { e.typeOut typing job original job.typer.untyped.length with
          clock := e.clock.clearTimer id } typing job) := by
  have hgoing : (job.after job.typer.untyped.length).isStopped = false := hkeeps.going
  have hpresent : (⟨e.state.passage, e.state.turns⟩ : Moment) =
      (job.after job.typer.untyped.length).moment := hkeeps.present.symm
  rw [Builtin.typeLetter, Run.get_bind_apply, h.record]
  dsimp only
  rw [hgoing, if_neg Bool.false_ne_true, Run.isStale_bind_apply, if_neg (by simpa using hpresent),
    Run.bind_of_ok h.withTyper_last]
  exact stopTyping_eq hkeeps.going

/-- The engine with the first letter in the element of the text, and with an interval for the others. -/
def Engine.typeFirst (e : Engine Empty σ) (typing : Nat) (job : Typing) : Engine Empty σ :=
  { e.typeOn typing job 0 with clock := (e.clock.setInterval job.speed (.typeLetter typing)).2 }

/-- A text that begins to be typed out has its first letter typed, and an interval is set for the
others. -/
theorem Engine.Types.beginTyping_eq {announced : Engine Empty σ}
    (h : e.Types typing job original 0) (hkeeps : e.KeepsAt job)
    (hannounced : p (.trigger .typingStart "") e = (.ok (), announced))
    (hleft : e.LeavesText typing job announced) (hletters : 0 < job.typer.untyped.length) :
    Builtin.beginTyping p typing e = (.ok (), announced.typeFirst typing job) := by
  have hpresent : (⟨e.state.passage, e.state.turns⟩ : Moment) = (job.after 0).moment :=
    hkeeps.present.symm
  have hthen := h.left hleft
  rw [Builtin.beginTyping, Run.get_bind_apply, h.record]
  dsimp only
  rw [Run.isStale_bind_apply, if_neg (by simpa using hpresent), Run.bind_of_ok hannounced,
    Run.get_bind_apply, hthen.record]
  dsimp only
  rw [Run.bind_of_ok (hthen.withTyper_next hletters)]
  rfl

/-! ### The firings of its interval -/

/-- The firing, at the time, has typed a letter, so that a reader sees so many of them. -/
structure Firing.TypesLetter (typing : Nat) (job : Typing) (original : List Node) (time count : Nat)
    (f : Firing σ) : Prop where
  now : f.taken.clock.now = time
  types : f.after.Types typing job original count
  text : f.after.tree.text (f.after.tree.content job.typer.wrapper) =
    String.ofList (job.typer.untyped.take count)

/-- The firing, at the time, has put the content back, and the end of the text has been announced. -/
structure Firing.StopsTyping (job : Typing) (original : List Node) (time : Nat) (f : Firing σ) :
    Prop where
  now : f.taken.clock.now = time
  stops : ∃ n stopping stopped,
    stopping.tree.nodes (stopping.tree.content job.typer.wrapper) = original ∧
    stopping.clock.now = time ∧
    perform Host.idle n (.trigger .typingStop "") stopping = (.ok (), stopped) ∧
    f.after = { stopped with tree := job.markDone stopped.tree }

/-- The interval that finds no other letter is gone when the end is announced. -/
theorem Engine.Types.stops {id : TimerId} {n : Nat}
    (h : e.Types typing job original job.typer.untyped.length) (hkeeps : e.KeepsAt job)
    (hknown : id < e.clock.nextId)
    (hrun : Run.reporting (Builtin.typeLetter (perform Host.idle n) typing id) e = (.ok (), e')) :
    (⟨id, e, e'⟩ : Firing σ).StopsTyping job original e.clock.now ∧ e'.Lacks id := by
  let stopping := leaveQueue { e.typeOut typing job original job.typer.untyped.length with
    clock := e.clock.clearTimer id } typing job
  have hstop : Builtin.typeLetter (perform Host.idle n) typing id e = (do
      perform Host.idle n (.trigger .typingStop "")
      Run.changeTree job.markDone : Run Empty σ Unit) stopping := h.typeLetter_last hkeeps id
  have hsure : Sure (do
      perform Host.idle n (.trigger .typingStop "")
      Run.changeTree job.markDone : Run Empty σ Unit) :=
    .bind (sure_perform_trigger Host.idle n .typingStop "") fun _ => .changeTree _
  have hran := Run.eq_ok_of_reporting (fun f e₁ hfail => hsure _ f e₁ (hstop.symm.trans hfail)) hrun
  obtain ⟨⟨⟩, stopped, hannounced, hdone⟩ := Run.bind_eq_ok (hstop.symm.trans hran)
  cases hdone
  have hshown : stopping.tree.nodes (stopping.tree.content job.typer.wrapper) = original := by
    have hcontent : stopping.tree.content job.typer.wrapper = e.tree.content job.typer.wrapper := by
      simp [stopping, leaveQueue, typeOut, Typer.putBack]
    rw [hcontent]
    exact h.shows.nodes_putBack.1
  have hgone : stopping.Lacks id := by
    refine ⟨hknown, fun timer htimer => ?_⟩
    simpa using (List.mem_filter.mp htimer).2
  have htask (ms : Nat) : Task.trigger .typingStop "" ≠ .advance ms := fun heq => by cases heq
  have hstopped : stopped.Lacks id :=
    (Engine.Lacks.stays id).task htask hannounced (returned_ok ()) hgone
  exact ⟨⟨rfl, n, stopping, stopped, hshown, rfl, hannounced, rfl⟩, hstopped⟩

/-- What the firing with the number does to a text that has begun at the start: the first ones type one
letter each, and the one after the last letter is the end. -/
structure Firing.Follows (typing : Nat) (job : Typing) (original : List Node) (start number : Nat)
    (f : Firing σ) : Prop where
  letter : number < job.typer.untyped.length →
    f.TypesLetter typing job original (Clock.later start (number * job.speed)) (number + 1)
  stop : number = job.typer.untyped.length →
    f.StopsTyping job original (Clock.later start (number * job.speed))

/-- Nothing else happens to the text: each firing finds it as it was left. -/
def LeftUntouched (typing : Nat) (job : Typing) : Engine Empty σ → List (Firing σ) → Prop
  | _, [] => True
  | e, f :: rest => e.LeavesText typing job f.taken ∧ LeftUntouched typing job f.after rest

/-- The engine as the last of the firings has left it. -/
def leftBy (e : Engine Empty σ) (log : List (Firing σ)) : Engine Empty σ :=
  (log.getLast?.map Firing.after).getD e

theorem leftUntouched_concat {log : List (Firing σ)} {f : Firing σ} :
    LeftUntouched typing job e (log ++ [f]) ↔
      LeftUntouched typing job e log ∧ (leftBy e log).LeavesText typing job f.taken := by
  induction log generalizing e with
  | nil => exact ⟨fun h => ⟨trivial, h.1⟩, fun h => ⟨h.2, trivial⟩⟩
  | cons first rest ih =>
      have hleft : leftBy e (first :: rest) = leftBy first.after rest := by
        cases hlast : rest.getLast? with
        | none =>
            rw [List.getLast?_eq_none_iff] at hlast
            rw [hlast]
            rfl
        | some last => simp [leftBy, List.getLast?_cons, hlast]
      rw [List.cons_append, LeftUntouched, LeftUntouched, ih, hleft, and_assoc]

theorem leftBy_concat (e : Engine Empty σ) (log : List (Firing σ)) (f : Firing σ) :
    leftBy e (log ++ [f]) = f.after := by
  simp [leftBy]

/-- The interval of the text, that is due at a time. -/
def Typing.interval (job : Typing) (typing : Nat) (id : TimerId) (due : Nat) :
    Timer (TimerAction Empty) :=
  ⟨id, due, some job.speed, .typeLetter typing⟩

/-- The text, which has begun at the start, has kept to its schedule: the firings of its interval have
been as they should, and the interval is pending for the next letter or for the end, unless that would
be after the end of time. -/
structure Typing.OnTime (job : Typing) (typing : Nat) (original : List Node) (id : TimerId)
    (start : Nat) (begun : Engine Empty σ) (log : List (Firing σ)) (e : Engine Empty σ) : Prop where
  length_le : log.length ≤ job.typer.untyped.length
  fired : ∀ i (f : Firing σ), log[i]? = some f → f.Follows typing job original start (i + 1)
  next : (log.length < job.typer.untyped.length ∧
      e.Expects (fun _ => False)
        (job.interval typing id (Clock.later start ((log.length + 1) * job.speed))) job.moment ∧
      (leftBy begun log).Types typing job original (log.length + 1)) ∨
    (e.Lacks id ∧ (log.length = job.typer.untyped.length ∨
      lastTime < start + (log.length + 1) * job.speed))

namespace Typing.OnTime

variable {id : TimerId} {start : Nat} {begun : Engine Empty σ} {log : List (Firing σ)}

/-- Something else happens. -/
theorem keep (h : job.OnTime typing original id start begun log e)
    (hexpects : ∀ timer, timer.id = id → e.Expects (fun _ => False) timer job.moment →
      e'.OrPast job.moment.turn (Engine.Expects (fun _ => False) timer job.moment))
    (hlacks : e.Lacks id → e'.Lacks id) :
    e'.OrPast job.moment.turn (job.OnTime typing original id start begun log) := by
  rcases h.next with ⟨hlength, hpending, htypes⟩ | ⟨hgone, hover⟩
  · refine (hexpects _ rfl hpending).imp (fun hpast => hpast) fun hpending => ?_
    exact ⟨h.length_le, h.fired, .inl ⟨hlength, hpending, htypes⟩⟩
  · exact .inr ⟨h.length_le, h.fired, .inr ⟨hlacks hgone, hover⟩⟩

theorem step (h : job.OnTime typing original id start begun log e)
    (hstep : TimerStep (.idle (fun _ => False) False) e e') :
    e'.OrPast job.moment.turn (job.OnTime typing original id start begun log) :=
  h.keep (fun _ _ hpending => hstep.expects not_false hpending) fun hgone => hstep.lacks hgone

theorem task (h : job.OnTime typing original id start begun log e) {t : Task}
    (ht : (Terms.idle (σ := σ) (fun _ => False) False).Asks t) {n : Nat} {r : Except Halt Unit}
    (hrun : perform Host.idle n t e = (r, e')) (hr : Returned r) :
    e'.OrPast job.moment.turn (job.OnTime typing original id start begun log) := by
  refine h.keep (fun timer _ hpending => ?_) fun hgone => ?_
  · have hinit (title : String) : t ≠ .trigger .passageInit title := fun heq => by
      subst heq
      exact ht
    have hkept := Engine.Expects.lastsUntil.perform n ht.ne_advance hinit e (.inr hpending)
    rw [Run.AlikeAt, hrun] at hkept
    exact hkept.2 hr
  · exact (Engine.Lacks.stays id).task ht.ne_advance hrun hr hgone

theorem arrive (h : job.OnTime typing original id start begun log e) {limit : Nat}
    (hdue : e.clock.takeDue limit = none) (hlast : limit ≤ lastTime) :
    job.OnTime typing original id start begun log (e.arrive limit) := by
  refine ⟨h.length_le, h.fired, h.next.imp (fun ⟨hlength, hpending, htypes⟩ => ?_) fun hgone => hgone⟩
  exact ⟨hlength, hpending.keep (hpending.regular.arrive hdue hlast) hpending.pending rfl
    (Nat.le_refl _) fun _ => .inl, htypes⟩

/-- Another timer fires. -/
theorem fireOther (h : job.OnTime typing original id start begun log e) {limit n : Nat}
    {timer : Timer (TimerAction Empty)} {clock : Clock (TimerAction Empty)}
    (hdue : e.clock.takeDue limit = some (timer, clock)) (hother : timer.id ≠ id)
    (hrun : Run.reporting (runTimer Host.idle (perform Host.idle n) timer)
      { e with clock := clock } = (.ok (), e')) :
    e'.OrPast job.moment.turn (job.OnTime typing original id start begun log) :=
  h.keep (fun _ hid hpending => hpending.fireOther hdue (hid ▸ hother) hrun)
    fun hgone => (hgone.fire hdue hrun).2

/-- When the interval fires for a number of times, it is due for the next number, or that is after the
end of time. -/
theorem next?_interval (hspeed : 0 < job.speed) (typing : Nat) (id : TimerId) (start number : Nat) :
    (job.interval typing id (Clock.later start (number * job.speed))).next? =
        some (Clock.later start ((number + 1) * job.speed)) ∨
      (job.interval typing id (Clock.later start (number * job.speed))).next? = none ∧
        lastTime < start + (number + 1) * job.speed := by
  have hsucc : (number + 1) * job.speed = number * job.speed + job.speed := Nat.succ_mul _ _
  unfold Timer.next? Typing.interval
  dsimp only
  rw [hsucc]
  unfold Clock.later
  split
  · refine .inl (congrArg some ?_)
    omega
  · exact .inr ⟨rfl, by omega⟩

/-- The interval is taken to fire. It is pending for the next number, or gone. -/
theorem take_interval (hspeed : 0 < job.speed) {id : TimerId} {start number limit : Nat}
    {timer : Timer (TimerAction Empty)} {clock : Clock (TimerAction Empty)}
    (h : e.Expects (fun _ => False)
      (job.interval typing id (Clock.later start (number * job.speed))) job.moment)
    (hdue : e.clock.takeDue limit = some (timer, clock)) (hid : timer.id = id) :
    timer = job.interval typing id (Clock.later start (number * job.speed)) ∧
      clock.now = Clock.later start (number * job.speed) ∧
      (Engine.Expects (fun _ => False)
          (job.interval typing id (Clock.later start ((number + 1) * job.speed))) job.moment
          { e with clock := clock } ∨
        Engine.Lacks id { e with clock := clock } ∧ lastTime < start + (number + 1) * job.speed) := by
  have hclock := h.regular.clock
  obtain ⟨hnow, hnextId, hmem, -⟩ := hclock.now_takeDue hdue
  obtain rfl := hclock.eq_of_id hmem h.pending hid
  have hregular := h.regular.lasts (hclock.takeDue hdue) (.takeDue hdue)
  refine ⟨rfl, hnow, ?_⟩
  rcases next?_interval hspeed typing id start number with hnext | ⟨hnone, hlast⟩
  · have hpending := (hclock.mem_takeDue hdue).mpr (.inr ⟨_, hnext, rfl⟩)
    exact .inl ⟨hregular, hpending, h.present, fun _ => False.elim, h.kept⟩
  · refine .inr ⟨⟨hnextId.symm ▸ hclock.known _ hmem, fun other hother => ?_⟩, hlast⟩
    rcases (hclock.mem_takeDue hdue).mp hother with ⟨-, hne⟩ | ⟨due, hdue, -⟩
    · exact hne
    · rw [hnone] at hdue
      cases hdue

/-- There is one more firing. -/
theorem fired_concat (h : job.OnTime typing original id start begun log e) {f : Firing σ}
    (hf : f.Follows typing job original start (log.length + 1)) (i : Nat) (g : Firing σ)
    (hg : (log ++ [f])[i]? = some g) : g.Follows typing job original start (i + 1) := by
  rw [List.getElem?_append] at hg
  split at hg
  · exact h.fired i g hg
  · rename_i hi
    obtain ⟨hindex, heq⟩ := List.getElem?_eq_some_iff.mp hg
    rw [List.length_singleton] at hindex
    obtain rfl : i = log.length := by omega
    simp only [List.getElem_singleton] at heq
    exact heq ▸ hf

/-- The interval fires: the next letter is typed, or the content is put back if there is none. -/
theorem fireOwn (h : job.OnTime typing original id start begun log e) (hgoing : job.isStopped = false)
    (hspeed : 0 < job.speed) {limit n : Nat} {timer : Timer (TimerAction Empty)}
    {clock : Clock (TimerAction Empty)} (hdue : e.clock.takeDue limit = some (timer, clock))
    (hid : timer.id = id)
    (hrun : Run.reporting (runTimer Host.idle (perform Host.idle n) timer)
      { e with clock := clock } = (.ok (), e'))
    (hleft : (leftBy begun log).LeavesText typing job { e with clock := clock }) :
    job.OnTime typing original id start begun (log ++ [⟨id, { e with clock := clock }, e'⟩]) e' := by
  rcases h.next with ⟨hlength, hpending, htypes⟩ | ⟨hgone, -⟩
  case inr => exact absurd hid (hgone.fire hdue hrun).1
  obtain ⟨rfl, hnow, hnext⟩ := take_interval hspeed hpending hdue hid
  have htaken := htypes.left hleft
  have hkeeps : Engine.KeepsAt job { e with clock := clock } := ⟨hgoing, hpending.present⟩
  change Run.reporting (Builtin.typeLetter (perform Host.idle n) typing id) _ = _ at hrun
  have hcount (f : Firing σ) : (log ++ [f]).length = log.length + 1 := by
    rw [List.length_append, List.length_singleton]
  have hknown : id < clock.nextId :=
    (hpending.regular.clock.now_takeDue hdue).2.1 ▸ hpending.regular.clock.known _ hpending.pending
  rcases Nat.lt_or_eq_of_le (Nat.succ_le_of_lt hlength) with hmore | hlast
  · -- another letter is typed, and what is pending stays as it is
    rw [Run.reporting_of_ok (htaken.typeLetter_next hkeeps hmore id)] at hrun
    cases hrun
    have htyped := htaken.next hmore
    have hle (f : Firing σ) : (log ++ [f]).length ≤ job.typer.untyped.length :=
      hcount f ▸ Nat.le_of_lt hmore
    refine ⟨hle _, h.fired_concat ⟨fun _ => ?_, fun hstop => ?_⟩, ?_⟩
    · exact ⟨hnow, htyped, htyped.shows.text_eq⟩
    · exact absurd hstop (Nat.ne_of_lt hmore)
    · rw [hcount, leftBy_concat]
      rcases hnext with hnext | ⟨hgone, hover⟩
      · exact .inl ⟨hmore, hnext.congr rfl, htyped⟩
      · exact .inr ⟨hgone, .inr hover⟩
  · -- the interval is cancelled before the end is announced
    have hall : Engine.Types typing job original job.typer.untyped.length
        { e with clock := clock } := by
      rw [← hlast]
      exact htaken
    obtain ⟨hstops, hgone⟩ := hall.stops hkeeps hknown hrun
    refine ⟨Nat.le_of_eq ((hcount _).trans hlast),
      h.fired_concat ⟨fun hmore => ?_, fun _ => hnow ▸ hstops⟩,
      .inr ⟨hgone, .inl ((hcount _).trans hlast)⟩⟩
    exact absurd hlast (Nat.ne_of_lt hmore)

end Typing.OnTime

/-- However an engine goes on, as long as the player does not move on and nothing else happens to the
text, it keeps to its schedule. -/
theorem GoesOn.onTime {id : TimerId} {start : Nat} {begun : Engine Empty σ} {log : List (Firing σ)}
    (h₀ : job.OnTime typing original id start begun [] begun) (hgoing : job.isStopped = false)
    (hspeed : 0 < job.speed) (h : GoesOn (·.id == id) begun log e)
    (hleft : LeftUntouched typing job begun log) :
    e.OrPast job.moment.turn (job.OnTime typing original id start begun log) := by
  induction h with
  | start => exact .inr h₀
  | step before hstep ih =>
      rcases ih hleft with hpast | hbefore
      · exact .inl (hstep.past hpast)
      · exact hbefore.step hstep
  | @task log e e' before t ht n r hrun hr ih =>
      rcases ih hleft with hpast | hbefore
      · exact .inl ((Engine.Past.stays job.moment.turn).task ht.ne_advance hrun hr hpast)
      · exact hbefore.task ht hrun hr
  | arrive before hdue hlast ih =>
      exact (ih hleft).imp (fun hpast => hpast) fun hbefore => hbefore.arrive hdue hlast
  | @fire log e e' before limit n timer clock hdue hrun ih =>
      by_cases hid : timer.id = id
      · have hlog : firingOf (·.id == id) timer { e with clock := clock } e' =
            [⟨timer.id, { e with clock := clock }, e'⟩] := if_pos (beq_iff_eq.mpr hid)
        rw [hlog] at hleft ⊢
        obtain ⟨hbefore, hfound⟩ := leftUntouched_concat.mp hleft
        rcases ih hbefore with hpast | hbefore
        · exact .inl ((Engine.Past.stays job.moment.turn).fire hdue hrun hpast)
        · exact .inr (hid ▸ hbefore.fireOwn hgoing hspeed hdue hid hrun hfound)
      · have hlog : firingOf (·.id == id) timer { e with clock := clock } e' = [] :=
          if_neg (mt beq_iff_eq.mp hid)
        rw [hlog, List.append_nil] at hleft ⊢
        rcases ih hleft with hpast | hbefore
        · exact .inl ((Engine.Past.stays job.moment.turn).fire hdue hrun hpast)
        · exact hbefore.fireOther hdue hid hrun

/-! ### The beginning -/

/-- The cursor of a text makes no difference to what is typed. -/
theorem Builtin.shows_markCursor (call : TypeCall) {wrapper : ElementId} {t : Tree} {depth : Nat}
    (h : t.MadeWithin depth (t.content wrapper)) :
    (Typer.ofElement (markCursor call wrapper t) wrapper).1.Shows
      (Typer.ofElement (markCursor call wrapper t) wrapper).2 (t.nodes (t.content wrapper))
      (t.text (t.content wrapper)).toList 0 := by
  unfold markCursor
  split
  · unfold Tree.addClass
    exact Typer.shows_ofElement_modifyElement h wrapper fun _ => rfl
  · exact Typer.shows_ofElement h

/-- A text that begins has its first letter typed, and its interval is pending for what comes next. -/
theorem Engine.Types.begin {announced : Engine Empty σ} (h : announced.Types typing job original 0)
    (hregular : announced.Regular) (hkeeps : announced.KeepsAt job)
    (hletters : 0 < job.typer.untyped.length) (hspeed : 0 < job.speed) :
    (announced.typeFirst typing job).Types typing job original 1 ∧
      job.OnTime typing original announced.clock.nextId announced.clock.now
        (announced.typeFirst typing job) [] (announced.typeFirst typing job) := by
  have htyped : (announced.typeFirst typing job).Types typing job original 1 :=
    ⟨(h.next hletters).record, (h.next hletters).shows⟩
  have hperiod : max job.speed 1 = job.speed := Nat.max_eq_left hspeed
  have hset : Engine.Regular { announced with
      clock := (announced.clock.setInterval job.speed (.typeLetter typing)).2 } :=
    hregular.addUntracked _ (fun p hp => by cases hp; omega) rfl
  have hpending : job.interval typing announced.clock.nextId
      (Clock.later announced.clock.now (1 * job.speed)) ∈
        (announced.typeFirst typing job).clock.timers := by
    refine List.mem_append_right _ (List.mem_singleton.mpr ?_)
    rw [Typing.interval, hperiod, Nat.one_mul]
  have hnone (i : Nat) (f : Firing σ) (hf : ([] : List (Firing σ))[i]? = some f) :
      f.Follows typing job original announced.clock.now (i + 1) := by cases hf
  refine ⟨htyped, Nat.zero_le _, hnone, .inl ⟨hletters, ?_, htyped⟩⟩
  refine ⟨hset.congr rfl, hpending, hkeeps.present, fun _ => False.elim, fun htick => ?_, id⟩
  exact Nat.lt_irrefl _ (hregular.ticking _ htick)

/-! ### The schedule -/

/-- So far a text, which has begun at the start, has kept to its schedule. -/
structure Typing.KeepsPace (job : Typing) (typing : Nat) (original : List Node) (start : Nat)
    (log : List (Firing σ)) (e : Engine Empty σ) : Prop where
  /-- Its interval has fired at most once for each letter. -/
  length_le : log.length ≤ job.typer.untyped.length
  /-- The first of its firings have typed one letter each, and the last has put the content back. -/
  fired : ∀ i (f : Firing σ), log[i]? = some f → f.Follows typing job original start (i + 1)
  /-- If nothing is due, all firings have been that are due by now. -/
  all : e.clock.takeDue e.clock.now = none → ∀ number ≤ job.typer.untyped.length,
    start + number * job.speed ≤ e.clock.now → number ≤ log.length

theorem Typing.OnTime.keepsPace {id : TimerId} {start : Nat} {begun : Engine Empty σ}
    {log : List (Firing σ)} (h : job.OnTime typing original id start begun log e) (he : e.Regular) :
    job.KeepsPace typing original start log e := by
  refine ⟨h.length_le, h.fired, fun hdue number hnumber hreached => ?_⟩
  by_contra hless
  have hle : (log.length + 1) * job.speed ≤ number * job.speed := Nat.mul_le_mul_right _ (by omega)
  have hnow := he.clock.now_le
  rcases h.next with ⟨-, hpending, -⟩ | ⟨-, hlength | hover⟩
  · -- the interval is due already
    have hlater := Clock.takeDue_eq_none_iff.mp hdue _ hpending.pending
    have hdue : (job.interval typing id (Clock.later start ((log.length + 1) * job.speed))).due ≤
        start + (log.length + 1) * job.speed := Nat.min_le_left _ _
    omega
  · omega
  · omega

/-- The announcement of an event takes no time, and leaves what is pending in order. -/
theorem Engine.Regular.announce (he : e.Regular) {n : Nat} {event : Event} {detail : String}
    (h : perform Host.idle n (.trigger event detail) e = (.ok (), e')) :
    e'.Regular ∧ e'.clock.now = e.clock.now := by
  have htask (ms : Nat) : Task.trigger event detail ≠ .advance ms := nofun
  have htends := perform_tends Host.isTimeless_idle n htask e
  have hkept := perform_regularWith n htask e (⟨he, nofun⟩ : e.RegularWith fun _ => False)
  rw [h] at htends
  rw [Run.AlikeAt, h] at hkept
  exact ⟨(hkept.2 (returned_ok ())).1, htends.now_eq⟩

/-- A text that begins keeps to its schedule from then on. -/
theorem Engine.Types.keepsPace {announced : Engine Empty σ} (h : e.Types typing job original 0)
    (hletters : 0 < job.typer.untyped.length) (hspeed : 0 < job.speed) (he : e.Regular)
    (hkeeps : e.KeepsAt job) {n : Nat}
    (hannounced : perform Host.idle n (.trigger .typingStart "") e = (.ok (), announced))
    (hkeeps' : announced.KeepsAt job) (hleft : e.LeavesText typing job announced) :
    ∃ begun id, Builtin.beginTyping (perform Host.idle n) typing e = (.ok (), begun) ∧
      begun.clock.now = e.clock.now ∧
      begun.Types typing job original 1 ∧
      job.interval typing id (Clock.later e.clock.now job.speed) ∈ begun.clock.timers ∧
      begun.Regular ∧
      ∀ log e', GoesOn (·.id == id) begun log e' → LeftUntouched typing job begun log →
        e'.state.turns = e.state.turns → job.KeepsPace typing original e.clock.now log e' := by
  obtain ⟨hregular, hnow⟩ := he.announce hannounced
  obtain ⟨hfirst, hontime⟩ := (h.left hleft).begin hregular hkeeps' hletters hspeed
  have hbegun := h.beginTyping_eq hkeeps hannounced hleft hletters
  rw [hnow] at hontime
  rcases hontime.next with ⟨-, hpending, -⟩ | ⟨hgone, -⟩
  case inr => exact absurd rfl (hgone.2 _ (List.mem_append_right _ (List.mem_singleton_self _)))
  have hperiod := hpending.pending
  rw [List.length_nil, Nat.zero_add, Nat.one_mul] at hperiod
  refine ⟨announced.typeFirst typing job, announced.clock.nextId, hbegun, hnow, hfirst, hperiod,
    hpending.regular, fun log e' hgoes hleft hsame => ?_⟩
  rcases hgoes.onTime hontime hkeeps.going hspeed hleft with hpast | hontime'
  · -- the player has moved on
    have hturn : job.moment.turn = e.state.turns := congrArg Moment.turn hkeeps.present
    rw [Engine.Past, hsame, hturn] at hpast
    exact absurd hpast (Nat.lt_irrefl _)
  · exact hontime'.keepsPace (hgoes.regular hpending.regular)

/-- Whatever a typer is asked for, and in whatever order: of a content that was made, at any depth, the
letters are typed one after another, until the content is put back as it was.

So a text whose element was rendered in a moment is typed out on the clock, once it is its turn. As
long as the player does not move on and nothing else happens to the text, its first letter is there at
once, each other letter comes a period after the one in front of it, and a period after the last the
content is back in its place and the end is announced. Whatever the host asks for are ways to go on,
and when it has let time pass, nothing is due. -/
theorem typed_out :
    (∀ (t : Tree) (wrapper : ElementId) (depth : Nat), t.MadeWithin depth (t.content wrapper) →
      (∀ o, t.newOutput.2.nodes o = t.nodes o) ∧
      ∀ requests, Typer.Outcome (Typer.ofElement t wrapper).1 (t.nodes (t.content wrapper))
        (t.text (t.content wrapper)).toList t.newOutput.2 requests
        ((Typer.ofElement t wrapper).1.run (Typer.ofElement t wrapper).2 requests)) ∧
    (∀ (e₀ : Engine Empty σ) (call : TypeCall) (wrapper : ElementId) (depth : Nat),
      e₀.tree.MadeWithin depth (e₀.tree.content wrapper) →
      e₀.tree.text (e₀.tree.content wrapper) ≠ "" → 0 < call.speed →
      ∃ job made,
        Builtin.makeTyping call wrapper ⟨e₀.state.passage, e₀.state.turns⟩ e₀ =
          (.ok e₀.typings.size, made) ∧
        job.typer.wrapper = wrapper ∧ job.speed = call.speed ∧
        job.typer.untyped = (e₀.tree.text (e₀.tree.content wrapper)).toList ∧
        made.Types e₀.typings.size job (e₀.tree.nodes (e₀.tree.content wrapper)) 0 ∧
        made.KeepsAt job ∧
        ∀ e announced n, e.Regular → e.KeepsAt job → made.LeavesText e₀.typings.size job e →
          perform Host.idle n (.trigger .typingStart "") e = (.ok (), announced) →
          announced.KeepsAt job → e.LeavesText e₀.typings.size job announced →
          ∃ begun id,
            Builtin.beginTyping (perform Host.idle n) e₀.typings.size e = (.ok (), begun) ∧
            begun.clock.now = e.clock.now ∧
            begun.tree.text (begun.tree.content wrapper) = String.ofList (job.typer.untyped.take 1) ∧
            job.interval e₀.typings.size id (Clock.later e.clock.now job.speed) ∈
              begun.clock.timers ∧
            ∀ log e', GoesOn (·.id == id) begun log e' →
              (LeftUntouched e₀.typings.size job begun log → e'.state.turns = e.state.turns →
                job.KeepsPace e₀.typings.size (e₀.tree.nodes (e₀.tree.content wrapper))
                  e.clock.now log e') ∧
              (∀ (call : HostCall) n r e'', call.run (perform Host.idle n) e' = (r, e'') →
                Returned r → ∃ more, GoesOn (·.id == id) begun (log ++ more) e'' ∧
                  ((∃ ms, call = .advance ms) → e''.clock.takeDue e''.clock.now = none))) := by
  refine ⟨fun t wrapper depth h => ⟨t.nodes_newOutput, Typer.outcome_ofElement h⟩, ?_⟩
  intro e₀ call wrapper depth hmade htext hspeed
  let moment : Moment := ⟨e₀.state.passage, e₀.state.turns⟩
  let dressed : Engine Empty σ := { e₀ with tree := Builtin.markCursor call wrapper e₀.tree }
  let job := Engine.typingOf call moment (Typer.ofElement dressed.tree wrapper).1
  have hshows := Builtin.shows_markCursor call hmade
  have hletters : job.typer.untyped = (e₀.tree.text (e₀.tree.content wrapper)).toList :=
    hshows.untyped
  have hnonempty : 0 < job.typer.untyped.length := by
    rw [hletters]
    exact List.length_pos_iff.mpr fun hnil => htext (String.toList_eq_nil_iff.mp hnil)
  have htypes : (dressed.setTyping call wrapper moment).Types e₀.typings.size job
      (e₀.tree.nodes (e₀.tree.content wrapper)) 0 := by
    constructor
    · rw [Typing.after_zero]
      exact dressed.getElem?_setTyping call wrapper moment
    · rw [Typing.after_zero, hletters]
      exact hshows
  refine ⟨job, _, Builtin.makeTyping_setTyping call wrapper moment e₀, rfl, rfl, hletters, htypes,
    ⟨rfl, rfl⟩, ?_⟩
  intro e announced n hregular hkeeps hwaited hannounced hkeeps' hleft
  obtain ⟨begun, id, hbegun, hnow, hfirst, hpending, hstart, hpace⟩ :=
    (htypes.left hwaited).keepsPace hnonempty hspeed hregular hkeeps hannounced hkeeps' hleft
  refine ⟨begun, id, hbegun, hnow, hfirst.shows.text_eq, hpending, fun log e' hgoes =>
    ⟨hpace log e' hgoes, fun call n r e'' hrun hr => ?_⟩⟩
  obtain ⟨more, hmore⟩ := hgoes.hostCall hrun hr
  refine ⟨more, hmore, ?_⟩
  rintro ⟨ms, rfl⟩
  exact takeDue_of_advance (hgoes.regular hstart).clock.now_le hrun hr

/-! ### Two letters -/

/-- A tree with an element that has two letters in it, which no debug view surrounds. -/
def twoLetters : Tree where
  outputs := #[[], [.text "a", .element ⟨1⟩], [.text "b"]]
  elements := #[{ tag := "div", content := ⟨1⟩ }, { tag := "b", content := ⟨2⟩ }]

/-- An engine that displays it. -/
def twoLettersEngine : Engine Empty Unit :=
  { (Engine.ofConfig {} () : Engine Empty Unit) with tree := twoLetters }

/-- A call with a letter every 40 milliseconds. -/
def twoLettersCall : TypeCall :=
  ⟨0, 40, { skipKey := " " }, "macro-type", "a''b''", ⟨0⟩, ⟨0⟩⟩

theorem twoLetters_madeWithin : twoLetters.MadeWithin 2 (twoLetters.content ⟨0⟩) := by
  refine ⟨by decide, fun node hnode inner hinner => ?_⟩
  obtain rfl | rfl : node = .text "a" ∨ node = .element ⟨1⟩ := by
    simpa [twoLetters, Tree.nodes, Tree.content, Tree.element?] using hnode
  · cases hinner
  · cases hinner
    refine ⟨by decide, fun node hnode inner hinner => ?_⟩
    obtain rfl : node = .text "b" := by
      simpa [twoLetters, Tree.nodes, Tree.content, Tree.element?] using hnode
    cases hinner

/-- Both are there after 40 milliseconds, and after 80 the element is what it was. -/
theorem twoLetters_typed_out :
    twoLetters.MadeWithin 2 (twoLetters.content ⟨0⟩) ∧
    twoLetters.text (twoLetters.content ⟨0⟩) = "ab" ∧
    Typer.Outcome (Typer.ofElement twoLetters ⟨0⟩).1 [.text "a", .element ⟨1⟩] ['a', 'b']
      twoLetters.newOutput.2 [.typeNext, .finish, .typeNext]
      ((Typer.ofElement twoLetters ⟨0⟩).1.run (Typer.ofElement twoLetters ⟨0⟩).2
        [.typeNext, .finish, .typeNext]) ∧
    ∃ job made begun id,
      Builtin.makeTyping twoLettersCall ⟨0⟩ ⟨"", 0⟩ twoLettersEngine = (.ok 0, made) ∧
      Builtin.beginTyping (perform Host.idle 1) 0 made = (.ok (), begun) ∧
      begun.tree.text (begun.tree.content ⟨0⟩) = "a" ∧
      ∀ log e', GoesOn (·.id == id) begun log e' → LeftUntouched 0 job begun log →
        e'.state.turns = 0 → e'.clock.now = 100 → e'.clock.takeDue 100 = none →
        ∃ f g, log = [f, g] ∧ f.TypesLetter 0 job [.text "a", .element ⟨1⟩] 40 2 ∧
          g.StopsTyping job [.text "a", .element ⟨1⟩] 80 := by
  have htext : twoLetters.text (twoLetters.content ⟨0⟩) = "ab" := by decide +kernel
  obtain ⟨htyper, hclock⟩ := @typed_out Unit
  obtain ⟨-, houtcome⟩ := htyper twoLetters ⟨0⟩ 2 twoLetters_madeWithin
  have houtcome := houtcome [.typeNext, .finish, .typeNext]
  rw [htext] at houtcome
  refine ⟨twoLetters_madeWithin, htext, houtcome, ?_⟩
  have hwords : twoLettersEngine.tree.text (twoLettersEngine.tree.content ⟨0⟩) ≠ "" := by
    rw [show twoLettersEngine.tree = twoLetters from rfl, htext]
    decide
  obtain ⟨job, made, hmake, -, hspeed, hletters, -, hkeeps, hbegin⟩ :=
    hclock twoLettersEngine twoLettersCall ⟨0⟩ 2 twoLetters_madeWithin hwords (by decide)
  have hmade := congrArg Prod.snd (hmake.symm.trans (Builtin.makeTyping_setTyping ..))
  dsimp only at hmade
  subst hmade
  let dressed : Engine Empty Unit := { twoLettersEngine with
    tree := Builtin.markCursor twoLettersCall ⟨0⟩ twoLettersEngine.tree }
  let made := dressed.setTyping twoLettersCall ⟨0⟩ ⟨"", 0⟩
  let announced : Engine Empty Unit :=
    { made with listeners := (Listener.take made.listeners .typingStart).2 }
  have hstart : (Engine.ofConfig {} () : Engine Empty Unit).Regular := .start {} _ ()
  have hregular : made.Regular := by
    refine ⟨hstart.clock, nofun, fun l hl hcancels => ?_, nofun⟩
    obtain rfl | rfl : l = ⟨.keydown, some Builtin.typingNamespace, false, .skipTyping 0⟩ ∨
        l = ⟨.typingStop, some Builtin.typingNamespace, true, .nextTyping⟩ :=
      List.mem_pair.mp hl
    · cases hcancels
    · cases hcancels
  -- nobody listens to the beginning of a text
  have hannounced : perform Host.idle 1 (.trigger .typingStart "") made = (.ok (), announced) := rfl
  obtain ⟨begun, id, hbegun, -, hfirst, -, hgoes⟩ := hbegin made announced 1 hregular hkeeps
    (.refl 0 job made) hannounced ⟨hkeeps.going, hkeeps.present⟩ ⟨rfl, rfl, rfl, rfl, Nat.le_refl _⟩
  have hab : job.typer.untyped = ['a', 'b'] := by
    rw [hletters, show twoLettersEngine.tree = twoLetters from rfl, htext]
    rfl
  refine ⟨job, made, begun, id, hmake, hbegun, ?_, fun log e' hlog hleft hturns hnow hdue => ?_⟩
  · rw [hfirst, hab]
    rfl
  · have hpace := (hgoes log e' hlog).1 hleft hturns
    have hstart : made.clock.now = 0 := rfl
    have htwo : job.typer.untyped.length = 2 := by rw [hab]; rfl
    have hspeed : job.speed = 40 := hspeed
    have hlength : log.length = 2 := by
      have hall := hpace.all (hnow.symm ▸ hdue) 2 (Nat.le_of_eq htwo.symm)
      rw [hstart, hspeed, hnow] at hall
      exact Nat.le_antisymm (htwo ▸ hpace.length_le) (hall (by decide))
    obtain ⟨f, g, rfl⟩ := List.length_eq_two.mp hlength
    have hletter := (hpace.fired 0 f rfl).letter (by rw [htwo]; decide)
    have hstop := (hpace.fired 1 g rfl).stop htwo.symm
    rw [hstart, hspeed] at hletter hstop
    exact ⟨f, g, rfl, hletter, hstop⟩

end StoryEngine
