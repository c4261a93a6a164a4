import StoryEngine.Proofs.Engine.Parted
/-!
# StoryEngine.Proofs.Engine.Record

A record of what happens to the texts of a turn. `recorded` performs tasks as an engine does, and
before each of them has the host note down what the task is to texts, which texts are being
animated, and which ones wait in the queue (`Notice`).

`Phase.Step` says which notices may follow each other if there is one text at a time. A text of the
turn is started when the ones queued before it are done. It is shown at once, or it is animated
until its typing stops, and only then the next one is started. When the typing of the last text
stops, that is announced right away.
-/

namespace StoryEngine

variable {σ : Type}

/-! ### Animated texts -/

/-- What matters about a text that is typed for the other texts. -/
structure TypingMark where
  id : Nat
  moment : Moment
  isStopped : Bool

def Typing.mark (t : Typing) : TypingMark :=
  ⟨t.id, t.moment, t.isStopped⟩

/-- The text belongs to the moment and is not typed out yet. -/
def TypingMark.isLive (m : Moment) (mark : TypingMark) : Bool :=
  !mark.isStopped && mark.moment = m

/-- The texts that are animated in a moment: they wait for their first letter, or are being typed. -/
def liveIds (m : Moment) (marks : List TypingMark) : List Nat :=
  (marks.filter (·.isLive m)).map (·.id)

def Engine.marks (e : Engine Empty σ) : List TypingMark :=
  e.typings.toList.map Typing.mark

theorem map_mark_modify (typings : Array Typing) (index : Nat) (change : Typing → Typing)
    (change' : TypingMark → TypingMark) (h : ∀ t, (change t).mark = change' t.mark) :
    (typings.modify index change).toList.map Typing.mark =
      (typings.toList.map Typing.mark).modify index change' := by
  refine List.ext_getElem? fun other => ?_
  simp only [Array.toList_modify, List.getElem?_map, List.getElem?_modify]
  cases typings.toList[other]? with
  | none => rfl
  | some t =>
      simp only [Option.map_eq_map, Option.map_some]
      split
      · exact congrArg some (h t)
      · rfl

/-- The texts of the turn that are animated. -/
def Engine.animating (e : Engine Empty σ) : List Nat :=
  liveIds e.moment e.marks

/-! ### Notices -/

/-- What a task is to the texts. -/
inductive Occurrence where
  /-- A turn begins. Its first text will have the identity. -/
  | turn (first : Nat)
  /-- The turn of a text has come. -/
  | started (id : Nat)
  /-- The event that a text begins to be typed is triggered. -/
  | begun
  /-- The event that a text is typed out is triggered. -/
  | ended
  /-- The event that all texts are typed out is triggered. -/
  | completed
  | other
deriving Repr, DecidableEq

/-- What is noted before a task. -/
structure Notice where
  what : Occurrence
  /-- The texts of the turn that are animated. -/
  animating : List Nat
  /-- The texts that have not left the queue of the turn. -/
  queue : List Nat
deriving Repr, DecidableEq

/-- The handler renders a text when the turn of that has come. -/
def ShadowHandler.text? (h : ShadowHandler Empty) : Option TypeCall :=
  match h.callback with
  | some (.typeBody call) => some call
  | _ => none

def Engine.occurrence (e : Engine Empty σ) : Task → Occurrence
  | .trigger .passageInit _ => .turn e.nextTypeId
  | .trigger .typingStart _ => .begun
  | .trigger .typingStop _ => .ended
  | .trigger .typingComplete _ => .completed
  | .invoke id _ =>
    match e.handlers[id.index]?.bind ShadowHandler.text? with
    | some call => .started call.id
    | none => .other
  | _ => .other

def Engine.notice (e : Engine Empty σ) (t : Task) : Notice :=
  ⟨e.occurrence t, e.animating, e.texts.map (·.id)⟩

/-- The notices of a run, in order. -/
abbrev Record := List Notice

/-- The engine whose host has noted down a task. -/
def Engine.noting (t : Task) (e : Engine Empty Record) : Engine Empty Record :=
  { e with host := e.host ++ [e.notice t] }

/-- Do a task, like `perform`, and note down each task that is done on the way. -/
def recorded : Nat → Perform Empty Record
  | 0 => fun _ => throw .outOfFuel
  | fuel + 1 => fun t => do
    modify fun e => e.noting t
    performTask Host.idle (recorded fuel) fuel t

/-! ### One text at a time -/

/-- What the texts of a turn are about. -/
inductive Phase where
  /-- No text has its turn. The next one has the identity. -/
  | idle (next : Nat)
  /-- The turn of the text has come: it is being rendered, or was shown at once. -/
  | started (id : Nat)
  /-- The text waits for its first letter. -/
  | waiting (id : Nat)
  /-- The text is being typed. -/
  | typing (id : Nat)
  /-- The last text is typed out, which has not been announced yet. -/
  | drained (next : Nat)

/-- The notice is right in the first phase, and leads to the second. The queue always has the texts
from one identity on. -/
inductive Phase.Step : Phase → Notice → Phase → Prop
  | turn {phase : Phase} {first : Nat} (h : ∀ next, phase ≠ .drained next) :
      Step phase ⟨.turn first, [], []⟩ (.idle first)
  | first {next count : Nat} :
      Step (.idle next) ⟨.started next, [], List.range' next (count + 1)⟩ (.started next)
  | next {id count : Nat} :
      Step (.started id) ⟨.started (id + 1), [], List.range' (id + 1) (count + 1)⟩
        (.started (id + 1))
  | begin {id count : Nat} :
      Step (.started id) ⟨.begun, [id], List.range' id (count + 1)⟩ (.typing id)
  | beginWaiting {id count : Nat} :
      Step (.waiting id) ⟨.begun, [id], List.range' id (count + 1)⟩ (.typing id)
  | stop {id count : Nat} :
      Step (.typing id) ⟨.ended, [], List.range' (id + 1) (count + 1)⟩ (.idle (id + 1))
  | stopLast {id : Nat} : Step (.typing id) ⟨.ended, [], []⟩ (.drained (id + 1))
  | complete {next : Nat} : Step (.drained next) ⟨.completed, [], []⟩ (.idle next)
  | idle {next count : Nat} :
      Step (.idle next) ⟨.other, [], List.range' next count⟩ (.idle next)
  | rendering {id count : Nat} :
      Step (.started id) ⟨.other, [], List.range' id (count + 1)⟩ (.started id)
  | shown {id count : Nat} :
      Step (.started id) ⟨.other, [], List.range' (id + 1) count⟩ (.started id)
  | wait {id count : Nat} :
      Step (.started id) ⟨.other, [id], List.range' id (count + 1)⟩ (.waiting id)
  | waiting {id count : Nat} :
      Step (.waiting id) ⟨.other, [id], List.range' id (count + 1)⟩ (.waiting id)
  | typing {id count : Nat} :
      Step (.typing id) ⟨.other, [id], List.range' id (count + 1)⟩ (.typing id)

/-- Each notice of the record is right in the phase to which the ones before it lead. -/
inductive Phase.Leads : Phase → Record → Phase → Prop
  | refl (phase : Phase) : Leads phase [] phase
  | step {phase phase₁ phase' : Phase} {record : Record} {m : Notice}
      (before : Leads phase record phase₁) (h : phase₁.Step m phase') :
      Leads phase (record ++ [m]) phase'

end StoryEngine
