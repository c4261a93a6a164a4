/-!
# StoryEngine.Lexer

Lexers made of states. A grammar is a type of states and a step for each: a step moves the cursor
over the source, queues items, and names the state to go on with, if any. Items can be pulled one
by one, in which case no more is scanned than the next item needs, or all at once. Positions
count characters.
-/

namespace StoryEngine

/-- A scanned item with its place in the source. -/
structure LexerItem (κ : Type) where
  kind : κ
  text : String
  start : Nat
  pos : Nat
  /-- What is wrong, for error items. -/
  message : Option String
deriving Repr, DecidableEq

/-- The item reports an error. -/
def LexerItem.isError {κ : Type} (item : LexerItem κ) : Bool :=
  item.message.isSome

/-- A lexer with items of kind `κ` and states in `σ`. -/
structure Lexer (κ σ : Type) where
  source : Array Char
  initial : σ
  /-- The state to go on with; none at the end of the scan. -/
  state : Option σ
  /-- Where the item being scanned begins. -/
  start : Nat := 0
  /-- The cursor. -/
  pos : Nat := 0
  /-- A nesting depth, at the disposal of the grammar. -/
  depth : Int := 0
  /-- The items scanned and not yet taken. -/
  items : List (LexerItem κ) := []

namespace Lexer

variable {κ σ : Type}

/-- A lexer at the start of a source. -/
def ofSource (source : String) (initial : σ) : Lexer κ σ where
  source := source.toList.toArray
  initial := initial
  state := some initial

/-- Back to the start of the source. -/
def reset (l : Lexer κ σ) : Lexer κ σ :=
  { source := l.source, initial := l.initial, state := some l.initial }

/-- To the start of another source. -/
def resetWith (l : Lexer κ σ) (source : String) : Lexer κ σ :=
  ofSource source l.initial

/-- The number of characters of the source. -/
def length (l : Lexer κ σ) : Nat :=
  l.source.size

/-- The cursor is at the end. -/
def atEnd (l : Lexer κ σ) : Bool :=
  l.source.size ≤ l.pos

/-- The characters of the source from one position to another. -/
def slice (l : Lexer κ σ) (start stop : Nat) : String :=
  String.ofList (l.source.extract start stop).toList

/-- What is scanned of the current item. -/
def pending (l : Lexer κ σ) : String :=
  l.slice l.start l.pos

/-- What follows the cursor. -/
def rest (l : Lexer κ σ) : String :=
  l.slice l.pos l.source.size

/-- The character at the cursor. -/
def peek? (l : Lexer κ σ) : Option Char :=
  l.source[l.pos]?

/-- The character at the cursor, which moves on. -/
def next (l : Lexer κ σ) : Option Char × Lexer κ σ :=
  match l.peek? with
  | some c => (some c, { l with pos := l.pos + 1 })
  | none => (none, l)

/-- Move the cursor back, to the start at most. -/
def backup (l : Lexer κ σ) (n : Nat) : Lexer κ σ :=
  { l with pos := l.pos - n }

/-- Move the cursor on, to the end at most. -/
def forward (l : Lexer κ σ) (n : Nat) : Lexer κ σ :=
  { l with pos := min (l.pos + n) l.source.size }

/-- Forget what is scanned of the current item. -/
def ignore (l : Lexer κ σ) : Lexer κ σ :=
  { l with start := l.pos }

/-- Move over one character if it satisfies the test, and tell whether it did. -/
def accept (l : Lexer κ σ) (test : Char → Bool) : Bool × Lexer κ σ :=
  match l.peek? with
  | some c => if test c then (true, { l with pos := l.pos + 1 }) else (false, l)
  | none => (false, l)

/-- Move over all characters that satisfy the test. -/
def acceptRun (l : Lexer κ σ) (test : Char → Bool) : Lexer κ σ :=
  { l with pos := l.pos + ((l.source.toList.drop l.pos).takeWhile test).length }

/-- Change the depth. -/
def deepen (l : Lexer κ σ) (change : Int) : Lexer κ σ :=
  { l with depth := l.depth + change }

/-- Queue the current item and begin the next one. -/
def emit (l : Lexer κ σ) (kind : κ) : Lexer κ σ :=
  { l with
    items := l.items ++ [⟨kind, l.pending, l.start, l.pos, none⟩]
    start := l.pos }

/-- Queue an error item. -/
def error (l : Lexer κ σ) (kind : κ) (message : String) : Lexer κ σ :=
  { l with items := l.items ++ [⟨kind, l.pending, l.start, l.pos, some message⟩] }

end Lexer

/-- How the scan goes on from each state: the lexer after the step, and the next state if there
is one. -/
abbrev LexerGrammar (κ σ : Type) := σ → Lexer κ σ → Lexer κ σ × Option σ

namespace Lexer

variable {κ σ : Type}

/-- One step of the grammar; none is left at the end of the scan. -/
def step? (grammar : LexerGrammar κ σ) (l : Lexer κ σ) : Option (Lexer κ σ) :=
  l.state.map fun state =>
    let (after, following) := grammar state l
    { after with state := following }

/-- Up to `n` steps. -/
def steps (grammar : LexerGrammar κ σ) : Nat → Lexer κ σ → Lexer κ σ
  | 0, l => l
  | n + 1, l =>
    match l.step? grammar with
    | some after => steps grammar n after
    | none => l

/-- Scan on, for up to `n` steps, and take all items. -/
def run (grammar : LexerGrammar κ σ) (n : Nat) (l : Lexer κ σ) :
    List (LexerItem κ) × Lexer κ σ :=
  let scanned := l.steps grammar n
  (scanned.items, { scanned with items := [] })

/-- Take the next item, scanning on for up to `n` steps if none is queued. -/
def nextItem (grammar : LexerGrammar κ σ) : Nat → Lexer κ σ → Option (LexerItem κ) × Lexer κ σ
  | n, l =>
    match l.items with
    | item :: rest => (some item, { l with items := rest })
    | [] =>
      match n with
      | 0 => (none, l)
      | n + 1 =>
        match l.step? grammar with
        | some after => nextItem grammar n after
        | none => (none, l)

/-- Take up to `count` items one by one, scanning on for up to `n` steps for each. -/
def takeItems (grammar : LexerGrammar κ σ) (n : Nat) :
    Nat → Lexer κ σ → List (LexerItem κ) × Lexer κ σ
  | 0, l => ([], l)
  | count + 1, l =>
    match l.nextItem grammar n with
    | (none, after) => ([], after)
    | (some item, after) =>
      let (items, final) := takeItems grammar n count after
      (item :: items, final)

end Lexer

end StoryEngine
