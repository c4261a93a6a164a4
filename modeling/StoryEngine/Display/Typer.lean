import StoryEngine.Display.Reading
/-!
# StoryEngine.Display.Typer

Typing an element's content out. The content is set aside and its text shown letter by letter in
its place; in the end the content itself is put back.
-/

namespace StoryEngine

/-- An element whose content is being typed out. -/
structure Typer where
  wrapper : ElementId
  /-- Where the content is set aside. -/
  full : OutputId
  /-- The letters that are not typed yet. -/
  untyped : List Char
  /-- The content is back. -/
  isDone : Bool := false
deriving Repr, DecidableEq

namespace Typer

/-- Set the content of an element aside. -/
def ofElement (t : Tree) (wrapper : ElementId) : Typer × Tree :=
  let (full, t) := t.newOutput
  let t := t.appendAll full (t.content wrapper)
  (⟨wrapper, full, (t.text full).toList, false⟩, t)

/-- Put the content back. -/
def finish (typer : Typer) (t : Tree) : Typer × Tree :=
  if typer.isDone then (typer, t)
  else
    let content := t.content typer.wrapper
    ({ typer with isDone := true }, (t.clear content).appendAll content typer.full)

/-- Type the next letter, and tell whether there was one. If there is none, the content is put
back. -/
def typeNext (typer : Typer) (t : Tree) : Bool × Typer × Tree :=
  if typer.isDone then (false, typer, t)
  else
    match typer.untyped with
    | [] =>
      let (typer, t) := typer.finish t
      (false, typer, t)
    | c :: rest =>
      (true, { typer with untyped := rest },
        t.pushText (t.content typer.wrapper) (String.singleton c))

end Typer

end StoryEngine
