import StoryEngine.Display.Tree
/-!
# StoryEngine.Display.Reading

Reading a display: its text, its errors and its elements of a class, at any depth and in the order
in which a reader meets them. All of them are read off one walk through the tree.
-/

namespace StoryEngine

/-- What a reader sees of a node, apart from what is inside it. -/
def Node.visible : Node → String
  | .text s => s
  | .error view => "Error: " ++ view.message
  | .element _ => ""
  | .debug _ => ""

namespace Tree

/-- The output inside a node, if there is one. -/
def inner? (t : Tree) : Node → Option OutputId
  | .element id => some (t.content id)
  | .debug id => some (t.inside id)
  | .text _ => none
  | .error _ => none

/-- All nodes of an output down to a depth, each one before those inside it. -/
def walkWithin (t : Tree) : Nat → OutputId → List Node
  | 0, _ => []
  | depth + 1, out =>
    (t.nodes out).flatMap fun node =>
      match t.inner? node with
      | some inner => node :: walkWithin t depth inner
      | none => [node]

/-- All nodes of an output, each one before those inside it. No way into the tree is longer than
there are outputs, since none of them lies in itself. -/
def walk (t : Tree) (out : OutputId) : List Node :=
  t.walkWithin t.outputs.size out

/-- The text that a reader sees. -/
def text (t : Tree) (out : OutputId) : String :=
  String.join ((t.walk out).map Node.visible)

/-- The messages of all error views. -/
def errors (t : Tree) (out : OutputId) : List String :=
  (t.walk out).filterMap fun node =>
    match node with
    | .error view => some view.message
    | _ => none

/-- The elements that have a class. -/
def findByClass (t : Tree) (out : OutputId) (name : String) : List ElementId :=
  (t.walk out).filterMap fun node =>
    match node with
    | .element id => if t.hasClass id name then some id else none
    | _ => none

end Tree

end StoryEngine
