import StoryEngine.Passage.Segment
/-!
# StoryEngine.Passage.Body

The body of a container macro: what stands between its opening tag and the closing tag that is
paired with it. Child tags divide the body into clauses. Tags of the macro's own name nest; tags
inside such a nested call, and closing tags of it, belong to that call.
-/

namespace StoryEngine

/-- The opening tag or a child tag, with the source up to the next clause or the closing tag. -/
structure Clause where
  name : String
  args : String
  contents : String
  /-- The tag as written. -/
  source : String
deriving Repr, DecidableEq

/-- The clauses of a body, and where it ends. -/
structure Body where
  clauses : List Clause
  /-- The index of the segment after the closing tag. -/
  next : Nat
  /-- The byte offset just past the closing tag. -/
  stop : Nat
deriving Repr, DecidableEq

/-- Why an opening tag has no body. -/
inductive BodyError where
  /-- There is no opening tag. -/
  | notATag
  /-- The closing tag has arguments. -/
  | argumentsOnClosing (tag : String)
  /-- There is no closing tag. -/
  | unclosed (parent : String)
deriving Repr, DecidableEq

/-- The wording of the error. -/
def BodyError.message : BodyError → String
  | notATag => "no opening tag to pair"
  | argumentsOnClosing tag => "closing tag <<" ++ tag ++ ">> does not accept arguments"
  | unclosed parent => "cannot find a closing tag for macro <<" ++ parent ++ ">>"

/-- The clause with more source behind its contents. -/
def Clause.extend (clause : Clause) (more : String) : Clause :=
  { clause with contents := clause.contents ++ more }

/-- The clause that a tag begins. -/
def Clause.ofTag (tag : Tag) : Clause :=
  ⟨tag.name, tag.args, "", tag.source⟩

/-- The body from here on, inside `depth + 1` calls of the macro and in the given clause. The
first of the segments has the given index. -/
def bodyFrom (parent : String) (children : List String) :
    Nat → Clause → Nat → List Segment → Except BodyError Body
  | _, _, _, [] => .error (.unclosed parent)
  | depth, clause, index, .text s :: rest =>
    bodyFrom parent children depth (clause.extend s) (index + 1) rest
  | depth, clause, index, .tag tag :: rest =>
    if tag.name = parent then
      bodyFrom parent children (depth + 1) (clause.extend tag.source) (index + 1) rest
    else if tag.closes parent then
      match depth with
      | 0 =>
        if isBlankText tag.args then .ok ⟨[clause], index + 1, tag.stop⟩
        else .error (.argumentsOnClosing tag.name)
      | outer + 1 => bodyFrom parent children outer (clause.extend tag.source) (index + 1) rest
    else if depth = 0 && children.contains tag.name then
      match bodyFrom parent children 0 (.ofTag tag) (index + 1) rest with
      | .error e => .error e
      | .ok body => .ok { body with clauses := clause :: body.clauses }
    else bodyFrom parent children depth (clause.extend tag.source) (index + 1) rest

/-- The body of the call whose opening tag is the segment at the index. -/
def bodyOf (segments : List Segment) (opening : Nat) (children : List String) :
    Except BodyError Body :=
  match segments[opening]? with
  | some (.tag tag) =>
    bodyFrom tag.name children 0 (.ofTag tag) (opening + 1) (segments.drop (opening + 1))
  | _ => .error .notATag

end StoryEngine
