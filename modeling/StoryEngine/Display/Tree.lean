import StoryEngine.Entries
import StoryEngine.Names
import StoryEngine.Text.Blank
/-!
# StoryEngine.Display.Tree

What is displayed: a tree of text, elements, error views and debug views. Every list of nodes is
an *output* of its own, and outputs, elements and debug views are known by identities, so that
what was made once can be filled, moved and changed later on, wherever it has got to. A tree only
grows; what is taken out of it stays known.
-/

namespace StoryEngine

/-- The identity of a list of nodes. -/
structure OutputId where
  index : Nat
deriving Repr, DecidableEq

/-- The identity of an element. -/
structure ElementId where
  index : Nat
deriving Repr, DecidableEq

/-- The identity of a debug view. -/
structure ViewId where
  index : Nat
deriving Repr, DecidableEq

/-- An error that a reader sees, with the source text at fault. -/
structure ErrorView where
  message : String
  source : String
deriving Repr, DecidableEq

/-- A piece of displayed content. -/
inductive Node where
  | text (s : String)
  | element (id : ElementId)
  | error (view : ErrorView)
  | debug (id : ViewId)
deriving Repr, DecidableEq

/-- A named container. -/
structure Element where
  tag : String
  classes : List String := []
  attrs : Entries String := []
  content : OutputId
deriving Repr, DecidableEq

/-- A labelled wrapper that shows what produced a piece of output. -/
structure DebugView where
  /-- Where the view was put. -/
  parent : OutputId
  /-- What it wraps. -/
  inside : OutputId
  kind : String
  name : String
  title : String
  modes : List String := []
deriving Repr, DecidableEq

/-- All outputs, elements and debug views there are. -/
structure Tree where
  outputs : Array (List Node) := #[]
  elements : Array Element := #[]
  views : Array DebugView := #[]
deriving Repr, DecidableEq

namespace Tree

/-- The nodes of an output. -/
def nodes (t : Tree) (out : OutputId) : List Node :=
  t.outputs[out.index]?.getD []

/-- Change the nodes of an output. -/
def modifyNodes (t : Tree) (out : OutputId) (change : List Node → List Node) : Tree :=
  { t with outputs := t.outputs.modify out.index change }

/-- Make an empty output. -/
def newOutput (t : Tree) : OutputId × Tree :=
  (⟨t.outputs.size⟩, { t with outputs := t.outputs.push [] })

/-- Make an empty element that is nowhere yet. -/
def newElement (t : Tree) (tag : String) : ElementId × Tree :=
  let (content, t) := t.newOutput
  (⟨t.elements.size⟩, { t with elements := t.elements.push { tag := tag, content := content } })

/-- The element of an identity. -/
def element? (t : Tree) (id : ElementId) : Option Element :=
  t.elements[id.index]?

/-- The debug view of an identity. -/
def view? (t : Tree) (id : ViewId) : Option DebugView :=
  t.views[id.index]?

/-- The content of an element. Elements that were never made share the output of no content. -/
def content (t : Tree) (id : ElementId) : OutputId :=
  match t.element? id with
  | some e => e.content
  | none => ⟨t.outputs.size⟩

/-- The inside of a debug view. -/
def inside (t : Tree) (id : ViewId) : OutputId :=
  match t.view? id with
  | some v => v.inside
  | none => ⟨t.outputs.size⟩

/-! ### Nodes of an output -/

/-- Put a node at the end. -/
def append (t : Tree) (out : OutputId) (node : Node) : Tree :=
  t.modifyNodes out (· ++ [node])

/-- The nodes with a text at the end, which joins a text that is there already. -/
def withText (text : String) : List Node → List Node
  | [] => [.text text]
  | [.text last] => [.text (last ++ text)]
  | node :: rest => node :: withText text rest

/-- Put text at the end. Empty text changes nothing. -/
def pushText (t : Tree) (out : OutputId) (text : String) : Tree :=
  if text.isEmpty then t else t.modifyNodes out (withText text)

/-- Put a new element at the end. -/
def appendElement (t : Tree) (out : OutputId) (tag : String) : ElementId × Tree :=
  let (id, t) := t.newElement tag
  (id, t.append out (.element id))

/-- The error view of a message. -/
def errorView (message source : String) : ErrorView :=
  ⟨if message.isEmpty then "unknown error" else message, source⟩

/-- Put an error view at the end. -/
def appendError (t : Tree) (out : OutputId) (message source : String) : Tree :=
  t.append out (.error (errorView message source))

/-- The nodes with the first one of an identity replaced, if it is among them. -/
def replaceFirst? (old new : Node) : List Node → Option (List Node)
  | [] => none
  | node :: rest =>
    if node = old then some (new :: rest) else (replaceFirst? old new rest).map (node :: ·)

/-- Put a node in the place of an element among the output's own nodes, and tell whether the
element was there. -/
def replaceElement (t : Tree) (out : OutputId) (old : ElementId) (new : Node) : Bool × Tree :=
  match replaceFirst? (.element old) new (t.nodes out) with
  | some nodes => (true, t.modifyNodes out fun _ => nodes)
  | none => (false, t)

/-- Remove all nodes. -/
def clear (t : Tree) (out : OutputId) : Tree :=
  t.modifyNodes out fun _ => []

/-- Move all nodes of one output to the end of another. -/
def appendAll (t : Tree) (out other : OutputId) : Tree :=
  if out = other then t
  else
    let moved := t.nodes other
    (t.clear other).modifyNodes out (· ++ moved)

/-! ### Elements -/

/-- Change an element. -/
def modifyElement (t : Tree) (id : ElementId) (change : Element → Element) : Tree :=
  { t with elements := t.elements.modify id.index change }

/-- The words of a text, which blanks separate. -/
def words (cs : List Char) : List (List Char) :=
  cs.splitBy (fun a b => isBlank a == isBlank b) |>.filter fun word => !word.all isBlank

/-- Give an element the classes of a list with blanks between them. -/
def addClass (t : Tree) (id : ElementId) (classes : String) : Tree :=
  t.modifyElement id fun e =>
    { e with classes := Names.insertAll e.classes ((words classes.toList).map String.ofList) }

/-- Take a class from an element. -/
def removeClass (t : Tree) (id : ElementId) (name : String) : Tree :=
  t.modifyElement id fun e => { e with classes := Names.erase name e.classes }

/-- The element has the class. -/
def hasClass (t : Tree) (id : ElementId) (name : String) : Bool :=
  match t.element? id with
  | some e => e.classes.contains name
  | none => false

/-- Set an attribute of an element. -/
def setAttr (t : Tree) (id : ElementId) (name value : String) : Tree :=
  t.modifyElement id fun e => { e with attrs := Entries.put name value e.attrs }

/-- An attribute of an element. -/
def attr? (t : Tree) (id : ElementId) (name : String) : Option String :=
  (t.element? id).bind fun e => Entries.find? name e.attrs

/-! ### Debug views -/

/-- Put a new debug view at the end. -/
def appendView (t : Tree) (parent : OutputId) (kind name title : String) : ViewId × Tree :=
  let (inside, t) := t.newOutput
  let id : ViewId := ⟨t.views.size⟩
  let t := { t with views := t.views.push ⟨parent, inside, kind, name, title, []⟩ }
  (id, t.append parent (.debug id))

/-- Change a debug view. -/
def modifyView (t : Tree) (id : ViewId) (change : DebugView → DebugView) : Tree :=
  { t with views := t.views.modify id.index change }

/-- Switch modes of a debug view on or off, in order. -/
def setModes (t : Tree) (id : ViewId) (modes : List (String × Bool)) : Tree :=
  t.modifyView id fun v =>
    let switched := modes.foldl (fun names (mode, isOn) =>
      if isOn then Names.insert mode names else Names.erase mode names) v.modes
    { v with modes := switched }

/-- The nodes with others in the place of the first one of an identity, if it is among them. -/
def unwrapFirst? (old : Node) (inner : List Node) : List Node → Option (List Node)
  | [] => none
  | node :: rest =>
    if node = old then some (inner ++ rest) else (unwrapFirst? old inner rest).map (node :: ·)

/-- Remove a debug view from where it was put, and leave what it wraps in its place. A view that
is no longer there keeps what it wraps. -/
def removeView (t : Tree) (id : ViewId) : Tree :=
  match t.view? id with
  | none => t
  | some v =>
    match unwrapFirst? (.debug id) (t.nodes v.inside) (t.nodes v.parent) with
    | none => t
    | some nodes => (t.clear v.inside).modifyNodes v.parent fun _ => nodes

end Tree

end StoryEngine
