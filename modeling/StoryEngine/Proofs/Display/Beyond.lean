import Mathlib.Data.List.Basic
import StoryEngine.Proofs.Display.Growth
/-!
# StoryEngine.Proofs.Display.Beyond

Changes beyond a border. What there was at some time (`Extent`) lies on this side of the border, and
what was made later lies beyond it. A change of the tree that only makes something new, or changes
what lies beyond, leaves everything on this side as it was (`Tree.ChangesBeyond`): the outputs, the
elements and the debug views. Each change that a tree allows for has one lemma, which says where the
change has to be made.

Nothing on this side leads across the border, since nodes are of what is there already when they are
put somewhere (`Tree.Settled`). So what a reader meets on this side is the same after such a change,
however deep he goes (`Tree.ChangesBeyond.readsSame`).
-/

namespace StoryEngine

namespace Tree

/-! ### What is there -/

/-- If the node is of an element or a debug view, this is there. -/
def Has (t : Tree) : Node → Prop
  | .text _ => True
  | .element id => id.index < t.elements.size
  | .error _ => True
  | .debug id => id.index < t.views.size

/-- All that is in the tree is there, and what lies beyond the border has its content there. -/
structure Settled (x : Extent) (t : Tree) : Prop where
  extent : x.Le t.extent
  nodes : ∀ out, ∀ node ∈ t.nodes out, t.Has node
  contents : ∀ id el, t.element? id = some el →
    el.content.index < t.outputs.size ∧ (x.elements ≤ id.index → x.outputs ≤ el.content.index)
  insides : ∀ id v, t.view? id = some v →
    v.inside.index < t.outputs.size ∧ (x.views ≤ id.index → x.outputs ≤ v.inside.index)

variable {x : Extent} {t t₁ t' : Tree}

theorem Has.mono {node : Node} (h : t.Has node) (hle : t.extent.Le t'.extent) : t'.Has node := by
  cases node with
  | element id => exact Nat.lt_of_lt_of_le h hle.elements
  | debug id => exact Nat.lt_of_lt_of_le h hle.views
  | _ => trivial

namespace Settled

/-- Seen from the present, nothing lies beyond. -/
theorem now (h : t.Settled x) : t.Settled t.extent where
  extent := .refl _
  nodes := h.nodes
  contents id el hel := by
    have hlt : id.index < t.elements.size := (Array.getElem?_eq_some_iff.mp hel).1
    exact ⟨(h.contents id el hel).1, fun hle => absurd hlt (Nat.not_lt_of_le hle)⟩
  insides id v hv := by
    have hlt : id.index < t.views.size := (Array.getElem?_eq_some_iff.mp hv).1
    exact ⟨(h.insides id v hv).1, fun hle => absurd hlt (Nat.not_lt_of_le hle)⟩

/-- The content of an element that lies beyond lies there too. -/
theorem le_content (h : t.Settled x) {id : ElementId} (hid : x.elements ≤ id.index) :
    x.outputs ≤ (t.content id).index := by
  unfold Tree.content
  split
  · rename_i el hel
    exact (h.contents id el hel).2 hid
  · exact h.extent.outputs

/-- The inside of a debug view that lies beyond lies there too. -/
theorem le_inside (h : t.Settled x) {id : ViewId} (hid : x.views ≤ id.index) :
    x.outputs ≤ (t.inside id).index := by
  unfold Tree.inside
  split
  · rename_i v hv
    exact (h.insides id v hv).2 hid
  · exact h.extent.outputs

end Settled

/-! ### Changes -/

/-- Nothing on this side of the border is changed, and all that is in the tree is there if it was
before. -/
structure ChangesBeyond (x : Extent) (t t' : Tree) : Prop where
  extent : t.extent.Le t'.extent
  nodes (out : OutputId) : out.index < x.outputs → t'.nodes out = t.nodes out
  elements (id : ElementId) : id.index < x.elements → t'.element? id = t.element? id
  views (id : ViewId) : id.index < x.views → t'.view? id = t.view? id
  settled : t.Settled x → t'.Settled x

namespace ChangesBeyond

theorem refl (x : Extent) (t : Tree) : t.ChangesBeyond x t :=
  ⟨.refl _, fun _ _ => rfl, fun _ _ => rfl, fun _ _ => rfl, id⟩

theorem trans (h : t.ChangesBeyond x t₁) (h₁ : t₁.ChangesBeyond x t') : t.ChangesBeyond x t' where
  extent := h.extent.trans h₁.extent
  nodes out hout := (h₁.nodes out hout).trans (h.nodes out hout)
  elements id hid := (h₁.elements id hid).trans (h.elements id hid)
  views id hid := (h₁.views id hid).trans (h.views id hid)
  settled ht := h₁.settled (h.settled ht)

/-! ### Nodes -/

/-- The nodes of an output beyond the border change, to some that are there. -/
theorem modifyNodes {out : OutputId} {change : List Node → List Node} (hout : x.outputs ≤ out.index)
    (h : t.Settled x → ∀ node ∈ change (t.nodes out), t.Has node) :
    t.ChangesBeyond x (t.modifyNodes out change) where
  extent := ⟨Nat.le_of_eq Array.size_modify.symm, Nat.le_refl _, Nat.le_refl _⟩
  nodes o ho := by
    have hne : out.index ≠ o.index := by omega
    unfold Tree.nodes Tree.modifyNodes
    rw [Array.getElem?_modify, if_neg hne]
  elements _ _ := rfl
  views _ _ := rfl
  settled ht := by
    have hsize : (t.modifyNodes out change).outputs.size = t.outputs.size := Array.size_modify
    constructor
    · exact ⟨Nat.le_trans ht.extent.outputs (Nat.le_of_eq hsize.symm), ht.extent.elements,
        ht.extent.views⟩
    · intro o node hnode
      rcases mem_nodes_modifyNodes hnode with hold | ⟨-, -, hnew⟩
      · exact ht.nodes o node hold
      · exact h ht node hnew
    · rw [hsize]
      exact ht.contents
    · rw [hsize]
      exact ht.insides

theorem append {out : OutputId} {node : Node} (hout : x.outputs ≤ out.index) (h : t.Has node) :
    t.ChangesBeyond x (t.append out node) := by
  refine modifyNodes hout fun ht other hother => ?_
  rcases List.mem_append.mp hother with hold | hnew
  · exact ht.nodes out other hold
  · rw [List.mem_singleton.mp hnew]
    exact h

theorem appendError {out : OutputId} (hout : x.outputs ≤ out.index) (message source : String) :
    t.ChangesBeyond x (t.appendError out message source) :=
  append hout trivial

theorem pushText {out : OutputId} (hout : x.outputs ≤ out.index) (text : String) :
    t.ChangesBeyond x (t.pushText out text) := by
  unfold Tree.pushText
  split
  · exact refl x t
  · refine modifyNodes hout fun ht node hnode => ?_
    rcases mem_withText hnode with hold | ⟨s, rfl⟩
    · exact ht.nodes out node hold
    · trivial

theorem clear {out : OutputId} (hout : x.outputs ≤ out.index) : t.ChangesBeyond x (t.clear out) :=
  modifyNodes hout fun _ _ hnode => by cases hnode

theorem replaceElement {out : OutputId} (hout : x.outputs ≤ out.index) (old : ElementId) {new : Node}
    (h : t.Has new) : t.ChangesBeyond x (t.replaceElement out old new).2 := by
  unfold Tree.replaceElement
  split
  · rename_i nodes hnodes
    refine modifyNodes hout fun ht node hnode => ?_
    rcases mem_replaceFirst? hnodes hnode with hold | rfl
    · exact ht.nodes out node hold
    · exact h
  · exact refl x t

/-- Nodes move from one output beyond the border to another. -/
theorem appendAll {out other : OutputId} (hout : x.outputs ≤ out.index)
    (hother : x.outputs ≤ other.index) (ht : t.Settled x) :
    t.ChangesBeyond x (t.appendAll out other) := by
  unfold Tree.appendAll
  split
  · exact refl x t
  · refine (clear hother).trans (modifyNodes hout fun hcleared node hnode => ?_)
    rcases List.mem_append.mp hnode with hold | hmoved
    · exact hcleared.nodes out node hold
    · exact ht.nodes other node hmoved

/-! ### Elements and debug views -/

theorem newOutput (x : Extent) (t : Tree) : t.ChangesBeyond x t.newOutput.2 where
  extent := ⟨size_le_push t.outputs [], Nat.le_refl _, Nat.le_refl _⟩
  nodes out _ := nodes_newOutput t out
  elements _ _ := rfl
  views _ _ := rfl
  settled ht := by
    have hsize : t.outputs.size ≤ t.newOutput.2.outputs.size := size_le_push t.outputs []
    constructor
    · exact ⟨Nat.le_trans ht.extent.outputs hsize, ht.extent.elements, ht.extent.views⟩
    · intro out node hnode
      exact ht.nodes out node (nodes_newOutput t out ▸ hnode)
    · intro id el hel
      exact (ht.contents id el hel).imp_left (Nat.lt_of_lt_of_le · hsize)
    · intro id v hv
      exact (ht.insides id v hv).imp_left (Nat.lt_of_lt_of_le · hsize)

/-- An element is made with the content that was made for it. -/
theorem pushElement (el : Element) (hnew : x.outputs ≤ el.content.index)
    (hmade : el.content.index < t.outputs.size) (hx : x.elements ≤ t.elements.size) :
    t.ChangesBeyond x { t with elements := t.elements.push el } where
  extent := ⟨Nat.le_refl _, size_le_push t.elements el, Nat.le_refl _⟩
  nodes _ _ := rfl
  elements id hid := by
    have hne : id.index ≠ t.elements.size := by omega
    exact (Array.getElem?_push).trans (if_neg hne)
  views _ _ := rfl
  settled ht := by
    have hle : t.extent.Le (Tree.extent { t with elements := t.elements.push el }) :=
      ⟨Nat.le_refl _, size_le_push t.elements el, Nat.le_refl _⟩
    refine ⟨ht.extent.trans hle, fun out node hnode => (ht.nodes out node hnode).mono hle,
      fun id other hother => ?_, ht.insides⟩
    change (t.elements.push el)[id.index]? = some other at hother
    rw [Array.getElem?_push] at hother
    split at hother
    · cases hother
      exact ⟨hmade, fun _ => hnew⟩
    · exact ht.contents id other hother

/-- A debug view is made with the inside that was made for it. -/
theorem pushView (v : DebugView) (hnew : x.outputs ≤ v.inside.index)
    (hmade : v.inside.index < t.outputs.size) (hx : x.views ≤ t.views.size) :
    t.ChangesBeyond x { t with views := t.views.push v } where
  extent := ⟨Nat.le_refl _, Nat.le_refl _, size_le_push t.views v⟩
  nodes _ _ := rfl
  elements _ _ := rfl
  views id hid := by
    have hne : id.index ≠ t.views.size := by omega
    exact (Array.getElem?_push).trans (if_neg hne)
  settled ht := by
    have hle : t.extent.Le (Tree.extent { t with views := t.views.push v }) :=
      ⟨Nat.le_refl _, Nat.le_refl _, size_le_push t.views v⟩
    refine ⟨ht.extent.trans hle, fun out node hnode => (ht.nodes out node hnode).mono hle,
      ht.contents, fun id other hother => ?_⟩
    change (t.views.push v)[id.index]? = some other at hother
    rw [Array.getElem?_push] at hother
    split at hother
    · cases hother
      exact ⟨hmade, fun _ => hnew⟩
    · exact ht.insides id other hother

theorem newElement (hx : x.Le t.extent) (tag : String) :
    t.ChangesBeyond x (t.newElement tag).2 := by
  have hmade : t.outputs.size < t.newOutput.2.outputs.size := by
    simp [Tree.newOutput]
  exact (newOutput x t).trans (pushElement _ hx.outputs hmade hx.elements)

theorem has_newElement (t : Tree) (tag : String) :
    (t.newElement tag).2.Has (.element (t.newElement tag).1) := by
  simp [Tree.Has, Tree.newElement, Tree.newOutput]

theorem appendElement (hx : x.Le t.extent) {out : OutputId} (hout : x.outputs ≤ out.index)
    (tag : String) : t.ChangesBeyond x (t.appendElement out tag).2 :=
  (newElement hx tag).trans (append hout (has_newElement t tag))

theorem appendView (hx : x.Le t.extent) {parent : OutputId} (hparent : x.outputs ≤ parent.index)
    (kind name title : String) : t.ChangesBeyond x (t.appendView parent kind name title).2 := by
  have hmade : t.outputs.size < t.newOutput.2.outputs.size := by
    simp [Tree.newOutput]
  refine ((newOutput x t).trans (pushView ⟨parent, ⟨t.outputs.size⟩, kind, name, title, []⟩
    hx.outputs hmade hx.views)).trans (append hparent ?_)
  simp [Tree.Has, Tree.newOutput]

theorem modifyElement {id : ElementId} (hid : x.elements ≤ id.index) {change : Element → Element}
    (h : ∀ el, (change el).content = el.content) :
    t.ChangesBeyond x (t.modifyElement id change) where
  extent := ⟨Nat.le_refl _, Nat.le_of_eq Array.size_modify.symm, Nat.le_refl _⟩
  nodes _ _ := rfl
  elements other hother := by
    have hne : id.index ≠ other.index := by omega
    exact (Array.getElem?_modify).trans (if_neg hne)
  views _ _ := rfl
  settled ht := by
    have hle : t.extent.Le (t.modifyElement id change).extent :=
      ⟨Nat.le_refl _, Nat.le_of_eq Array.size_modify.symm, Nat.le_refl _⟩
    refine ⟨ht.extent.trans hle, fun out node hnode => (ht.nodes out node hnode).mono hle,
      fun other el' hel' => ?_, ht.insides⟩
    change (t.elements.modify id.index change)[other.index]? = some el' at hel'
    rw [Array.getElem?_modify] at hel'
    split at hel'
    · obtain ⟨el, hel, rfl⟩ := Option.map_eq_some_iff.mp hel'
      rw [h el]
      exact ht.contents other el hel
    · exact ht.contents other el' hel'

theorem addClass {id : ElementId} (hid : x.elements ≤ id.index) (classes : String) :
    t.ChangesBeyond x (t.addClass id classes) :=
  modifyElement hid fun _ => rfl

theorem removeClass {id : ElementId} (hid : x.elements ≤ id.index) (name : String) :
    t.ChangesBeyond x (t.removeClass id name) :=
  modifyElement hid fun _ => rfl

theorem setAttr {id : ElementId} (hid : x.elements ≤ id.index) (name value : String) :
    t.ChangesBeyond x (t.setAttr id name value) :=
  modifyElement hid fun _ => rfl

theorem setModes {id : ViewId} (hid : x.views ≤ id.index) (modes : List (String × Bool)) :
    t.ChangesBeyond x (t.setModes id modes) where
  extent := ⟨Nat.le_refl _, Nat.le_refl _, Nat.le_of_eq Array.size_modify.symm⟩
  nodes _ _ := rfl
  elements _ _ := rfl
  views other hother := by
    have hne : id.index ≠ other.index := by omega
    exact (Array.getElem?_modify).trans (if_neg hne)
  settled ht := by
    have hle : t.extent.Le (t.setModes id modes).extent :=
      ⟨Nat.le_refl _, Nat.le_refl _, Nat.le_of_eq Array.size_modify.symm⟩
    refine ⟨ht.extent.trans hle, fun out node hnode => (ht.nodes out node hnode).mono hle,
      ht.contents, fun other v' hv' => ?_⟩
    change (t.views.modify _ _)[other.index]? = some v' at hv'
    rw [Array.getElem?_modify] at hv'
    split at hv'
    · obtain ⟨v, hv, rfl⟩ := Option.map_eq_some_iff.mp hv'
      exact ht.insides other v hv
    · exact ht.insides other v' hv'

/-! ### Typing -/

theorem ofElement (ht : t.Settled x) {wrapper : ElementId} (h : x.elements ≤ wrapper.index) :
    t.ChangesBeyond x (Typer.ofElement t wrapper).2 := by
  have hnew : t.ChangesBeyond x t.newOutput.2 := newOutput x t
  have hsettled := hnew.settled ht
  exact hnew.trans (appendAll ht.extent.outputs (hsettled.le_content h) hsettled)

theorem finish (ht : t.Settled x) {typer : Typer} (h : x.elements ≤ typer.wrapper.index)
    (hfull : x.outputs ≤ typer.full.index) : t.ChangesBeyond x (typer.finish t).2 := by
  unfold Typer.finish
  split
  · exact refl x t
  · have hcontent := ht.le_content h
    have hclear : t.ChangesBeyond x (t.clear (t.content typer.wrapper)) := clear hcontent
    exact hclear.trans (appendAll hcontent hfull (hclear.settled ht))

theorem typeNext (ht : t.Settled x) {typer : Typer} (h : x.elements ≤ typer.wrapper.index)
    (hfull : x.outputs ≤ typer.full.index) : t.ChangesBeyond x (typer.typeNext t).2.2 := by
  unfold Typer.typeNext
  split
  · exact refl x t
  · split
    · exact finish ht h hfull
    · exact pushText (ht.le_content h) _

end ChangesBeyond

/-! ### Reading -/

/-- A reader meets the same in the output, however deep he goes. -/
structure ReadsSame (t t' : Tree) (out : OutputId) : Prop where
  walk (depth : Nat) : t'.walkWithin depth out = t.walkWithin depth out
  elements (depth : Nat) (id : ElementId) : Node.element id ∈ t.walkWithin depth out →
    t'.element? id = t.element? id
  views (depth : Nat) (id : ViewId) : Node.debug id ∈ t.walkWithin depth out →
    t'.view? id = t.view? id

/-- What is inside a node that is there is there. -/
theorem Settled.inner?_lt (h : t.Settled x) {node : Node} (hnode : t.Has node) {inner : OutputId}
    (hinner : t.inner? node = some inner) : inner.index < t.outputs.size := by
  cases node with
  | text s => cases hinner
  | error view => cases hinner
  | element id =>
      have hel : t.element? id = some t.elements[id.index] := Array.getElem?_eq_getElem hnode
      cases hinner
      unfold Tree.content
      rw [hel]
      exact (h.contents id _ hel).1
  | debug id =>
      have hv : t.view? id = some t.views[id.index] := Array.getElem?_eq_getElem hnode
      cases hinner
      unfold Tree.inside
      rw [hv]
      exact (h.insides id _ hv).1

/-- All that a reader meets is there. -/
theorem Settled.has_of_mem_walkWithin (h : t.Settled x) {depth : Nat} {out : OutputId}
    {node : Node} (hnode : node ∈ t.walkWithin depth out) : t.Has node := by
  induction depth generalizing out with
  | zero => cases hnode
  | succ depth ih =>
      rw [Tree.walkWithin] at hnode
      obtain ⟨first, hfirst, hmem⟩ := List.mem_flatMap.mp hnode
      have hhas := h.nodes out first hfirst
      cases hinner : t.inner? first with
      | none =>
          rw [hinner] at hmem
          rw [List.mem_singleton.mp hmem]
          exact hhas
      | some inner =>
          rw [hinner] at hmem
          rcases List.mem_cons.mp hmem with rfl | hrest
          · exact hhas
          · exact ih hrest

namespace ChangesBeyond

/-- What is inside a node that was there is what was inside it. -/
theorem inner?_eq (h : t.ChangesBeyond t.extent t') {node : Node} (hnode : t.Has node) :
    t'.inner? node = t.inner? node := by
  cases node with
  | text s => rfl
  | error view => rfl
  | element id =>
      have hel : t.element? id = some t.elements[id.index] := Array.getElem?_eq_getElem hnode
      simp only [Tree.inner?, Tree.content, h.elements id hnode, hel]
  | debug id =>
      have hv : t.view? id = some t.views[id.index] := Array.getElem?_eq_getElem hnode
      simp only [Tree.inner?, Tree.inside, h.views id hnode, hv]

theorem walkWithin_eq (h : t.ChangesBeyond t.extent t') (ht : t.Settled x) (depth : Nat)
    {out : OutputId} (hout : out.index < t.outputs.size) :
    t'.walkWithin depth out = t.walkWithin depth out := by
  induction depth generalizing out with
  | zero => rfl
  | succ depth ih =>
      rw [Tree.walkWithin, Tree.walkWithin, h.nodes out hout]
      refine List.flatMap_congr fun node hnode => ?_
      have hhas := ht.nodes out node hnode
      rw [h.inner?_eq hhas]
      cases hinner : t.inner? node with
      | none => rfl
      | some inner =>
          dsimp only
          rw [ih (ht.inner?_lt hhas hinner)]

/-- What was there reads the same after a change beyond it. -/
theorem readsSame (h : t.ChangesBeyond t.extent t') (ht : t.Settled x) {out : OutputId}
    (hout : out.index < t.outputs.size) : t.ReadsSame t' out where
  walk depth := h.walkWithin_eq ht depth hout
  elements _ id hid := h.elements id (ht.has_of_mem_walkWithin hid)
  views _ id hid := h.views id (ht.has_of_mem_walkWithin hid)

end ChangesBeyond

end Tree

end StoryEngine
