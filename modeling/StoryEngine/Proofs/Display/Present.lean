import Mathlib.Data.List.Basic
import StoryEngine.Proofs.Display.Growth
/-!
# StoryEngine.Proofs.Display.Present

When two trees show the same. A tree that is parted by some time shows nothing in the output of the
passages that was there at the time (`Tree.Parted.since_of_mem_walk`), so that a change to what is
older is not seen there (`Tree.Parted.showsSame`).
-/

namespace StoryEngine

namespace Tree

/-- The trees show the same in the output: the same nodes, and the same elements and debug views
among them. -/
structure ShowsSame (t t' : Tree) (out : OutputId) : Prop where
  walk : t'.walk out = t.walk out
  elements (id : ElementId) : Node.element id ∈ t.walk out → t'.element? id = t.element? id
  views (id : ViewId) : Node.debug id ∈ t.walk out → t'.view? id = t.view? id

/-- The trees differ at most in what was there at the time and is not where the passages are. -/
structure SamePresent (x : Extent) (display : OutputId) (t t' : Tree) : Prop where
  size : t'.outputs.size = t.outputs.size
  nodes (out : OutputId) : x.Present display out → t'.nodes out = t.nodes out
  elements (id : ElementId) : x.elements ≤ id.index → t'.element? id = t.element? id
  views (id : ViewId) : x.views ≤ id.index → t'.view? id = t.view? id

variable {x : Extent} {display : OutputId} {t t₁ t' : Tree}

theorem ShowsSame.refl (t : Tree) (out : OutputId) : t.ShowsSame t out :=
  ⟨rfl, fun _ _ => rfl, fun _ _ => rfl⟩

namespace SamePresent

theorem refl (t : Tree) : t.SamePresent x display t :=
  ⟨rfl, fun _ _ => rfl, fun _ _ => rfl, fun _ _ => rfl⟩

theorem trans (h : t.SamePresent x display t₁) (h₁ : t₁.SamePresent x display t') :
    t.SamePresent x display t' where
  size := h₁.size.trans h.size
  nodes out hout := (h₁.nodes out hout).trans (h.nodes out hout)
  elements id hid := (h₁.elements id hid).trans (h.elements id hid)
  views id hid := (h₁.views id hid).trans (h.views id hid)

/-- The nodes of an output change that is not present. -/
theorem modifyNodes {out : OutputId} (h : ¬ x.Present display out)
    (change : List Node → List Node) : t.SamePresent x display (t.modifyNodes out change) where
  size := Array.size_modify
  nodes o ho := by
    have hne : out.index ≠ o.index := by
      intro heq
      have hout : out = o := by
        cases out
        cases o
        exact congrArg OutputId.mk heq
      exact h (hout ▸ ho)
    unfold Tree.nodes Tree.modifyNodes
    rw [Array.getElem?_modify, if_neg hne]
  elements _ _ := rfl
  views _ _ := rfl

theorem appendAll {out other : OutputId} (hout : ¬ x.Present display out)
    (hother : ¬ x.Present display other) : t.SamePresent x display (t.appendAll out other) := by
  unfold Tree.appendAll
  split
  · exact refl t
  · exact (modifyNodes hother _).trans (modifyNodes hout _)

/-- An element changes that was there at the time. -/
theorem modifyElement {id : ElementId} (h : id.index < x.elements) (change : Element → Element) :
    t.SamePresent x display (t.modifyElement id change) where
  size := rfl
  nodes _ _ := rfl
  elements other hother := by
    have hne : id.index ≠ other.index := Nat.ne_of_lt (Nat.lt_of_lt_of_le h hother)
    show (t.elements.modify id.index change)[other.index]? = t.elements[other.index]?
    rw [Array.getElem?_modify, if_neg hne]
  views _ _ := rfl

/-- The content of an element is put back where the element was there at the time, from where it
was set aside then. -/
theorem finish {typer : Typer} (hwrapper : ¬ x.Present display (t.content typer.wrapper))
    (hfull : ¬ x.Present display typer.full) :
    t.SamePresent x display (typer.finish t).2 := by
  unfold Typer.finish
  split
  · exact refl t
  · exact (modifyNodes hwrapper _).trans (appendAll hwrapper hfull)

end SamePresent

namespace Parted

/-- What is inside of a recent node is present. -/
theorem present_of_inner? (ht : t.Parted x display) {node : Node} (h : node.Since x)
    {out : OutputId} (hinner : t.inner? node = some out) : x.Present display out := by
  cases node with
  | text s => cases hinner
  | error view => cases hinner
  | element id =>
      cases hinner
      exact ht.present_content h
  | debug id =>
      cases hinner
      unfold Tree.inside
      split
      · rename_i v hv
        exact ht.inside id v hv h
      · exact .inl ht.extent.outputs

/-- What is present shows only what is recent, at any depth. -/
theorem since_of_mem_walkWithin (ht : t.Parted x display) {depth : Nat} {out : OutputId}
    (hout : x.Present display out) {node : Node} (h : node ∈ t.walkWithin depth out) :
    node.Since x := by
  induction depth generalizing out with
  | zero => cases h
  | succ depth ih =>
      rw [Tree.walkWithin] at h
      obtain ⟨first, hfirst, hmem⟩ := List.mem_flatMap.mp h
      have hsince := ht.nodes out hout first hfirst
      cases hinner : t.inner? first with
      | none =>
          rw [hinner] at hmem
          rw [List.mem_singleton.mp hmem]
          exact hsince
      | some inner =>
          rw [hinner] at hmem
          rcases List.mem_cons.mp hmem with rfl | hrest
          · exact hsince
          · exact ih (ht.present_of_inner? hsince hinner) hrest

theorem since_of_mem_walk (ht : t.Parted x display) {out : OutputId}
    (hout : x.Present display out) {node : Node} (h : node ∈ t.walk out) : node.Since x :=
  ht.since_of_mem_walkWithin hout h

/-- What is inside of a recent node is the same if what is present is. -/
theorem inner?_eq (h : t.SamePresent x display t') {node : Node} (hsince : node.Since x) :
    t'.inner? node = t.inner? node := by
  cases node with
  | text s => rfl
  | error view => rfl
  | element id =>
      show some (t'.content id) = some (t.content id)
      unfold Tree.content
      rw [h.elements id hsince, h.size]
  | debug id =>
      show some (t'.inside id) = some (t.inside id)
      unfold Tree.inside
      rw [h.views id hsince, h.size]

theorem walkWithin_eq (ht : t.Parted x display) (h : t.SamePresent x display t') (depth : Nat)
    {out : OutputId} (hout : x.Present display out) :
    t'.walkWithin depth out = t.walkWithin depth out := by
  induction depth generalizing out with
  | zero => rfl
  | succ depth ih =>
      rw [Tree.walkWithin, Tree.walkWithin, h.nodes out hout]
      refine List.flatMap_congr fun node hnode => ?_
      have hsince := ht.nodes out hout node hnode
      rw [inner?_eq h hsince]
      cases hinner : t.inner? node with
      | none => rfl
      | some inner =>
          dsimp only
          rw [ih (ht.present_of_inner? hsince hinner)]

/-- What is present shows the same if it is the same. -/
theorem showsSame (ht : t.Parted x display) (h : t.SamePresent x display t') {out : OutputId}
    (hout : x.Present display out) : t.ShowsSame t' out where
  walk := by
    rw [Tree.walk, Tree.walk, h.size]
    exact ht.walkWithin_eq h _ hout
  elements id hid := h.elements id (ht.since_of_mem_walk hout hid)
  views id hid := h.views id (ht.since_of_mem_walk hout hid)

end Parted

end Tree

end StoryEngine
