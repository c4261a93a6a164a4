import StoryEngine.Display.Typer
/-!
# StoryEngine.Proofs.Display.Growth

How what is displayed grows. Outputs, elements and debug views are made once and keep their
identities, so how many there were at some time (`Extent`) tells the recent ones from the older
ones. The outputs that are *present* are the recent ones and the one of the passages, and the tree
is *parted* by that time if what is present shows nothing that is older.

`Tree.Grows` says what a change of the tree may do so that a parted tree stays parted, relative to
the time and to the output of the passages. Each change that a tree allows for has one lemma.
-/

namespace StoryEngine

/-! ### The past and the present -/

/-- How many outputs, elements and debug views there were at some time. -/
structure Extent where
  outputs : Nat := 0
  elements : Nat := 0
  views : Nat := 0

/-- There was no more of anything at the time than at another one. -/
structure Extent.Le (x y : Extent) : Prop where
  outputs : x.outputs ≤ y.outputs
  elements : x.elements ≤ y.elements
  views : x.views ≤ y.views

/-- How many outputs, elements and debug views there are. -/
def Tree.extent (t : Tree) : Extent :=
  ⟨t.outputs.size, t.elements.size, t.views.size⟩

/-- The output is the one of the passages or was not there at the time. -/
def Extent.Present (x : Extent) (display out : OutputId) : Prop :=
  x.outputs ≤ out.index ∨ out = display

/-- The node is no element or debug view that was there at the time. -/
def Node.Since (x : Extent) : Node → Prop
  | .text _ => True
  | .element id => x.elements ≤ id.index
  | .error _ => True
  | .debug id => x.views ≤ id.index

theorem Extent.Le.refl (x : Extent) : x.Le x :=
  ⟨Nat.le_refl _, Nat.le_refl _, Nat.le_refl _⟩

theorem Extent.Le.trans {x y z : Extent} (h : x.Le y) (h₁ : y.Le z) : x.Le z :=
  ⟨Nat.le_trans h.outputs h₁.outputs, Nat.le_trans h.elements h₁.elements,
    Nat.le_trans h.views h₁.views⟩

namespace Tree

/-! ### Nodes after a change -/

/-- Only the nodes of one output change. -/
theorem mem_nodes_modifyNodes {t : Tree} {out o : OutputId} {change : List Node → List Node}
    {node : Node} (h : node ∈ (t.modifyNodes out change).nodes o) :
    node ∈ t.nodes o ∨
      (o = out ∧ out.index < t.outputs.size ∧ node ∈ change (t.nodes out)) := by
  unfold Tree.nodes Tree.modifyNodes at h
  rw [Array.getElem?_modify] at h
  split at h
  · rename_i hindex
    have ho : o = out := by
      cases o
      cases out
      exact congrArg OutputId.mk hindex.symm
    subst ho
    cases hnodes : t.outputs[o.index]? with
    | none => rw [hnodes] at h; cases h
    | some nodes =>
        rw [hnodes] at h
        have hlt := (Array.getElem?_eq_some_iff.mp hnodes).1
        refine .inr ⟨rfl, hlt, ?_⟩
        unfold Tree.nodes
        rw [hnodes]
        exact h
  · exact .inl h

/-- The nodes of the outputs that were there stay where they are when another output is made. -/
theorem nodes_newOutput (t : Tree) (out : OutputId) : t.newOutput.2.nodes out = t.nodes out := by
  unfold Tree.nodes Tree.newOutput
  rw [Array.getElem?_push]
  split
  · rename_i h
    rw [h, Array.getElem?_eq_none (Nat.le_refl _)]
    rfl
  · rfl

/-- An output that was never made has no nodes. -/
theorem nodes_of_size_le {t : Tree} {out : OutputId} (h : t.outputs.size ≤ out.index) :
    t.nodes out = [] := by
  unfold Tree.nodes
  rw [Array.getElem?_eq_none h]
  rfl

theorem nodes_clear (t : Tree) (out : OutputId) : (t.clear out).nodes out = [] := by
  unfold Tree.nodes Tree.clear Tree.modifyNodes
  rw [Array.getElem?_modify, if_pos rfl]
  cases t.outputs[out.index]? <;> rfl

/-- Text at the end makes no other nodes than text. -/
theorem mem_withText {text : String} {nodes : List Node} {node : Node}
    (h : node ∈ withText text nodes) : node ∈ nodes ∨ ∃ s, node = .text s := by
  induction nodes using withText.induct with
  | case1 => exact .inr ⟨_, List.mem_singleton.mp h⟩
  | case2 last => exact .inr ⟨_, List.mem_singleton.mp h⟩
  | case3 first rest hlast ih =>
      rw [withText.eq_3 _ _ _ hlast] at h
      rcases List.mem_cons.mp h with rfl | hrest
      · exact .inl List.mem_cons_self
      · rcases ih hrest with hold | htext
        · exact .inl (List.mem_cons_of_mem _ hold)
        · exact .inr htext

theorem mem_replaceFirst? {old new : Node} {nodes nodes' : List Node} {node : Node}
    (h : replaceFirst? old new nodes = some nodes') (hnode : node ∈ nodes') :
    node ∈ nodes ∨ node = new := by
  induction nodes generalizing nodes' with
  | nil => cases h
  | cons first rest ih =>
      rw [replaceFirst?] at h
      split at h
      · cases h
        rcases List.mem_cons.mp hnode with rfl | hrest
        · exact .inr rfl
        · exact .inl (List.mem_cons_of_mem _ hrest)
      · obtain ⟨rest', hrest', rfl⟩ := Option.map_eq_some_iff.mp h
        rcases List.mem_cons.mp hnode with rfl | hnode
        · exact .inl List.mem_cons_self
        · exact (ih hrest' hnode).imp_left (List.mem_cons_of_mem _)

theorem size_le_push {α : Type} (xs : Array α) (a : α) : xs.size ≤ (xs.push a).size := by
  rw [Array.size_push]
  exact Nat.le_succ _

/-! ### Growth -/

/-- What is present shows nothing that was there at the time. -/
structure Parted (x : Extent) (display : OutputId) (t : Tree) : Prop where
  extent : x.Le t.extent
  nodes : ∀ out, x.Present display out → ∀ node ∈ t.nodes out, node.Since x
  /-- The content of an element is present exactly if the element is recent. -/
  content : ∀ id el, t.element? id = some el →
    (x.Present display el.content ↔ x.elements ≤ id.index)
  inside : ∀ id v, t.view? id = some v → x.views ≤ id.index → x.Present display v.inside

/-- What a change of the tree may do: elements and debug views keep where their content is, new
ones have new outputs for it, and a parted tree shows nothing in what is present that was there at
the time. -/
structure Grows (x : Extent) (display : OutputId) (t t' : Tree) : Prop where
  extent : t.extent.Le t'.extent
  content : ∀ id el', t'.element? id = some el' →
    (∃ el, t.element? id = some el ∧ el'.content = el.content) ∨
      (t.elements.size ≤ id.index ∧ t.outputs.size ≤ el'.content.index ∧
        el'.content.index < t'.outputs.size)
  inside : ∀ id v', t'.view? id = some v' →
    (∃ v, t.view? id = some v ∧ v'.inside = v.inside) ∨
      (t.views.size ≤ id.index ∧ t.outputs.size ≤ v'.inside.index)
  nodes : t.Parted x display →
    ∀ out, x.Present display out → ∀ node ∈ t'.nodes out, node.Since x

variable {x : Extent} {display : OutputId} {t t₁ t' : Tree}

/-- Everything is recent if there was nothing yet. -/
theorem parted_zero (display : OutputId) (t : Tree) : t.Parted {} display where
  extent := ⟨Nat.zero_le _, Nat.zero_le _, Nat.zero_le _⟩
  nodes _ _ node _ := by cases node <;> first | trivial | exact Nat.zero_le _
  content id el _ := ⟨fun _ => Nat.zero_le _, fun _ => .inl (Nat.zero_le _)⟩
  inside _ _ _ _ := .inl (Nat.zero_le _)

/-- The content of an element is not present unless the element is recent. -/
theorem Parted.since_of_present (ht : t.Parted x display) {id : ElementId}
    (h : x.Present display (t.content id)) (hlt : (t.content id).index < t.outputs.size) :
    x.elements ≤ id.index := by
  unfold Tree.content at h hlt
  split at h
  · rename_i el hel
    exact (ht.content id el hel).mp h
  · rename_i hel
    rw [hel] at hlt
    exact (Nat.lt_irrefl _ hlt).elim

/-- The content of a recent element is present. -/
theorem Parted.present_content (ht : t.Parted x display) {id : ElementId}
    (h : x.elements ≤ id.index) : x.Present display (t.content id) := by
  unfold Tree.content
  split
  · rename_i el hel
    exact (ht.content id el hel).mpr h
  · exact .inl ht.extent.outputs

namespace Grows

theorem parted (h : t.Grows x display t') (ht : t.Parted x display) : t'.Parted x display where
  extent := ht.extent.trans h.extent
  nodes := h.nodes ht
  content id el' hel' := by
    rcases h.content id el' hel' with ⟨el, hel, heq⟩ | ⟨hid, hout, -⟩
    · rw [heq]
      exact ht.content id el hel
    · exact ⟨fun _ => Nat.le_trans ht.extent.elements hid,
        fun _ => .inl (Nat.le_trans ht.extent.outputs hout)⟩
  inside id v' hv' hid := by
    rcases h.inside id v' hv' with ⟨v, hv, heq⟩ | ⟨-, hout⟩
    · rw [heq]
      exact ht.inside id v hv hid
    · exact .inl (Nat.le_trans ht.extent.outputs hout)

theorem refl (t : Tree) : t.Grows x display t where
  extent := .refl _
  content _ el hel := .inl ⟨el, hel, rfl⟩
  inside _ v hv := .inl ⟨v, hv, rfl⟩
  nodes ht := ht.nodes

theorem trans (h : t.Grows x display t₁) (h₁ : t₁.Grows x display t') : t.Grows x display t' where
  extent := h.extent.trans h₁.extent
  content id el' hel' := by
    rcases h₁.content id el' hel' with ⟨el₁, hel₁, heq₁⟩ | ⟨hid, hout, hlt⟩
    · rcases h.content id el₁ hel₁ with ⟨el, hel, heq⟩ | ⟨hid, hout, hlt⟩
      · exact .inl ⟨el, hel, heq₁.trans heq⟩
      · rw [heq₁]
        exact .inr ⟨hid, hout, Nat.lt_of_lt_of_le hlt h₁.extent.outputs⟩
    · exact .inr ⟨Nat.le_trans h.extent.elements hid, Nat.le_trans h.extent.outputs hout, hlt⟩
  inside id v' hv' := by
    rcases h₁.inside id v' hv' with ⟨v₁, hv₁, heq₁⟩ | ⟨hid, hout⟩
    · rcases h.inside id v₁ hv₁ with ⟨v, hv, heq⟩ | ⟨hid, hout⟩
      · exact .inl ⟨v, hv, heq₁.trans heq⟩
      · rw [heq₁]
        exact .inr ⟨hid, hout⟩
    · exact .inr ⟨Nat.le_trans h.extent.views hid, Nat.le_trans h.extent.outputs hout⟩
  nodes ht := h₁.nodes (h.parted ht)

/-! ### Nodes -/

/-- The nodes of an output change, and what it shows then is recent if it is present. -/
theorem modifyNodes {out : OutputId} {change : List Node → List Node}
    (h : t.Parted x display → x.Present display out → out.index < t.outputs.size →
      ∀ node ∈ change (t.nodes out), node.Since x) :
    t.Grows x display (t.modifyNodes out change) where
  extent := ⟨Nat.le_of_eq Array.size_modify.symm, Nat.le_refl _, Nat.le_refl _⟩
  content _ el hel := .inl ⟨el, hel, rfl⟩
  inside _ v hv := .inl ⟨v, hv, rfl⟩
  nodes ht o ho node hnode := by
    rcases mem_nodes_modifyNodes hnode with hold | ⟨rfl, hlt, hnew⟩
    · exact ht.nodes o ho node hold
    · exact h ht ho hlt node hnew

theorem append {out : OutputId} {node : Node} (h : node.Since x) :
    t.Grows x display (t.append out node) := by
  refine modifyNodes fun ht hout _ other hother => ?_
  rcases List.mem_append.mp hother with hold | hnew
  · exact ht.nodes out hout other hold
  · rw [List.mem_singleton.mp hnew]
    exact h

theorem appendError (out : OutputId) (message source : String) :
    t.Grows x display (t.appendError out message source) :=
  append trivial

theorem pushText (out : OutputId) (text : String) :
    t.Grows x display (t.pushText out text) := by
  unfold Tree.pushText
  split
  · exact refl t
  · refine modifyNodes fun ht hout _ node hnode => ?_
    rcases mem_withText hnode with hold | ⟨s, rfl⟩
    · exact ht.nodes out hout node hold
    · trivial

theorem clear (out : OutputId) : t.Grows x display (t.clear out) :=
  modifyNodes fun _ _ _ _ hnode => by cases hnode

theorem replaceElement (out : OutputId) (old : ElementId) {new : Node} (h : new.Since x) :
    t.Grows x display (t.replaceElement out old new).2 := by
  unfold Tree.replaceElement
  split
  · rename_i nodes hnodes
    refine modifyNodes fun ht hout _ node hnode => ?_
    rcases mem_replaceFirst? hnodes hnode with hold | rfl
    · exact ht.nodes out hout node hold
    · exact h
  · exact refl t

/-- Nodes move from one output to another, and those that get to what is present were present. -/
theorem appendAll (ht : t.Parted x display) {out other : OutputId}
    (h : x.Present display out → out.index < t.outputs.size → x.Present display other) :
    t.Grows x display (t.appendAll out other) := by
  unfold Tree.appendAll
  split
  · exact refl t
  · refine (clear other).trans (modifyNodes fun hcleared hout hlt node hnode => ?_)
    rcases List.mem_append.mp hnode with hold | hmoved
    · exact hcleared.nodes out hout node hold
    · rw [Tree.clear, Tree.modifyNodes, Array.size_modify] at hlt
      exact ht.nodes other (h hout hlt) node hmoved

/-! ### Elements and debug views -/

theorem newOutput (t : Tree) : t.Grows x display t.newOutput.2 where
  extent := ⟨size_le_push t.outputs [], Nat.le_refl _, Nat.le_refl _⟩
  content _ el hel := .inl ⟨el, hel, rfl⟩
  inside _ v hv := .inl ⟨v, hv, rfl⟩
  nodes ht o ho node hnode := ht.nodes o ho node (nodes_newOutput t o ▸ hnode)

theorem newElement (t : Tree) (tag : String) : t.Grows x display (t.newElement tag).2 where
  extent := ⟨size_le_push t.outputs [], size_le_push t.elements _, Nat.le_refl _⟩
  content id el' hel' := by
    change (t.elements.push _)[id.index]? = some el' at hel'
    rw [Array.getElem?_push] at hel'
    split at hel'
    · rename_i hid
      cases hel'
      refine .inr ⟨Nat.le_of_eq hid.symm, Nat.le_refl _, ?_⟩
      show t.outputs.size < (t.outputs.push []).size
      rw [Array.size_push]
      exact Nat.lt_succ_self _
    · exact .inl ⟨el', hel', rfl⟩
  inside _ v hv := .inl ⟨v, hv, rfl⟩
  nodes ht o ho node hnode := ht.nodes o ho node (nodes_newOutput t o ▸ hnode)

/-- A new element is recent. -/
theorem since_newElement (ht : t.Parted x display) (tag : String) :
    x.elements ≤ (t.newElement tag).1.index :=
  ht.extent.elements

theorem appendElement (ht : t.Parted x display) (out : OutputId) (tag : String) :
    t.Grows x display (t.appendElement out tag).2 :=
  (newElement t tag).trans (append (since_newElement ht tag))

theorem modifyElement (id : ElementId) {change : Element → Element}
    (h : ∀ el, (change el).content = el.content) :
    t.Grows x display (t.modifyElement id change) where
  extent := ⟨Nat.le_refl _, Nat.le_of_eq Array.size_modify.symm, Nat.le_refl _⟩
  content other el' hel' := by
    change (t.elements.modify _ change)[other.index]? = some el' at hel'
    rw [Array.getElem?_modify] at hel'
    split at hel'
    · obtain ⟨el, hel, rfl⟩ := Option.map_eq_some_iff.mp hel'
      exact .inl ⟨el, hel, h el⟩
    · exact .inl ⟨el', hel', rfl⟩
  inside _ v hv := .inl ⟨v, hv, rfl⟩
  nodes ht := ht.nodes

theorem addClass (id : ElementId) (classes : String) : t.Grows x display (t.addClass id classes) :=
  modifyElement id fun _ => rfl

theorem removeClass (id : ElementId) (name : String) : t.Grows x display (t.removeClass id name) :=
  modifyElement id fun _ => rfl

theorem setAttr (id : ElementId) (name value : String) :
    t.Grows x display (t.setAttr id name value) :=
  modifyElement id fun _ => rfl

theorem setModes (id : ViewId) (modes : List (String × Bool)) :
    t.Grows x display (t.setModes id modes) where
  extent := ⟨Nat.le_refl _, Nat.le_refl _, Nat.le_of_eq Array.size_modify.symm⟩
  content _ el hel := .inl ⟨el, hel, rfl⟩
  inside other v' hv' := by
    change (t.views.modify _ _)[other.index]? = some v' at hv'
    rw [Array.getElem?_modify] at hv'
    split at hv'
    · obtain ⟨v, hv, rfl⟩ := Option.map_eq_some_iff.mp hv'
      exact .inl ⟨v, hv, rfl⟩
    · exact .inl ⟨v', hv', rfl⟩
  nodes ht := ht.nodes

theorem appendView (ht : t.Parted x display) (parent : OutputId) (kind name title : String) :
    t.Grows x display (t.appendView parent kind name title).2 := by
  have hview : t.Grows x display { t.newOutput.2 with
      views := t.views.push ⟨parent, ⟨t.outputs.size⟩, kind, name, title, []⟩ } := by
    refine ⟨⟨size_le_push t.outputs [], Nat.le_refl _, size_le_push t.views _⟩,
      fun _ el hel => .inl ⟨el, hel, rfl⟩, fun id v' hv' => ?_, fun ht o ho node hnode =>
        ht.nodes o ho node (nodes_newOutput t o ▸ hnode)⟩
    change (t.views.push _)[id.index]? = some v' at hv'
    rw [Array.getElem?_push] at hv'
    split at hv'
    · rename_i hid
      cases hv'
      exact .inr ⟨Nat.le_of_eq hid.symm, Nat.le_refl _⟩
    · exact .inl ⟨v', hv', rfl⟩
  exact hview.trans (append ht.extent.views)

/-! ### Typing -/

/-- The content of a recent element is set aside in a new output. -/
theorem ofElement (ht : t.Parted x display) {wrapper : ElementId}
    (h : x.elements ≤ wrapper.index) : t.Grows x display (Typer.ofElement t wrapper).2 := by
  have hnew : t.Grows x display t.newOutput.2 := newOutput t
  have hparted := hnew.parted ht
  exact hnew.trans (appendAll hparted fun _ _ => hparted.present_content h)

/-- What was set aside from a recent element is present, so it may be put back there. -/
theorem finish (ht : t.Parted x display) {typer : Typer}
    (h : x.elements ≤ typer.wrapper.index → x.Present display typer.full) :
    t.Grows x display (typer.finish t).2 := by
  unfold Typer.finish
  split
  · exact refl t
  · have hclear : t.Grows x display (t.clear (t.content typer.wrapper)) := clear _
    refine hclear.trans (appendAll (hclear.parted ht) fun hcontent hlt => h ?_)
    rw [Tree.clear, Tree.modifyNodes, Array.size_modify] at hlt
    exact ht.since_of_present hcontent hlt

theorem typeNext (ht : t.Parted x display) {typer : Typer}
    (h : x.elements ≤ typer.wrapper.index → x.Present display typer.full) :
    t.Grows x display (typer.typeNext t).2.2 := by
  unfold Typer.typeNext
  split
  · exact refl t
  · split
    · exact finish ht h
    · exact pushText _ _

end Grows

theorem size_appendAll (t : Tree) (out other : OutputId) :
    (t.appendAll out other).outputs.size = t.outputs.size := by
  unfold Tree.appendAll
  split
  · rfl
  · simp only [Tree.clear, Tree.modifyNodes, Array.size_modify]

end Tree

namespace Typer

theorem full_lt_ofElement (t : Tree) (wrapper : ElementId) :
    (ofElement t wrapper).1.full.index < (ofElement t wrapper).2.outputs.size := by
  show t.outputs.size < (Tree.appendAll _ _ _).outputs.size
  rw [Tree.size_appendAll]
  show t.outputs.size < (t.outputs.push []).size
  rw [Array.size_push]
  exact Nat.lt_succ_self _

/-- Typing goes on in the same element, with its content in the same place. -/
structure Continues (typer typer' : Typer) : Prop where
  wrapper : typer'.wrapper = typer.wrapper
  full : typer'.full = typer.full

theorem continues_finish (typer : Typer) (t : Tree) : typer.Continues (typer.finish t).1 := by
  unfold Typer.finish
  split <;> exact ⟨rfl, rfl⟩

theorem continues_typeNext (typer : Typer) (t : Tree) :
    typer.Continues (typer.typeNext t).2.1 := by
  unfold Typer.typeNext
  split
  · exact ⟨rfl, rfl⟩
  · split
    · exact continues_finish typer t
    · exact ⟨rfl, rfl⟩

end Typer

end StoryEngine
