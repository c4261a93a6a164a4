import StoryEngine.Display.Typer
import StoryEngine.Proofs.Display.Trail
/-!
# StoryEngine.Proofs.Display.Added

What is added to a tree. Debug views and errors that are there once are never lost
(`Tree.Extends`), and what is put at the end of an output comes at the end of its trail
(`Tree.Written`).
-/

namespace StoryEngine

namespace Tree

/-- Only text changes when text is put at the end. -/
theorem mem_withText_of_ne {text : String} {nodes : List Node} {node : Node} (h : node ∈ nodes)
    (hnode : ∀ s, node ≠ .text s) : node ∈ withText text nodes := by
  induction nodes using withText.induct with
  | case1 => cases h
  | case2 last => exact (hnode last (List.mem_singleton.mp h)).elim
  | case3 first rest hlast ih =>
      rw [withText.eq_3 _ _ _ hlast]
      rcases List.mem_cons.mp h with rfl | h
      · exact List.mem_cons_self
      · exact List.mem_cons_of_mem _ (ih h)

theorem nodes_modifyNodes_of_ne {t : Tree} {out o : OutputId} (h : o ≠ out)
    (change : List Node → List Node) : (t.modifyNodes out change).nodes o = t.nodes o := by
  have hindex : out.index ≠ o.index := fun heq => h (congrArg OutputId.mk heq.symm)
  simp [nodes, modifyNodes, Array.getElem?_modify, hindex]

/-- The content of an element that is there stays its content when an output is made. -/
theorem content_newOutput {t : Tree} {id : ElementId} (h : (t.content id).index < t.outputs.size) :
    t.newOutput.2.content id = t.content id := by
  have helement : t.newOutput.2.element? id = t.element? id := rfl
  unfold content at h ⊢
  rw [helement]
  cases hid : t.element? id with
  | none =>
      rw [hid] at h
      exact (Nat.lt_irrefl _ h).elim
  | some e => rfl

/-- Debug views, elements and errors that are in the first tree are also in the second, and hold there
what they held. -/
structure Extends (t t' : Tree) : Prop where
  views : t.KeepsViews t'
  elements : ∀ id a, t.element? id = some a → ∃ a', t'.element? id = some a' ∧ a'.content = a.content
  errors : ∀ o view, .error view ∈ t.nodes o → ∃ o', .error view ∈ t'.nodes o'
  outputs : t.outputs.size ≤ t'.outputs.size

namespace Extends

variable {t t₁ t' : Tree}

theorem refl (t : Tree) : t.Extends t :=
  ⟨fun _ v hview => ⟨v, hview, rfl⟩, fun _ a ha => ⟨a, ha, rfl⟩, fun o _ hmem => ⟨o, hmem⟩,
    Nat.le_refl _⟩

theorem trans (h : t.Extends t₁) (h₁ : t₁.Extends t') : t.Extends t' where
  views id v hview := by
    obtain ⟨v₁, hview₁, hinside₁⟩ := h.views id v hview
    obtain ⟨v', hview', hinside⟩ := h₁.views id v₁ hview₁
    exact ⟨v', hview', hinside.trans hinside₁⟩
  elements id a ha := by
    obtain ⟨a₁, ha₁, hcontent₁⟩ := h.elements id a ha
    obtain ⟨a', ha', hcontent⟩ := h₁.elements id a₁ ha₁
    exact ⟨a', ha', hcontent.trans hcontent₁⟩
  errors o view hmem := by
    obtain ⟨o₁, hmem₁⟩ := h.errors o view hmem
    exact h₁.errors o₁ view hmem₁
  outputs := Nat.le_trans h.outputs h₁.outputs

/-- Elements that are there stay there. -/
theorem elements_size (h : t.Extends t') : t.elements.size ≤ t'.elements.size := by
  refine Nat.le_of_not_lt fun hlt => ?_
  have ha : t.element? ⟨t'.elements.size⟩ = some t.elements[t'.elements.size] :=
    Array.getElem?_eq_getElem hlt
  obtain ⟨a', ha', -⟩ := h.elements _ _ ha
  exact Nat.lt_irrefl _ (Array.getElem?_eq_some_iff.mp ha').1

/-- An element that is there keeps its content. -/
theorem content_eq (h : t.Extends t') {id : ElementId} (hid : id.index < t.elements.size) :
    t'.content id = t.content id := by
  have ha : t.element? id = some t.elements[id.index] := Array.getElem?_eq_getElem hid
  obtain ⟨a', ha', hcontent⟩ := h.elements id _ ha
  rw [content, content, ha, ha']
  exact hcontent

/-- Nodes of one output change, but no error is lost. -/
theorem modifyNodes {out : OutputId} {change : List Node → List Node}
    (h : ∀ view, .error view ∈ t.nodes out → .error view ∈ change (t.nodes out)) :
    t.Extends (t.modifyNodes out change) where
  views _ v hview := ⟨v, hview, rfl⟩
  elements _ a ha := ⟨a, ha, rfl⟩
  errors o view hmem := by
    refine ⟨o, ?_⟩
    by_cases ho : o = out
    · subst ho
      by_cases hmade : o.index < t.outputs.size
      · rw [nodes_modifyNodes hmade]
        exact h view hmem
      · rw [nodes_of_size_le (Nat.le_of_not_lt hmade)] at hmem
        cases hmem
    · rwa [nodes_modifyNodes_of_ne ho]
  outputs := by simp [Tree.modifyNodes]

theorem append (t : Tree) (out : OutputId) (node : Node) : t.Extends (t.append out node) :=
  modifyNodes fun _ hmem => List.mem_append_left _ hmem

theorem appendError (t : Tree) (out : OutputId) (message source : String) :
    t.Extends (t.appendError out message source) :=
  append t out _

theorem pushText (t : Tree) (out : OutputId) (text : String) : t.Extends (t.pushText out text) := by
  unfold Tree.pushText
  split
  · exact refl t
  · exact modifyNodes fun _ hmem => mem_withText_of_ne hmem nofun

theorem newOutput (t : Tree) : t.Extends t.newOutput.2 where
  views _ v hview := ⟨v, hview, rfl⟩
  elements _ a ha := ⟨a, ha, rfl⟩
  errors o view hmem := by
    refine ⟨o, ?_⟩
    rwa [nodes_newOutput]
  outputs := by simp [Tree.newOutput]

theorem newElement (t : Tree) (tag : String) : t.Extends (t.newElement tag).2 := by
  refine (newOutput t).trans ⟨fun _ v hview => ⟨v, hview, rfl⟩, fun id a ha => ⟨a, ?_, rfl⟩,
    fun o _ hmem => ⟨o, hmem⟩, Nat.le_refl _⟩
  have hlt : id.index < t.elements.size := (Array.getElem?_eq_some_iff.mp ha).1
  exact (Array.getElem?_push_lt hlt).trans (Array.getElem?_eq_getElem hlt ▸ ha)

theorem appendElement (t : Tree) (out : OutputId) (tag : String) :
    t.Extends (t.appendElement out tag).2 :=
  (newElement t tag).trans (append _ out _)

theorem modifyElement (t : Tree) (id : ElementId) {change : Element → Element}
    (h : ∀ a, (change a).content = a.content) : t.Extends (t.modifyElement id change) where
  views _ v hview := ⟨v, hview, rfl⟩
  elements other a ha := by
    have ha : t.elements[other.index]? = some a := ha
    simp only [element?, Tree.modifyElement, Array.getElem?_modify, ha]
    split
    · exact ⟨change a, rfl, h a⟩
    · exact ⟨a, rfl, rfl⟩
  errors o _ hmem := ⟨o, hmem⟩
  outputs := Nat.le_refl _

theorem setModes (t : Tree) (id : ViewId) (modes : List (String × Bool)) :
    t.Extends (t.setModes id modes) where
  views other v hview := by
    have hview : t.views[other.index]? = some v := hview
    simp only [view?, Tree.setModes, Tree.modifyView, Array.getElem?_modify, hview]
    split <;> exact ⟨_, rfl, rfl⟩
  elements _ a ha := ⟨a, ha, rfl⟩
  errors o _ hmem := ⟨o, hmem⟩
  outputs := Nat.le_refl _

/-- A debug view is made. -/
theorem pushView (t : Tree) (view : DebugView) : t.Extends { t with views := t.views.push view } where
  views id v hview := by
    have hlt : id.index < t.views.size := (Array.getElem?_eq_some_iff.mp hview).1
    exact ⟨v, (Array.getElem?_push_lt hlt).trans (Array.getElem?_eq_getElem hlt ▸ hview), rfl⟩
  elements _ a ha := ⟨a, ha, rfl⟩
  errors o _ hmem := ⟨o, hmem⟩
  outputs := Nat.le_refl _

theorem appendView (t : Tree) (out : OutputId) (kind name title : String) :
    t.Extends (t.appendView out kind name title).2 :=
  (newOutput t).trans ((pushView _ _).trans (append _ out _))

/-- An element gives its place to another one. -/
theorem replaceElement (t : Tree) (out : OutputId) (old new : ElementId) :
    t.Extends (t.replaceElement out old (.element new)).2 := by
  have hkept {nodes nodes' : List Node} {view : ErrorView}
      (h : replaceFirst? (.element old) (.element new) nodes = some nodes')
      (hmem : .error view ∈ nodes) : .error view ∈ nodes' := by
    induction nodes generalizing nodes' with
    | nil => cases hmem
    | cons node rest ih =>
        rw [replaceFirst?] at h
        split at h
        · rename_i hnode
          cases h
          rw [hnode] at hmem
          rcases List.mem_cons.mp hmem with hfirst | hrest
          · cases hfirst
          · exact List.mem_cons_of_mem _ hrest
        · obtain ⟨rest', hrest', rfl⟩ := Option.map_eq_some_iff.mp h
          rcases List.mem_cons.mp hmem with hnode | hmem
          · exact hnode ▸ List.mem_cons_self
          · exact List.mem_cons_of_mem _ (ih hrest' hmem)
  unfold Tree.replaceElement
  split
  · rename_i nodes hnodes
    exact modifyNodes fun view hmem => hkept hnodes hmem
  · exact refl t

/-- Nodes move to the end of another output, which is there. -/
theorem appendAll {out : OutputId} (hmade : out.index < t.outputs.size) (other : OutputId) :
    t.Extends (t.appendAll out other) := by
  unfold Tree.appendAll
  split
  · exact refl t
  · rename_i hne
    have hsize : (t.clear other).outputs.size = t.outputs.size := by
      simp [Tree.clear, Tree.modifyNodes]
    refine ⟨fun _ v hview => ⟨v, hview, rfl⟩, fun _ a ha => ⟨a, ha, rfl⟩, fun o view hmem => ?_, ?_⟩
    · by_cases ho : o = other
      · refine ⟨out, ?_⟩
        rw [nodes_modifyNodes (hsize.symm ▸ hmade)]
        exact List.mem_append_right _ (ho ▸ hmem)
      · have hold : .error view ∈ (t.clear other).nodes o :=
          (nodes_modifyNodes_of_ne ho _).symm ▸ hmem
        have hmoved : (t.clear other).Extends
            ((t.clear other).modifyNodes out (· ++ t.nodes other)) :=
          modifyNodes fun _ hmem => List.mem_append_left _ hmem
        exact hmoved.errors o view hold
    · simp [Tree.clear, Tree.modifyNodes]

/-- The content of an element is set aside. -/
theorem ofElement (t : Tree) (id : ElementId) : t.Extends (Typer.ofElement t id).2 := by
  refine (newOutput t).trans (appendAll ?_ _)
  simp [Tree.newOutput]

end Extends

/-- The second tree has in addition what stands at the end of an output: a reader comes across
`added`, on the way through the insides of debug views that are new. -/
structure Written (t t' : Tree) (out : OutputId) (added : List Seen) (within : List OutputId) :
    Prop where
  extend : t.Extends t'
  elements : t'.elements = t.elements
  nodes : ∀ o, o.index < t.outputs.size → o ≠ out → t'.nodes o = t.nodes o
  shows : ∀ trail insides, out ∉ insides → t.Shows (t.nodes out) trail insides →
    t'.Shows (t'.nodes out) (trail ++ added) (insides ++ within)
  kept : ∀ id, .element id ∈ t.nodes out → .element id ∈ t'.nodes out
  fresh : ∀ o ∈ within, t.outputs.size ≤ o.index ∧ o.index < t'.outputs.size
  nodup : within.Nodup

namespace Written

variable {t : Tree} {out : OutputId}

theorem refl (t : Tree) (out : OutputId) : t.Written t out [] [] where
  extend := .refl t
  elements := rfl
  nodes _ _ _ := rfl
  shows _ _ _ h := by simpa using h
  kept _ h := h
  fresh := by simp
  nodup := .nil

/-- Nodes of one output change, so that there is more in it. -/
theorem modifyNodes (hmade : out.index < t.outputs.size) {change : List Node → List Node}
    {added : List Seen}
    (hshows : ∀ trail insides, t.Shows (t.nodes out) trail insides →
      t.Shows (change (t.nodes out)) (trail ++ added) insides)
    (hkept : ∀ node ∈ t.nodes out, (∀ s, node ≠ .text s) → node ∈ change (t.nodes out)) :
    t.Written (t.modifyNodes out change) out added [] := by
  have hother (o : OutputId) (ho : o ≠ out) : (t.modifyNodes out change).nodes o = t.nodes o :=
    nodes_modifyNodes_of_ne ho change
  have hown : (t.modifyNodes out change).nodes out = change (t.nodes out) :=
    nodes_modifyNodes hmade change
  have hextend : t.Extends (t.modifyNodes out change) :=
    .modifyNodes fun view hmem => hkept _ hmem nofun
  exact {
    extend := hextend
    elements := rfl
    nodes := fun o _ ho => hother o ho
    shows := fun trail insides hout h => by
      rw [hown, List.append_nil]
      refine (hshows trail insides h).congr hextend.views fun o ho => hother o fun heq => ?_
      exact hout (heq ▸ ho)
    kept := fun id hid => hown ▸ hkept _ hid nofun
    fresh := by simp
    nodup := .nil }

theorem pushText (hmade : out.index < t.outputs.size) (text : String) :
    t.Written (t.pushText out text) out (Seen.letters text) [] := by
  unfold Tree.pushText
  split
  · rename_i hempty
    rw [String.isEmpty_iff.mp hempty]
    exact .refl t out
  · refine .modifyNodes hmade (fun trail insides h => h.withText text) fun node hnode htext => ?_
    exact mem_withText_of_ne hnode htext

theorem append (hmade : out.index < t.outputs.size) {node : Node} {seen : List Seen}
    (hseen : node.seen? = some seen) : t.Written (t.append out node) out seen [] := by
  refine .modifyNodes hmade (fun trail insides h => ?_) fun other hother _ => by simp [hother]
  have hboth := h.append (Shows.single hseen)
  rwa [List.append_nil] at hboth

theorem view?_appendView (t : Tree) (out : OutputId) (kind name title : String) :
    (t.appendView out kind name title).2.view? ⟨t.views.size⟩ =
      some ⟨out, ⟨t.outputs.size⟩, kind, name, title, []⟩ :=
  Array.getElem?_push_size

theorem nodes_appendView (hmade : out.index < t.outputs.size) (kind name title : String) :
    (t.appendView out kind name title).2.nodes out = t.nodes out ++ [.debug ⟨t.views.size⟩] := by
  refine (nodes_modifyNodes ?_ _).trans (congrArg (· ++ _) (nodes_newOutput t out))
  simpa [newOutput] using Nat.lt_succ_of_lt hmade

/-- A debug view is put at the end that wraps nothing yet. -/
theorem appendView (hmade : out.index < t.outputs.size) (kind name title : String) :
    t.Written (t.appendView out kind name title).2 out [] [⟨t.outputs.size⟩] := by
  let t' := (t.appendView out kind name title).2
  have hother (o : OutputId) (ho : o ≠ out) : t'.nodes o = t.nodes o :=
    (nodes_modifyNodes_of_ne ho _).trans (nodes_newOutput t o)
  have hown : t'.nodes out = t.nodes out ++ [.debug ⟨t.views.size⟩] :=
    nodes_appendView hmade kind name title
  have hview : t'.view? ⟨t.views.size⟩ =
      some ⟨out, ⟨t.outputs.size⟩, kind, name, title, []⟩ := view?_appendView t out kind name title
  have hsize : t'.outputs.size = t.outputs.size + 1 := by
    simp [t', Tree.appendView, Tree.append, Tree.modifyNodes, Tree.newOutput]
  have hextend : t.Extends t' := .appendView t out kind name title
  exact {
    extend := hextend
    elements := rfl
    nodes := fun o _ ho => hother o ho
    shows := fun trail insides hout h => by
      have hempty : t'.nodes ⟨t.outputs.size⟩ = [] := by
        refine (hother _ fun heq => ?_).trans (nodes_of_size_le (Nat.le_refl _))
        rw [← heq] at hmade
        exact Nat.lt_irrefl _ hmade
      rw [hown]
      have hbefore : t'.Shows (t.nodes out) trail insides :=
        h.congr hextend.views fun o ho => hother o fun heq => hout (heq ▸ ho)
      have hinside : t'.Shows (t'.nodes ⟨t.outputs.size⟩) [] [] := hempty.symm ▸ Shows.nil
      exact hbefore.append (.debug hview hinside .nil)
    kept := fun id hid => hown ▸ List.mem_append_left _ hid
    fresh := by
      intro o ho
      rw [List.mem_singleton.mp ho]
      exact ⟨Nat.le_refl _, hsize.symm ▸ Nat.lt_succ_self _⟩
    nodup := by simp }

end Written

end Tree

end StoryEngine
