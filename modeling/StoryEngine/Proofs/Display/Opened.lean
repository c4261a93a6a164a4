import Mathlib.Data.Finset.Card
import StoryEngine.Display.Reading
import StoryEngine.Proofs.Display.Scene
/-!
# StoryEngine.Proofs.Display.Opened

What a reader comes across who opens every element. A walk through a tree goes only so deep, but deep
enough: no way into a tree on which every output is passed at most once is longer than there are
outputs (`Tree.Shallow.walk_eq`). So a walk comes across what there is (`Tree.Reads.walk`), which is
the same in a plain tree and in one that wraps it (`Tree.Wraps.walk_eq`).
-/

namespace StoryEngine

/-- What a reader comes across at nodes, each one seen from outside. -/
def Seen.all (nodes : List Node) : List Seen :=
  nodes.flatMap fun node => node.seen?.getD []

/-- What a reader comes across who opens it if it is an element, given what is in each one. -/
def Seen.opened (inside : ElementId → List Seen) : Seen → List Seen
  | .element id => .element id :: inside id
  | seen => [seen]

@[simp] theorem Seen.flatMap_opened_letters (inside : ElementId → List Seen) (s : String) :
    (Seen.letters s).flatMap (Seen.opened inside) = Seen.letters s := by
  rw [Seen.letters, List.flatMap_map, List.map_eq_flatMap]
  rfl

namespace Tree

variable {t u : Tree}

/-! ### How deep a walk has to go -/

/-- A node and all that is in it down to a depth. -/
def walkNode (t : Tree) (depth : Nat) (node : Node) : List Node :=
  node :: ((t.inner? node).map (t.walkWithin depth)).getD []

theorem walkWithin_succ (t : Tree) (depth : Nat) (out : OutputId) :
    t.walkWithin (depth + 1) out = (t.nodes out).flatMap (t.walkNode depth) := by
  rw [walkWithin]
  refine List.flatMap_congr fun node _ => ?_
  unfold walkNode
  cases t.inner? node <;> rfl

/-- No way into the output is longer. -/
def Shallow (t : Tree) : Nat → OutputId → Prop
  | 0, _ => False
  | depth + 1, out => ∀ node ∈ t.nodes out, ∀ inner, t.inner? node = some inner →
      Shallow t depth inner

namespace Shallow

theorem succ {depth : Nat} {out : OutputId} (h : t.Shallow depth out) :
    t.Shallow (depth + 1) out := by
  induction depth generalizing out with
  | zero => exact h.elim
  | succ depth ih => exact fun node hnode inner hinner => ih (h node hnode inner hinner)

theorem walkWithin_succ_eq {depth : Nat} {out : OutputId} (h : t.Shallow depth out) :
    t.walkWithin (depth + 1) out = t.walkWithin depth out := by
  induction depth generalizing out with
  | zero => exact h.elim
  | succ depth ih =>
      rw [Tree.walkWithin_succ, Tree.walkWithin_succ t depth]
      refine List.flatMap_congr fun node hnode => ?_
      unfold walkNode
      cases hinner : t.inner? node with
      | none => rfl
      | some inner => rw [Option.map_some, Option.map_some, ih (h node hnode inner hinner)]

end Shallow

open Classical in
/-- The outputs into which no way is longer. -/
noncomputable def shallowOnes (t : Tree) (depth : Nat) : Finset Nat :=
  {i ∈ Finset.range t.outputs.size | t.Shallow depth ⟨i⟩}

theorem mem_shallowOnes {depth i : Nat} :
    i ∈ t.shallowOnes depth ↔ i < t.outputs.size ∧ t.Shallow depth ⟨i⟩ := by
  simp [shallowOnes]

theorem shallowOnes_subset (depth : Nat) : t.shallowOnes depth ⊆ t.shallowOnes (depth + 1) := by
  intro i hi
  obtain ⟨hlt, hshallow⟩ := mem_shallowOnes.mp hi
  exact mem_shallowOnes.mpr ⟨hlt, hshallow.succ⟩

namespace Shallow

/-- A walk comes across all that there is if it goes as deep as there are outputs with ways that are
as short: a way into an output goes on with shorter ways into others. -/
theorem walkWithin_eq {depth : Nat} {out : OutputId} (h : t.Shallow depth out) {k : Nat}
    (hk : (t.shallowOnes depth).card ≤ k) : t.walkWithin k out = t.walkWithin depth out := by
  induction depth generalizing out k with
  | zero => exact h.elim
  | succ depth ih =>
      by_cases hless : t.Shallow depth out
      · rw [hless.walkWithin_succ_eq]
        exact ih hless (Nat.le_trans (Finset.card_le_card (shallowOnes_subset depth)) hk)
      · by_cases hmade : out.index < t.outputs.size
        · -- the output itself is one of them, and those that it leads to have shorter ways
          have hlt : (t.shallowOnes depth).card < (t.shallowOnes (depth + 1)).card := by
            refine Finset.card_lt_card ⟨shallowOnes_subset depth, fun hsubset => hless ?_⟩
            exact (mem_shallowOnes.mp (hsubset (mem_shallowOnes.mpr ⟨hmade, h⟩))).2
          obtain ⟨k, rfl⟩ : ∃ k', k = k' + 1 := ⟨k - 1, by omega⟩
          rw [Tree.walkWithin_succ, Tree.walkWithin_succ]
          refine List.flatMap_congr fun node hnode => ?_
          unfold walkNode
          cases hinner : t.inner? node with
          | none => rfl
          | some inner =>
              rw [Option.map_some, Option.map_some,
                ih (h node hnode inner hinner) (by omega : (t.shallowOnes depth).card ≤ k)]
        · have hempty : t.nodes out = [] := nodes_of_size_le (Nat.le_of_not_lt hmade)
          have hnone (k : Nat) : t.walkWithin k out = [] := by
            cases k with
            | zero => rfl
            | succ k => rw [Tree.walkWithin_succ, hempty, List.flatMap_nil]
          rw [hnone, hnone]

/-- A walk comes across all that there is. -/
theorem walk_eq {depth : Nat} {out : OutputId} (h : t.Shallow depth out) :
    t.walk out = t.walkWithin depth out := by
  have hsubset : t.shallowOnes depth ⊆ Finset.range t.outputs.size := fun i hi =>
    Finset.mem_range.mpr (mem_shallowOnes.mp hi).1
  have hcard := Finset.card_le_card hsubset
  rw [Finset.card_range] at hcard
  exact h.walkWithin_eq hcard

end Shallow

/-! ### All that there is -/

/-- A reader of the nodes who opens every element comes across all of the list. -/
inductive Reads (t : Tree) : List Node → List Seen → Prop
  | nil : t.Reads [] []
  | leaf {node : Node} {rest : List Node} {seen : List Seen} (hinner : t.inner? node = none)
      (h : t.Reads rest seen) : t.Reads (node :: rest) (node.seen?.getD [] ++ seen)
  | inner {node : Node} {out : OutputId} {rest : List Node} {inside seen : List Seen}
      (hinner : t.inner? node = some out) (hinside : t.Reads (t.nodes out) inside)
      (h : t.Reads rest seen) : t.Reads (node :: rest) (node.seen?.getD [] ++ inside ++ seen)

namespace Reads

/-- From some depth on, a walk comes across all of it. -/
theorem exists_depth {nodes : List Node} {seen : List Seen} (h : t.Reads nodes seen) :
    ∃ depth, ∀ k, depth ≤ k →
      (∀ node ∈ nodes, ∀ inner, t.inner? node = some inner → t.Shallow k inner) ∧
        Seen.all (nodes.flatMap (t.walkNode k)) = seen := by
  induction h with
  | nil => exact ⟨0, fun k _ => ⟨by simp, rfl⟩⟩
  | @leaf node rest seen hinner _ ih =>
      obtain ⟨depth, ih⟩ := ih
      refine ⟨depth, fun k hk => ⟨fun other hother inner hinner' => ?_, ?_⟩⟩
      · rcases List.mem_cons.mp hother with rfl | hother
        · rw [hinner] at hinner'
          cases hinner'
        · exact (ih k hk).1 other hother inner hinner'
      · rw [List.flatMap_cons, Seen.all, List.flatMap_append, ← (ih k hk).2]
        simp [walkNode, hinner, Seen.all]
  | @inner node out rest inside seen hinner _ _ ihInside ih =>
      obtain ⟨depth₁, ihInside⟩ := ihInside
      obtain ⟨depth₂, ih⟩ := ih
      refine ⟨max (depth₁ + 1) depth₂, fun k hk => ?_⟩
      obtain ⟨k, rfl⟩ : ∃ k', k = k' + 1 := ⟨k - 1, by omega⟩
      obtain ⟨hshallow, hrest⟩ := ih (k + 1) (by omega)
      obtain ⟨hshallowInside, hinside⟩ := ihInside k (by omega)
      refine ⟨fun other hother inner hinner' => ?_, ?_⟩
      · rcases List.mem_cons.mp hother with rfl | hother
        · rw [hinner] at hinner'
          cases hinner'
          exact hshallowInside
        · exact hshallow other hother inner hinner'
      · have hnode : t.walkNode (k + 1) node = node :: (t.nodes out).flatMap (t.walkNode k) := by
          rw [walkNode, hinner, Option.map_some, Option.getD_some, walkWithin_succ]
        rw [List.flatMap_cons, hnode, ← hinside, ← hrest]
        simp [Seen.all]

/-- A walk comes across all of it. -/
theorem walk {out : OutputId} {seen : List Seen} (h : t.Reads (t.nodes out) seen) :
    Seen.all (t.walk out) = seen := by
  obtain ⟨depth, hdepth⟩ := h.exists_depth
  obtain ⟨hshallow, hseen⟩ := hdepth depth (Nat.le_refl _)
  have hdeep : t.Shallow (depth + 1) out := hshallow
  rw [hdeep.walk_eq, walkWithin_succ, hseen]

end Reads

/-! ### A plain tree and one that wraps it -/

theorem Shows.reads {nodes : List Node} {trail : List Seen} {insides : List OutputId}
    (h : t.Shows nodes trail insides) {inside : ElementId → List Seen}
    (hinside : ∀ id, .element id ∈ trail → t.Reads (t.nodes (t.content id)) (inside id)) :
    t.Reads nodes (trail.flatMap (Seen.opened inside)) := by
  induction h with
  | nil => exact .nil
  | @leaf node seen trail rest insides hseen _ ih =>
      have hrest := ih fun id hid => hinside id (List.mem_append_right _ hid)
      rw [List.flatMap_append]
      cases node with
      | text s =>
          cases hseen
          rw [Seen.flatMap_opened_letters]
          exact Reads.leaf (t := t) rfl hrest
      | element id =>
          cases hseen
          have hinner : t.inner? (.element id) = some (t.content id) := rfl
          have hopened := Reads.inner hinner (hinside id (by simp)) hrest
          simpa [Node.seen?, Seen.opened] using hopened
      | error view =>
          cases hseen
          exact Reads.leaf rfl hrest
      | debug id => cases hseen
  | @debug id v inner trail within insides rest hview _ _ ihInner ih =>
      have hrest := ih fun id hid => hinside id (List.mem_append_right _ hid)
      have hin := ihInner fun id hid => hinside id (List.mem_append_left _ hid)
      have hinner : t.inner? (.debug id) = some v.inside := by
        rw [inner?, Tree.inside, hview]
      rw [List.flatMap_append]
      exact Reads.inner hinner hin hrest

namespace Wraps

variable {regions : OutputId → Region}

/-- A reader who opens every element comes across the same in both trees. -/
theorem reads (h : t.Wraps regions u) {o : OutputId} (ho : o.index < t.outputs.size) :
    ∃ seen, t.Reads (t.nodes o) seen ∧ u.Reads (u.nodes (regions o).root) seen := by
  induction hroom : t.elements.size - (regions o).floor using Nat.strong_induction_on
    generalizing o with
  | _ room ih =>
    have hcovers := h.covers o ho
    -- the elements in a region are newer than the one that it is the content of
    have hinside (id : ElementId) : ∃ seen, .element id ∈ (regions o).trail →
        t.Reads (t.nodes (t.content id)) seen ∧ u.Reads (u.nodes (u.content id)) seen := by
      by_cases hid : .element id ∈ (regions o).trail
      · obtain ⟨hle, hlt⟩ := hcovers.elements id hid
        obtain ⟨hmade, hroot, hfloor⟩ := h.exists_content hlt
        rw [hroot]
        obtain ⟨seen, hseen⟩ := ih _ (by omega) hmade rfl
        exact ⟨seen, fun _ => hseen⟩
      · exact ⟨[], fun hmem => (hid hmem).elim⟩
    choose inside hinside using hinside
    exact ⟨_, hcovers.plain.reads fun id hid => (hinside id hid).1,
      hcovers.wrapped.reads fun id hid => (hinside id hid).2⟩

theorem walk_eq (h : t.Wraps regions u) {o : OutputId} (ho : o.index < t.outputs.size) :
    Seen.all (u.walk (regions o).root) = Seen.all (t.walk o) := by
  obtain ⟨seen, hplain, hwrapped⟩ := h.reads ho
  rw [hplain.walk, hwrapped.walk]

end Wraps

end Tree

/-! ### What is read -/

/-- What a reader sees of it. -/
def Seen.visible : Seen → String
  | .letter c => String.singleton c
  | .element _ => ""
  | .error view => "Error: " ++ view.message

namespace Seen

/-- The message of an error. -/
def message? : Seen → Option String
  | .error view => some view.message
  | _ => none

/-- An element that has a class. -/
def ofClass? (t : Tree) (name : String) : Seen → Option ElementId
  | .element id => if t.hasClass id name then some id else none
  | _ => none

theorem all_cons (node : Node) (nodes : List Node) :
    all (node :: nodes) = node.seen?.getD [] ++ all nodes := by
  rw [all, List.flatMap_cons]
  rfl

/-- Letters are not read one by one. -/
theorem filterMap_letters {α : Type} {read : Seen → Option α} (h : ∀ c, read (.letter c) = none)
    (s : String) : (letters s).filterMap read = [] := by
  simp [letters, List.filterMap_map, h]

theorem join_visible (nodes : List Node) :
    String.join ((all nodes).map visible) = String.join (nodes.map Node.visible) := by
  induction nodes with
  | nil => rfl
  | cons node rest ih =>
      rw [all_cons, List.map_append, String.join_append, ih, List.map_cons, String.join_cons]
      congr 1
      cases node with
      | text s =>
          refine String.toList_injective ?_
          simp [Node.seen?, letters, Node.visible, String.toList_join, List.flatMap_map, visible]
      | element id => rfl
      | error view => simp [Node.seen?, visible, Node.visible]
      | debug id => rfl

theorem filterMap_all {α : Type} (read : Seen → Option α) {readNode : Node → Option α}
    (hletter : ∀ c, read (.letter c) = none) (htext : ∀ s, readNode (.text s) = none)
    (helement : ∀ id, read (.element id) = readNode (.element id))
    (herror : ∀ view, read (.error view) = readNode (.error view))
    (hdebug : ∀ id, readNode (.debug id) = none) (nodes : List Node) :
    (all nodes).filterMap read = nodes.filterMap readNode := by
  induction nodes with
  | nil => rfl
  | cons node rest ih =>
      rw [all_cons, List.filterMap_append, ih, List.filterMap_cons]
      cases node with
      | text s => simp [Node.seen?, filterMap_letters hletter, htext]
      | element id =>
          cases hread : readNode (.element id) <;> simp [Node.seen?, helement, hread]
      | error view =>
          cases hread : readNode (.error view) <;> simp [Node.seen?, herror, hread]
      | debug id => simp [Node.seen?, hdebug]

end Seen

namespace Tree

variable {t u : Tree} {regions : OutputId → Region} {o : OutputId}

/-- There is nothing in the output of no content. -/
theorem walk_size (t : Tree) : t.walk ⟨t.outputs.size⟩ = [] := by
  have hempty : t.nodes ⟨t.outputs.size⟩ = [] := nodes_of_size_le (Nat.le_refl _)
  have hdeep (depth : Nat) : t.walkWithin depth ⟨t.outputs.size⟩ = [] := by
    cases depth with
    | zero => rfl
    | succ depth => rw [walkWithin_succ, hempty, List.flatMap_nil]
  exact hdeep _

theorem text_eq_all (t : Tree) (out : OutputId) :
    t.text out = String.join ((Seen.all (t.walk out)).map Seen.visible) :=
  (Seen.join_visible _).symm

theorem errors_eq_all (t : Tree) (out : OutputId) :
    t.errors out = (Seen.all (t.walk out)).filterMap Seen.message? := by
  refine (Seen.filterMap_all Seen.message? ?_ ?_ ?_ ?_ ?_ (t.walk out)).symm
  all_goals exact fun _ => rfl

theorem findByClass_eq_all (t : Tree) (out : OutputId) (name : String) :
    t.findByClass out name = (Seen.all (t.walk out)).filterMap (Seen.ofClass? t name) := by
  refine (Seen.filterMap_all (Seen.ofClass? t name) ?_ ?_ ?_ ?_ ?_ (t.walk out)).symm
  all_goals exact fun _ => rfl

namespace Wraps

theorem text_eq (h : t.Wraps regions u) (ho : o.index < t.outputs.size) :
    u.text (regions o).root = t.text o := by
  rw [text_eq_all, text_eq_all, h.walk_eq ho]

theorem errors_eq (h : t.Wraps regions u) (ho : o.index < t.outputs.size) :
    u.errors (regions o).root = t.errors o := by
  rw [errors_eq_all, errors_eq_all, h.walk_eq ho]

theorem hasClass_eq (h : t.Wraps regions u) (id : ElementId) (name : String) :
    u.hasClass id name = t.hasClass id name := by
  by_cases hid : id.index < t.elements.size
  · obtain ⟨a, ha⟩ : ∃ a, t.element? id = some a := ⟨_, Array.getElem?_eq_getElem hid⟩
    obtain ⟨b, hb⟩ : ∃ b, u.element? id = some b :=
      ⟨_, Array.getElem?_eq_getElem (h.size.symm ▸ hid)⟩
    obtain ⟨-, rfl, -⟩ := h.contents id a b ha hb
    rw [hasClass, hasClass, ha, hb]
  · have ha : t.element? id = none := Array.getElem?_eq_none (Nat.le_of_not_lt hid)
    have hb : u.element? id = none :=
      Array.getElem?_eq_none (Nat.le_of_not_lt (h.size.symm ▸ hid))
    rw [hasClass, hasClass, ha, hb]

theorem findByClass_eq (h : t.Wraps regions u) (ho : o.index < t.outputs.size) (name : String) :
    u.findByClass (regions o).root name = t.findByClass o name := by
  have hclass : Seen.ofClass? u name = Seen.ofClass? t name := by
    funext seen
    cases seen with
    | element id => rw [Seen.ofClass?, Seen.ofClass?, h.hasClass_eq]
    | _ => rfl
  rw [findByClass_eq_all, findByClass_eq_all, h.walk_eq ho, hclass]

end Wraps

end Tree

namespace Scene.In

variable {scene : Scene} {t u : Tree}

theorem hasClass_eq (h : scene.In t u) (id : ElementId) (name : String) :
    u.hasClass id name = t.hasClass id name := by
  obtain ⟨regions, h⟩ := h
  exact h.wraps.hasClass_eq id name

/-- What is read off the content of an element is the same in both trees, if it is determined by what
a reader comes across. -/
theorem content_congr {α : Type} {read : Tree → OutputId → α} (h : scene.In t u)
    (hread : ∀ regions o, t.Wraps regions u → o.index < t.outputs.size →
      read u (regions o).root = read t o)
    (hempty : ∀ t : Tree, read t ⟨t.outputs.size⟩ = read {} ⟨0⟩) (id : ElementId) :
    read u (u.content id) = read t (t.content id) := by
  obtain ⟨regions, h⟩ := h
  by_cases hid : id.index < t.elements.size
  · obtain ⟨hmade, hroot, -⟩ := h.wraps.exists_content hid
    rw [hroot]
    exact hread regions _ h.wraps hmade
  · -- an element that was never made has no content
    have hsize := h.wraps.size
    have ht : t.content id = ⟨t.outputs.size⟩ := by
      rw [Tree.content, Tree.element?, Array.getElem?_eq_none (Nat.le_of_not_lt hid)]
    have hu : u.content id = ⟨u.outputs.size⟩ := by
      rw [Tree.content, Tree.element?, Array.getElem?_eq_none (hsize ▸ Nat.le_of_not_lt hid)]
    rw [ht, hu, hempty, hempty]

/-- What is read off an output where work writes, but not in a debug view. -/
theorem spot_congr {α : Type} (read : Tree → OutputId → α) (h : scene.In t u)
    (hread : ∀ regions o, t.Wraps regions u → o.index < t.outputs.size →
      read u (regions o).root = read t o) {o w : OutputId} (hspot : ⟨o, w, []⟩ ∈ scene.spots) :
    read u w = read t o := by
  obtain ⟨regions, h⟩ := h
  obtain ⟨hmade, hopen⟩ := h.spots _ hspot
  have hroot : w = (regions o).root := hopen.eq_root
  rw [hroot]
  exact hread regions o h.wraps hmade

theorem text_content (h : scene.In t u) (id : ElementId) :
    u.text (u.content id) = t.text (t.content id) :=
  h.content_congr (fun _ _ h ho => h.text_eq ho) (fun t => by rw [Tree.text, Tree.walk_size]; rfl) id

theorem errors_content (h : scene.In t u) (id : ElementId) :
    u.errors (u.content id) = t.errors (t.content id) :=
  h.content_congr (fun _ _ h ho => h.errors_eq ho) (fun t => by rw [Tree.errors, Tree.walk_size]; rfl) id

/-- The letters that are typed are the same in both trees. -/
theorem untyped_eq (h : scene.In t u) {id : ElementId} {rest : List Spot}
    (hspots : scene.spots = ⟨t.content id, u.content id, []⟩ :: rest)
    (hslots : ∀ slot ∈ scene.slots, slot.plain ≠ t.content id) :
    (Typer.ofElement u id).1.untyped = (Typer.ofElement t id).1.untyped := by
  obtain ⟨regions, h⟩ := h
  obtain ⟨regions', hroot, h'⟩ := h.setAside hspots hslots
  have hsize : (Typer.ofElement t id).2.outputs.size = t.outputs.size + 1 := by
    unfold Typer.ofElement Tree.appendAll
    dsimp only
    split <;> simp [Tree.clear, Tree.modifyNodes, Tree.newOutput]
  have htext := h'.wraps.text_eq (o := ⟨t.outputs.size⟩) (hsize.symm ▸ Nat.lt_succ_self _)
  rw [hroot] at htext
  exact congrArg String.toList htext

end Scene.In

/-- A content that is set aside moves to a new output. -/
theorem Typer.ofElement_of_made {t : Tree} {id : ElementId}
    (hmade : (t.content id).index < t.outputs.size) :
    t.newOutput.1 ≠ t.content id ∧
      (Typer.ofElement t id).2 = (t.newOutput.2.clear (t.content id)).modifyNodes t.newOutput.1
        (· ++ t.nodes (t.content id)) := by
  have hne : t.newOutput.1 ≠ t.content id := by
    intro heq
    rw [← heq] at hmade
    exact Nat.lt_irrefl _ hmade
  refine ⟨hne, ?_⟩
  rw [Typer.ofElement]
  dsimp only
  rw [Tree.content_newOutput hmade, Tree.appendAll, if_neg hne, Tree.nodes_newOutput]

/-- A content that is put back as soon as it was set aside is where it was. The output that it was
in meanwhile stays empty. -/
theorem Typer.finish_ofElement {t : Tree} {id : ElementId}
    (hmade : (t.content id).index < t.outputs.size) :
    (Typer.ofElement t id).1.finish (Typer.ofElement t id).2 =
      ({ (Typer.ofElement t id).1 with isDone := true }, t.newOutput.2) := by
  obtain ⟨hne, haside⟩ := ofElement_of_made hmade
  let aside : Tree :=
    (t.newOutput.2.clear (t.content id)).modifyNodes t.newOutput.1 (· ++ t.nodes (t.content id))
  have haside : (Typer.ofElement t id).2 = aside := haside
  have hcontent : aside.content id = t.content id := by
    have helement : aside.element? id = t.element? id := rfl
    unfold Tree.content at hmade ⊢
    rw [helement]
    cases hid : t.element? id with
    | none =>
        rw [hid] at hmade
        exact (Nat.lt_irrefl _ hmade).elim
    | some a => rfl
  -- what was set aside is all that was in the content
  have hmoved : (aside.clear (t.content id)).nodes t.newOutput.1 = t.nodes (t.content id) := by
    have hempty : (t.newOutput.2.clear (t.content id)).nodes t.newOutput.1 = [] := by
      rw [Tree.clear, Tree.nodes_modifyNodes_of_ne hne, Tree.nodes_newOutput]
      exact Tree.nodes_of_size_le (Nat.le_refl _)
    rw [Tree.clear, Tree.nodes_modifyNodes_of_ne hne, Tree.nodes_modifyNodes, hempty, List.nil_append]
    simp [Tree.clear, Tree.modifyNodes, Tree.newOutput]
  have hback : ((aside.clear (t.content id)).clear t.newOutput.1).modifyNodes (t.content id)
      (· ++ t.nodes (t.content id)) = t.newOutput.2 := by
    have hfull : t.outputs.size ≠ (t.content id).index := fun heq => hne (congrArg OutputId.mk heq)
    refine congrArg (fun outputs => { t with outputs := outputs }) (Array.ext_getElem? fun i => ?_)
    simp only [aside, Tree.clear, Tree.modifyNodes, Tree.newOutput, Array.getElem?_modify,
      Array.getElem?_push]
    by_cases hown : (t.content id).index = i
    · subst hown
      simp [hfull, hfull.symm, Tree.nodes, Array.getElem?_eq_getElem hmade]
    · by_cases hlast : i = t.outputs.size
      · simp [hlast, hfull.symm]
      · simp [hown, hlast, Ne.symm hlast]
  have htyper : (Typer.ofElement t id).1 =
      ⟨id, t.newOutput.1, (Typer.ofElement t id).1.untyped, false⟩ := rfl
  rw [haside, htyper, Typer.finish]
  dsimp only
  rw [if_neg Bool.false_ne_true, hcontent, Tree.appendAll, if_neg hne.symm, hmoved, hback]

/-- Nothing is lost when a content is put back. -/
theorem Typer.extends_back {t : Tree} {id : ElementId}
    (hmade : (t.content id).index < t.outputs.size) :
    (Typer.ofElement t id).2.Extends t.newOutput.2 := by
  obtain ⟨-, haside⟩ := ofElement_of_made hmade
  rw [haside]
  refine ⟨fun _ v hview => ⟨v, hview, rfl⟩, fun _ a ha => ⟨a, ha, rfl⟩, fun o view hmem => ?_, ?_⟩
  · have hcleared {o : OutputId} (h : .error view ∈ (t.newOutput.2.clear (t.content id)).nodes o) :
        .error view ∈ t.newOutput.2.nodes o := by
      by_cases ho : o = t.content id
      · rw [ho, Tree.nodes_clear] at h
        cases h
      · rwa [Tree.clear, Tree.nodes_modifyNodes_of_ne ho] at h
    by_cases ho : o = t.newOutput.1
    · rw [ho, Tree.nodes_modifyNodes (by simp [Tree.clear, Tree.modifyNodes, Tree.newOutput])] at hmem
      rcases List.mem_append.mp hmem with hmem | hmem
      · exact ⟨_, hcleared hmem⟩
      · exact ⟨t.content id, (Tree.nodes_newOutput t _).symm ▸ hmem⟩
    · rw [Tree.nodes_modifyNodes_of_ne ho] at hmem
      exact ⟨o, hcleared hmem⟩
  · simp [Tree.clear, Tree.modifyNodes]

/-- Elements may be made to look different that do not have a class. -/
theorem Tree.Decorates.unless {change : Tree → Tree} (h : Tree.Decorates change) (id : ElementId)
    (name : String) :
    Tree.Decorates fun t => if t.hasClass id name then t else change t where
  scene hscene := by
    rw [hscene.hasClass_eq]
    split
    · exact hscene
    · exact h.scene hscene
  extend t := by
    split
    · exact .refl t
    · exact h.extend t

end StoryEngine
