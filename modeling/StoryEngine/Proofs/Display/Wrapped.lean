import Mathlib.Logic.Function.Basic
import StoryEngine.Proofs.Display.Added
/-!
# StoryEngine.Proofs.Display.Wrapped

A tree without debug views beside one with them. To every output of the plain tree belongs a *region*
of the other one: an output of its own, its root, and the insides of all debug views on the way
through it. What a reader comes across is the same (`Tree.Wraps`).
-/

namespace StoryEngine

/-- What belongs to an output of the plain tree. -/
structure Region where
  /-- The output that stands for it. -/
  root : OutputId
  /-- No older elements are in it. -/
  floor : Nat := 0
  /-- What a reader comes across. -/
  trail : List Seen := []
  /-- The insides of the debug views on the way. -/
  insides : List OutputId := []

namespace Region

/-- All outputs of the region. -/
def outputs (r : Region) : List OutputId :=
  r.root :: r.insides

/-- The region stands for the output of the plain tree. -/
structure Covers (r : Region) (t u : Tree) (o : OutputId) : Prop where
  plain : t.Shows (t.nodes o) r.trail []
  wrapped : u.Shows (u.nodes r.root) r.trail r.insides
  nodup : r.outputs.Nodup
  there : ∀ x ∈ r.outputs, x.index < u.outputs.size
  once : ∀ id, r.trail.count (.element id) ≤ 1
  elements : ∀ id, .element id ∈ r.trail → r.floor ≤ id.index ∧ id.index < t.elements.size
  floor_le : r.floor ≤ t.elements.size

variable {r : Region} {t t' u u' : Tree} {o : OutputId}

theorem Covers.congr (h : r.Covers t u o) (ht : t'.nodes o = t.nodes o)
    (helements : t.elements.size ≤ t'.elements.size) (hviews : u.KeepsViews u')
    (hsize : u.outputs.size ≤ u'.outputs.size)
    (hnodes : ∀ x ∈ r.outputs, u'.nodes x = u.nodes x) : r.Covers t' u' o where
  plain := by
    rw [ht]
    exact h.plain.plain
  wrapped := by
    rw [hnodes r.root List.mem_cons_self]
    exact h.wrapped.congr hviews fun x hx => hnodes x (List.mem_cons_of_mem _ hx)
  nodup := h.nodup
  there x hx := Nat.lt_of_lt_of_le (h.there x hx) hsize
  once := h.once
  elements id hid := (h.elements id hid).imp_right fun hlt => Nat.lt_of_lt_of_le hlt helements
  floor_le := Nat.le_trans h.floor_le helements

/-- An element that stands in an output of the region stands there once and nowhere else in it. -/
theorem Covers.stands_once (h : r.Covers t u o) {x : OutputId} (hx : x ∈ r.outputs)
    {id : ElementId} (hid : .element id ∈ u.nodes x) :
    .element id ∈ r.trail ∧ (u.nodes x).count (.element id) = 1 ∧
      ∀ y ∈ r.outputs, y ≠ x → .element id ∉ u.nodes y := by
  have hsum : r.trail.count (.element id) =
      (r.outputs.map fun y => (u.nodes y).count (.element id)).sum := by
    rw [outputs, List.map_cons, List.sum_cons]
    exact h.wrapped.count_element id
  rw [((List.perm_cons_erase hx).map _).sum_nat, List.map_cons, List.sum_cons] at hsum
  have hown : 0 < (u.nodes x).count (.element id) := List.count_pos_iff.mpr hid
  have honce := h.once id
  refine ⟨List.count_pos_iff.mp (by omega), by omega, fun y hy hne => ?_⟩
  have hrest : ((r.outputs.erase x).map fun y => (u.nodes y).count (.element id)).sum = 0 := by
    omega
  have hy : y ∈ r.outputs.erase x := (List.mem_erase_of_ne hne).mpr hy
  rw [List.sum_eq_zero_iff_forall_eq_nat] at hrest
  exact List.count_eq_zero.mp (hrest _ (List.mem_map_of_mem hy))

/-- The region with another element in the place of one. -/
def swapped (r : Region) (old new : ElementId) : Region :=
  { r with trail := r.trail.map (Seen.swap old new) }

theorem Covers.swapped (h : r.Covers t u o) {old new : ElementId} (hviews : u.KeepsViews u')
    (hsize : u'.outputs.size = u.outputs.size) (helements : t'.elements = t.elements)
    (ht : t'.nodes o = (t.nodes o).map (Node.swap old new))
    (hu : ∀ x ∈ r.outputs, u'.nodes x = (u.nodes x).map (Node.swap old new))
    (hnew : .element new ∉ r.trail) (hle : r.floor ≤ new.index) (hlt : new.index < t.elements.size) :
    (r.swapped old new).Covers t' u' o where
  plain := ht ▸ (h.plain.swap (fun _ v hview => ⟨v, hview, rfl⟩) nofun).plain
  wrapped := by
    have hroot : u'.nodes (r.swapped old new).root = (u.nodes r.root).map (Node.swap old new) :=
      hu r.root List.mem_cons_self
    rw [hroot]
    exact h.wrapped.swap hviews fun x hx => hu x (List.mem_cons_of_mem _ hx)
  nodup := h.nodup
  there x hx := hsize ▸ h.there x hx
  once := Seen.count_swap_le h.once hnew
  elements id hid := by
    rw [helements]
    rcases Seen.element_mem_swap hid with rfl | hid
    · exact ⟨hle, hlt⟩
    · exact h.elements id hid
  floor_le := helements ▸ h.floor_le

/-- The region with something more at its end. -/
def followedBy (r : Region) (added : List Seen) (within : List OutputId) : Region :=
  { r with trail := r.trail ++ added, insides := r.insides ++ within }

theorem outputs_followedBy (r : Region) (added : List Seen) (within : List OutputId) :
    (r.followedBy added within).outputs = r.outputs ++ within := rfl

theorem Covers.followedBy (h : r.Covers t u o) {added : List Seen} {within : List OutputId}
    {out : OutputId} (ht : t.Written t' o added []) (hu : u.Written u' out added within)
    (hshows : u'.Shows (u'.nodes r.root) (r.trail ++ added) (r.insides ++ within))
    (hadded : ∀ id, .element id ∈ added → added.count (.element id) ≤ 1 ∧
      .element id ∉ r.trail ∧ r.floor ≤ id.index ∧ id.index < t.elements.size) :
    (r.followedBy added within).Covers t' u' o where
  plain := by
    have hplain := ht.shows _ _ List.not_mem_nil h.plain
    rwa [List.append_nil] at hplain
  wrapped := hshows
  nodup := by
    rw [outputs_followedBy]
    refine List.nodup_append.mpr ⟨h.nodup, hu.nodup, fun x hx y hy heq => ?_⟩
    subst heq
    exact Nat.not_le_of_lt (h.there x hx) (hu.fresh x hy).1
  there x hx := by
    rw [outputs_followedBy] at hx
    rcases List.mem_append.mp hx with hx | hx
    · exact Nat.lt_of_lt_of_le (h.there x hx) hu.extend.outputs
    · exact (hu.fresh x hx).2
  once id := by
    rw [Region.followedBy, List.count_append]
    by_cases hid : .element id ∈ added
    · obtain ⟨hcount, hnot, -⟩ := hadded id hid
      rw [List.count_eq_zero.mpr hnot]
      omega
    · rw [List.count_eq_zero.mpr hid]
      exact h.once id
  elements id hid := by
    rw [ht.elements]
    rcases List.mem_append.mp hid with hid | hid
    · exact h.elements id hid
    · exact (hadded id hid).2.2
  floor_le := by
    rw [ht.elements]
    exact h.floor_le

end Region

namespace Tree

/-- The second tree shows what the plain one does, debug views looked through. -/
structure Wraps (regions : OutputId → Region) (t u : Tree) : Prop where
  covers : ∀ o, o.index < t.outputs.size → (regions o).Covers t u o
  apart : ∀ o o' x, o.index < t.outputs.size → o'.index < t.outputs.size →
    x ∈ (regions o).outputs → x ∈ (regions o').outputs → o = o'
  size : u.elements.size = t.elements.size
  contents : ∀ id a b, t.element? id = some a → u.element? id = some b →
    a.content.index < t.outputs.size ∧ b = { a with content := (regions a.content).root } ∧
      (regions a.content).floor = id.index + 1

/-- An element that is there has a content in both trees, of which the regions know. -/
theorem Wraps.exists_content {regions : OutputId → Region} {t u : Tree} (h : t.Wraps regions u) {id : ElementId}
    (hid : id.index < t.elements.size) :
    (t.content id).index < t.outputs.size ∧ u.content id = (regions (t.content id)).root ∧
      (regions (t.content id)).floor = id.index + 1 := by
  have ha : t.element? id = some t.elements[id.index] := Array.getElem?_eq_getElem hid
  obtain ⟨b, hb⟩ : ∃ b, u.element? id = some b :=
    ⟨_, Array.getElem?_eq_getElem (h.size.symm ▸ hid)⟩
  obtain ⟨hmade, heq, hfloor⟩ := h.contents id _ _ ha hb
  have hplain : t.content id = t.elements[id.index].content := by rw [content, ha]
  have hwrapped : u.content id = (regions (t.content id)).root := by
    rw [content, hb, heq, hplain]
  rw [hwrapped, hplain]
  exact ⟨hmade, rfl, hfloor⟩

/-- One region is another one, in which there may be outputs that were in no region. -/
theorem Wraps.update {regions : OutputId → Region} {t t' u u' : Tree} (h : t.Wraps regions u)
    {o : OutputId} {r : Region} (hroot : r.root = (regions o).root)
    (hfloor : r.floor = (regions o).floor)
    (houtputs : ∀ x ∈ r.outputs, x ∈ (regions o).outputs ∨
      ∀ o', o'.index < t.outputs.size → x ∉ (regions o').outputs)
    (hcovers : r.Covers t' u' o) (hsize : t'.outputs.size = t.outputs.size)
    (helements : t'.elements = t.elements) (helements' : u'.elements = u.elements)
    (hviews : u.KeepsViews u') (hsize' : u.outputs.size ≤ u'.outputs.size)
    (hplain : ∀ o', o'.index < t.outputs.size → o' ≠ o → t'.nodes o' = t.nodes o')
    (hwrapped : ∀ o' x, o'.index < t.outputs.size → o' ≠ o → x ∈ (regions o').outputs →
      u'.nodes x = u.nodes x) :
    t'.Wraps (Function.update regions o r) u' where
  covers o' ho' := by
    rw [hsize] at ho'
    by_cases ho : o' = o
    · subst ho
      rwa [Function.update_self]
    · rw [Function.update_of_ne ho]
      exact (h.covers o' ho').congr (hplain o' ho' ho) (Nat.le_of_eq (by rw [helements])) hviews
        hsize' fun x hx => hwrapped o' x ho' ho hx
  apart o₁ o₂ x ho₁ ho₂ hx₁ hx₂ := by
    rw [hsize] at ho₁ ho₂
    have hold (o' : OutputId) (hx : x ∈ (Function.update regions o r o').outputs) :
        x ∈ (regions o').outputs ∨
          o' = o ∧ ∀ o'', o''.index < t.outputs.size → x ∉ (regions o'').outputs := by
      by_cases ho : o' = o
      · subst ho
        rw [Function.update_self] at hx
        exact (houtputs x hx).imp_right fun hnew => ⟨rfl, hnew⟩
      · rw [Function.update_of_ne ho] at hx
        exact .inl hx
    rcases hold o₁ hx₁ with hold₁ | ⟨hsame₁, hnew₁⟩
    · rcases hold o₂ hx₂ with hold₂ | ⟨-, hnew₂⟩
      · exact h.apart o₁ o₂ x ho₁ ho₂ hold₁ hold₂
      · exact (hnew₂ o₁ ho₁ hold₁).elim
    · rcases hold o₂ hx₂ with hold₂ | ⟨hsame₂, -⟩
      · exact (hnew₁ o₂ ho₂ hold₂).elim
      · rw [hsame₁, hsame₂]
  size := by
    rw [helements, helements']
    exact h.size
  contents id a b ha hb := by
    rw [element?, helements] at ha
    rw [element?, helements'] at hb
    obtain ⟨hmade, hb, hid⟩ := h.contents id a b ha hb
    rw [hsize]
    by_cases ho : a.content = o
    · rw [ho, Function.update_self, hroot, hfloor, ← ho]
      exact ⟨hmade, hb, hid⟩
    · rw [Function.update_of_ne ho]
      exact ⟨hmade, hb, hid⟩

end Tree

end StoryEngine
