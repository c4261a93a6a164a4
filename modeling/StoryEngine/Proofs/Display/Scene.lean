import StoryEngine.Proofs.Display.Wrapped
/-!
# StoryEngine.Proofs.Display.Scene

What work in progress relies on in a tree without debug views and in one with them: the spots that
it writes at, the elements that it has made and not put anywhere yet, and the elements that keep the
places of others. Whatever is done to both trees alike, and whatever debug views come with it, the
scene remains (`Scene.In`).
-/

namespace StoryEngine

/-- Where work may write: in an output of the plain tree, and in one that is open in the region that
belongs to it. -/
structure Spot where
  plain : OutputId
  wrapped : OutputId
  /-- The outputs that lead to it, the nearest first. -/
  up : List OutputId

/-- An element that keeps the place of another one. -/
structure Slot where
  plain : OutputId
  /-- Where the element stands in the tree with debug views. -/
  wrapped : OutputId
  target : ElementId

/-- What work in progress relies on. -/
structure Scene where
  /-- Where it writes, the innermost spot first. -/
  spots : List Spot := []
  /-- Elements that stand nowhere yet, and the outputs that they are meant for. -/
  held : List (ElementId × OutputId) := []
  slots : List Slot := []

namespace Scene

/-- The scene is there in two trees with these regions. -/
structure Over (scene : Scene) (regions : OutputId → Region) (t u : Tree) : Prop where
  wraps : t.Wraps regions u
  spots : ∀ s ∈ scene.spots, s.plain.index < t.outputs.size ∧
    u.Open (regions s.plain).root s.wrapped s.up
  nested : scene.spots.Pairwise fun inner outer =>
    inner.plain = outer.plain → outer.wrapped :: outer.up <:+ inner.up
  held : ∀ h ∈ scene.held, h.2.index < t.outputs.size ∧ (regions h.2).floor ≤ h.1.index ∧
    h.1.index < t.elements.size ∧
    ∀ o, o.index < t.outputs.size → .element h.1 ∉ (regions o).trail
  heldOnce : (scene.held.map Prod.fst).Nodup
  slots : ∀ s ∈ scene.slots, s.plain.index < t.outputs.size ∧
    s.wrapped ∈ (regions s.plain).outputs ∧ .element s.target ∈ u.nodes s.wrapped
  slotsOnce : (scene.slots.map Slot.target).Nodup

/-- The scene is there in two trees. -/
def In (scene : Scene) (t u : Tree) : Prop :=
  ∃ regions, scene.Over regions t u

namespace Over

variable {scene : Scene} {regions : OutputId → Region} {t t' u u' : Tree}

/-- Less is relied on. -/
theorem mono (h : scene.Over regions t u) {scene' : Scene} (hspots : scene'.spots.Sublist scene.spots)
    (hheld : scene'.held.Sublist scene.held) (hslots : scene'.slots.Sublist scene.slots) :
    scene'.Over regions t u where
  wraps := h.wraps
  spots s hs := h.spots s (hspots.subset hs)
  nested := h.nested.sublist hspots
  held x hx := h.held x (hheld.subset hx)
  heldOnce := h.heldOnce.sublist (hheld.map _)
  slots s hs := h.slots s (hslots.subset hs)
  slotsOnce := h.slotsOnce.sublist (hslots.map _)

/-- What leads to a spot in another region stays as it is. -/
theorem open_congr (h : scene.Over regions t u) {s : Spot} (hs : s ∈ scene.spots)
    (hviews : u.KeepsViews u') (hnodes : ∀ x ∈ (regions s.plain).outputs, u'.nodes x = u.nodes x) :
    u'.Open (regions s.plain).root s.wrapped s.up := by
  obtain ⟨hmade, hopen⟩ := h.spots s hs
  obtain ⟨before, front, inner, behind, -, hfront, hup, -⟩ :=
    hopen.context (h.wraps.covers s.plain hmade).wrapped
  refine hopen.congr hviews fun o ho => hnodes o ?_
  have houtputs : (regions s.plain).outputs = front ++ s.wrapped :: behind := hfront
  simp [houtputs, hup ho]

/-- One region is another one. What is relied on in it has to be there still. -/
theorem update (h : scene.Over regions t u) {o : OutputId} {r : Region}
    (hwraps : t'.Wraps (Function.update regions o r) u') (hfloor : r.floor = (regions o).floor)
    (hsize : t'.outputs.size = t.outputs.size) (helements : t'.elements = t.elements)
    (hviews : u.KeepsViews u')
    (hwrapped : ∀ o' x, o'.index < t.outputs.size → o' ≠ o → x ∈ (regions o').outputs →
      u'.nodes x = u.nodes x)
    (hspots : ∀ s ∈ scene.spots, s.plain = o → u'.Open r.root s.wrapped s.up)
    (hheld : ∀ x ∈ scene.held, .element x.1 ∉ r.trail)
    (hslots : ∀ s ∈ scene.slots, s.plain = o →
      s.wrapped ∈ r.outputs ∧ .element s.target ∈ u'.nodes s.wrapped) :
    scene.Over (Function.update regions o r) t' u' where
  wraps := hwraps
  spots s hs := by
    obtain ⟨hmade, -⟩ := h.spots s hs
    refine ⟨hsize ▸ hmade, ?_⟩
    by_cases ho : s.plain = o
    · rw [ho, Function.update_self]
      exact hspots s hs ho
    · rw [Function.update_of_ne ho]
      exact h.open_congr hs hviews fun x hx => hwrapped s.plain x hmade ho hx
  nested := h.nested
  held x hx := by
    obtain ⟨hmade, hle, hlt, hnowhere⟩ := h.held x hx
    rw [hsize, helements]
    refine ⟨hmade, ?_, hlt, fun o' ho' => ?_⟩
    · by_cases ho : x.2 = o
      · rw [ho, Function.update_self, hfloor, ← ho]
        exact hle
      · rwa [Function.update_of_ne ho]
    · by_cases ho : o' = o
      · rw [ho, Function.update_self]
        exact hheld x hx
      · rw [Function.update_of_ne ho]
        exact hnowhere o' ho'
  heldOnce := h.heldOnce
  slots s hs := by
    obtain ⟨hmade, hmem, htarget⟩ := h.slots s hs
    refine ⟨hsize ▸ hmade, ?_⟩
    by_cases ho : s.plain = o
    · rw [ho, Function.update_self]
      exact hslots s hs ho
    · rw [Function.update_of_ne ho, hwrapped s.plain _ hmade ho hmem]
      exact ⟨hmem, htarget⟩
  slotsOnce := h.slotsOnce

/-- What is written at the innermost spot comes at the end of its region, and leaves alone what leads
to the spot. -/
theorem shows_written {s : Spot} {rest : List Spot} (h : scene.Over regions t u)
    (hspots : scene.spots = s :: rest) {added : List Seen} {within : List OutputId}
    (hu : u.Written u' s.wrapped added within) :
    s.wrapped ∈ (regions s.plain).outputs ∧ (∀ o ∈ s.up, u'.nodes o = u.nodes o) ∧
      u'.Shows (u'.nodes (regions s.plain).root) ((regions s.plain).trail ++ added)
        ((regions s.plain).insides ++ within) := by
  obtain ⟨hmade, hopen⟩ := h.spots s (by simp [hspots])
  have hcovers := h.wraps.covers s.plain hmade
  obtain ⟨before, front, inner, behind, htrail, hfront, hup, hinner, hfill⟩ :=
    hopen.context hcovers.wrapped
  have houtputs : (regions s.plain).outputs = front ++ s.wrapped :: behind := hfront
  have hnodup := hcovers.nodup
  rw [houtputs] at hnodup
  have hsame : ∀ o ∈ front, u'.nodes o = u.nodes o := by
    intro o ho
    refine hu.nodes o (hcovers.there o (by simp [houtputs, ho])) fun heq => ?_
    exact (List.nodup_append.mp hnodup).2.2 o ho s.wrapped List.mem_cons_self heq
  refine ⟨by simp [houtputs], fun o ho => hsame o (hup ho), ?_⟩
  have hbehind : s.wrapped ∉ behind :=
    (List.nodup_cons.mp (List.nodup_append.mp hnodup).2.1).1
  obtain ⟨insides, hinsides, hshows⟩ :=
    hfill u' _ _ hu.extend.views hsame (hu.shows inner behind hbehind hinner)
  have hcons : (regions s.plain).root :: insides =
      (regions s.plain).root :: (regions s.plain).insides ++ within := by
    rw [hinsides, hfront]
    simp
  rw [(List.cons.inj hcons).2, ← List.append_assoc, ← htrail] at hshows
  exact hshows

/-- Something is put at the end of both trees at the innermost spot, with or without debug views.
No element that is held is among it. -/
theorem write {s : Spot} {rest : List Spot} (h : scene.Over regions t u)
    (hspots : scene.spots = s :: rest) {added : List Seen} {within : List OutputId}
    (ht : t.Written t' s.plain added []) (hsize : t'.outputs.size = t.outputs.size)
    (hu : u.Written u' s.wrapped added within)
    (hadded : ∀ id, .element id ∈ added → added.count (.element id) ≤ 1 ∧
      .element id ∉ (regions s.plain).trail ∧ (regions s.plain).floor ≤ id.index ∧
      id.index < t.elements.size)
    (hheld : ∀ x ∈ scene.held, .element x.1 ∉ added) :
    scene.Over (Function.update regions s.plain ((regions s.plain).followedBy added within)) t' u' := by
  obtain ⟨hmade, hopen⟩ := h.spots s (by simp [hspots])
  have hcovers := h.wraps.covers s.plain hmade
  obtain ⟨hmine, hup, hshows⟩ := h.shows_written hspots hu
  have hwrapped (o x : OutputId) (ho : o.index < t.outputs.size) (hne : o ≠ s.plain)
      (hx : x ∈ (regions o).outputs) : u'.nodes x = u.nodes x := by
    refine hu.nodes x ((h.wraps.covers o ho).there x hx) fun heq => ?_
    subst heq
    exact hne (h.wraps.apart o s.plain _ ho hmade hx hmine)
  have hwraps : t'.Wraps (Function.update regions s.plain
      ((regions s.plain).followedBy added within)) u' := by
    refine h.wraps.update rfl rfl (fun x hx => ?_) (hcovers.followedBy ht hu hshows hadded) hsize
      ht.elements hu.elements hu.extend.views hu.extend.outputs ht.nodes hwrapped
    rw [Region.outputs_followedBy] at hx
    refine (List.mem_append.mp hx).imp_right fun hnew o ho hold => ?_
    exact Nat.not_le_of_lt ((h.wraps.covers o ho).there x hold) (hu.fresh x hnew).1
  refine h.update hwraps rfl hsize ht.elements hu.extend.views hwrapped ?_ ?_ ?_
  · intro other hother hplain
    -- the other spots of the region lead to the innermost one
    have hinner : u'.Open (regions s.plain).root s.wrapped s.up := hopen.congr hu.extend.views hup
    rw [hspots] at hother
    rcases List.mem_cons.mp hother with heq | hother
    · rw [heq]
      exact hinner
    · have hnested := h.nested
      rw [hspots] at hnested
      have hsuffix := (List.pairwise_cons.mp hnested).1 other hother hplain.symm
      exact hinner.suffix (hsuffix.trans (List.suffix_cons _ _))
  · intro x hx hmem
    rcases List.mem_append.mp hmem with hmem | hmem
    · exact (h.held x hx).2.2.2 s.plain hmade hmem
    · exact hheld x hx hmem
  · intro slot hslot hplain
    obtain ⟨-, hmem, htarget⟩ := h.slots slot hslot
    rw [hplain] at hmem
    refine ⟨List.mem_append_left _ hmem, ?_⟩
    by_cases hout : slot.wrapped = s.wrapped
    · rw [hout] at htarget ⊢
      exact hu.kept _ htarget
    · rw [hu.nodes _ (hcovers.there _ hmem) hout]
      exact htarget

/-- In one region another element stands in the place of one that keeps no place any more. -/
theorem swap (h : scene.Over regions t u) {o : OutputId} (ho : o.index < t.outputs.size)
    {old new : ElementId} (hsize : t'.outputs.size = t.outputs.size)
    (hsize' : u'.outputs.size = u.outputs.size) (helements : t'.elements = t.elements)
    (helements' : u'.elements = u.elements) (hviews : u.KeepsViews u')
    (ht : t'.nodes o = (t.nodes o).map (Node.swap old new))
    (hu : ∀ x ∈ (regions o).outputs, u'.nodes x = (u.nodes x).map (Node.swap old new))
    (hplain : ∀ o', o' ≠ o → t'.nodes o' = t.nodes o')
    (hwrapped : ∀ o' x, o'.index < t.outputs.size → o' ≠ o → x ∈ (regions o').outputs →
      u'.nodes x = u.nodes x)
    (hnew : .element new ∉ (regions o).trail) (hle : (regions o).floor ≤ new.index)
    (hlt : new.index < t.elements.size) (hheld : ∀ x ∈ scene.held, x.1 ≠ new)
    (hslots : ∀ slot ∈ scene.slots, slot.target ≠ old) :
    scene.Over (Function.update regions o ((regions o).swapped old new)) t' u' := by
  have hcovers := (h.wraps.covers o ho).swapped hviews hsize' helements ht hu hnew hle hlt
  have hwraps := h.wraps.update (r := (regions o).swapped old new) rfl rfl
    (fun x hx => .inl hx) hcovers hsize helements helements' hviews (Nat.le_of_eq hsize'.symm) (fun o' _ hne => hplain o' hne) hwrapped
  refine h.update hwraps rfl hsize helements hviews hwrapped ?_ ?_ ?_
  · intro s hs heq
    obtain ⟨hmade, hopen⟩ := h.spots s hs
    obtain ⟨before, front, inner, behind, -, hfront, hup, -⟩ :=
      hopen.context (h.wraps.covers s.plain hmade).wrapped
    rw [heq] at hopen hfront
    refine hopen.swap hviews fun x hx => hu x ?_
    rw [Region.outputs, hfront]
    exact List.mem_append_left _ (hup hx)
  · intro x hx hmem
    rcases Seen.element_mem_swap hmem with heq | hmem
    · exact hheld x hx heq
    · exact (h.held x hx).2.2.2 o ho hmem
  · intro slot hslot heq
    obtain ⟨-, hmem, htarget⟩ := h.slots slot hslot
    rw [heq] at hmem
    refine ⟨hmem, ?_⟩
    rw [hu _ hmem]
    refine List.mem_map.mpr ⟨_, htarget, if_neg fun hnode => hslots slot hslot ?_⟩
    cases hnode
    rfl

/-- Only elements and modes of debug views change. -/
theorem congr (h : scene.Over regions t u) (ht : t'.outputs = t.outputs)
    (hu : u'.outputs = u.outputs) (hviews : u.KeepsViews u')
    (helements : t'.elements.size = t.elements.size)
    (hsize : u'.elements.size = t'.elements.size)
    (hcontents : ∀ id a b, t'.element? id = some a → u'.element? id = some b →
      a.content.index < t.outputs.size ∧ b = { a with content := (regions a.content).root } ∧
        (regions a.content).floor = id.index + 1) : scene.Over regions t' u' := by
  have hplain (o : OutputId) : t'.nodes o = t.nodes o := by rw [Tree.nodes, ht, Tree.nodes]
  have hwrapped (o : OutputId) : u'.nodes o = u.nodes o := by rw [Tree.nodes, hu, Tree.nodes]
  exact {
    wraps := {
      covers := fun o ho => by
        rw [ht] at ho
        exact (h.wraps.covers o ho).congr (hplain o) (Nat.le_of_eq helements.symm) hviews
          (Nat.le_of_eq (by rw [hu])) fun x _ => hwrapped x
      apart := ht ▸ h.wraps.apart
      size := hsize
      contents := ht ▸ hcontents }
    spots := fun s hs =>
      ⟨ht ▸ (h.spots s hs).1, h.open_congr hs hviews fun x _ => hwrapped x⟩
    nested := h.nested
    held := by
      rw [ht, helements]
      exact h.held
    heldOnce := h.heldOnce
    slots := fun slot hslot => by
      rw [ht, hwrapped]
      exact h.slots slot hslot
    slotsOnce := h.slotsOnce }

/-- Everything that an output and its region hold is taken out of them. -/
theorem clear (h : scene.Over regions t u) {out : OutputId} {rest : List Spot}
    (hspots : scene.spots = ⟨out, (regions out).root, []⟩ :: rest)
    (hslots : ∀ slot ∈ scene.slots, slot.plain ≠ out) :
    scene.Over (Function.update regions out { regions out with trail := [], insides := [] })
      (t.clear out) (u.clear (regions out).root) := by
  obtain ⟨hmade, -⟩ := h.spots _ (by rw [hspots]; exact List.mem_cons_self)
  have hcovers := h.wraps.covers out hmade
  have hroot : (regions out).root ∈ (regions out).outputs := List.mem_cons_self
  have hviews : u.KeepsViews (u.clear (regions out).root) := fun _ v hview => ⟨v, hview, rfl⟩
  have hempty : Region.Covers { regions out with trail := [], insides := [] } (t.clear out)
      (u.clear (regions out).root) out := {
    plain := (Tree.nodes_clear t out).symm ▸ Tree.Shows.nil
    wrapped := (Tree.nodes_clear u (regions out).root).symm ▸ Tree.Shows.nil
    nodup := by simp [Region.outputs]
    there := by
      intro x hx
      rw [List.mem_singleton.mp hx]
      simpa [Tree.clear, Tree.modifyNodes] using hcovers.there _ hroot
    once := by simp
    elements := by simp
    floor_le := hcovers.floor_le }
  have hwrapped (o x : OutputId) (ho : o.index < t.outputs.size) (hne : o ≠ out)
      (hx : x ∈ (regions o).outputs) : (u.clear (regions out).root).nodes x = u.nodes x := by
    refine Tree.nodes_modifyNodes_of_ne (fun heq => ?_) _
    subst heq
    exact hne (h.wraps.apart o out _ ho hmade hx hroot)
  have hsize : (t.clear out).outputs.size = t.outputs.size := by
    simp [Tree.clear, Tree.modifyNodes]
  have hwraps := h.wraps.update (r := { regions out with trail := [], insides := [] }) rfl rfl
    (fun x hx => .inl (by simp [Region.outputs, List.mem_singleton.mp hx])) hempty hsize rfl rfl
    hviews (by simp [Tree.clear, Tree.modifyNodes])
    (fun o _ hne => Tree.nodes_modifyNodes_of_ne hne _) hwrapped
  refine h.update hwraps rfl hsize rfl hviews hwrapped (fun s hs heq => ?_) (fun x _ => ?_)
    fun slot hslot heq => (hslots slot hslot heq).elim
  · -- no other spot is in the region, since none leads to its root
    rw [hspots] at hs
    rcases List.mem_cons.mp hs with rfl | hs
    · exact .root
    · have hnested := h.nested
      rw [hspots] at hnested
      have hsuffix := (List.pairwise_cons.mp hnested).1 s hs heq.symm
      exact (List.not_mem_nil (hsuffix.subset List.mem_cons_self)).elim
  · exact List.not_mem_nil

/-- An output gets other nodes, and its region with it what was in no region until now. -/
theorem fill (h : scene.Over regions t u) {out root : OutputId}
    (hmade : out.index < t.outputs.size) (hregion : (regions out).root = root)
    (hspots : ∀ s ∈ scene.spots, s.plain ≠ out)
    (hslots : ∀ slot ∈ scene.slots, slot.plain ≠ out) (trail : List Seen)
    (insides : List OutputId) {change change' : List Node → List Node}
    (hplain : t.Shows (change (t.nodes out)) trail [])
    (hwrapped : u.Shows (change' (u.nodes root)) trail insides)
    (hfresh : ∀ x ∈ insides, x.index < u.outputs.size ∧
      ∀ o, o.index < t.outputs.size → x ∉ (regions o).outputs)
    (hnodup : insides.Nodup) (honce : ∀ id, trail.count (.element id) ≤ 1)
    (helements : ∀ id, .element id ∈ trail →
      (regions out).floor ≤ id.index ∧ id.index < t.elements.size)
    (hheld : ∀ x ∈ scene.held, .element x.1 ∉ trail) :
    scene.Over (Function.update regions out { regions out with trail := trail, insides := insides })
      (t.modifyNodes out change) (u.modifyNodes root change') := by
  subst hregion
  have hcovers := h.wraps.covers out hmade
  have hroot : (regions out).root ∈ (regions out).outputs := List.mem_cons_self
  have hthere := hcovers.there _ hroot
  have hviews : u.KeepsViews (u.modifyNodes (regions out).root change') :=
    fun _ v hview => ⟨v, hview, rfl⟩
  have hsize : (t.modifyNodes out change).outputs.size = t.outputs.size := by
    simp [Tree.modifyNodes]
  have hsize' : (u.modifyNodes (regions out).root change').outputs.size = u.outputs.size := by
    simp [Tree.modifyNodes]
  have hfilled : Region.Covers { regions out with trail := trail, insides := insides }
      (t.modifyNodes out change) (u.modifyNodes (regions out).root change') out := {
    plain := (Tree.nodes_modifyNodes hmade change).symm ▸ hplain.plain
    wrapped := by
      rw [Tree.nodes_modifyNodes hthere]
      refine hwrapped.congr hviews fun o ho => Tree.nodes_modifyNodes_of_ne (fun heq => ?_) _
      exact (hfresh o ho).2 out hmade (heq ▸ hroot)
    nodup := List.nodup_cons.mpr ⟨fun hmem => (hfresh _ hmem).2 out hmade hroot, hnodup⟩
    there := by
      intro x hx
      rw [hsize']
      rcases List.mem_cons.mp hx with rfl | hx
      · exact hthere
      · exact (hfresh x hx).1
    once := honce
    elements := helements
    floor_le := hcovers.floor_le }
  have helsewhere (o x : OutputId) (ho : o.index < t.outputs.size) (hne : o ≠ out)
      (hx : x ∈ (regions o).outputs) :
      (u.modifyNodes (regions out).root change').nodes x = u.nodes x := by
    refine Tree.nodes_modifyNodes_of_ne (fun heq => ?_) _
    subst heq
    exact hne (h.wraps.apart o out _ ho hmade hx hroot)
  have hwraps := h.wraps.update (r := { regions out with trail := trail, insides := insides })
    rfl rfl (fun x hx => ?_) hfilled hsize rfl rfl hviews (Nat.le_of_eq hsize'.symm)
    (fun o _ hne => Tree.nodes_modifyNodes_of_ne hne _) helsewhere
  · exact h.update hwraps rfl hsize rfl hviews helsewhere
      (fun s hs heq => (hspots s hs heq).elim) hheld
      fun slot hslot heq => (hslots slot hslot heq).elim
  · rcases List.mem_cons.mp hx with rfl | hx
    · exact .inl hroot
    · exact .inr (hfresh x hx).2

/-- Both trees get an empty output, which elements that are new may have as their content. -/
theorem newRegion (h : scene.Over regions t u) (floor : Nat) (elements elements' : Array Element)
    (hle : t.elements.size ≤ elements.size) (hfloor : floor ≤ elements.size)
    (hsize : elements'.size = elements.size)
    (hcontents : ∀ i a b, elements[i]? = some a → elements'[i]? = some b →
      t.elements[i]? = some a ∧ u.elements[i]? = some b ∨
      a.content = ⟨t.outputs.size⟩ ∧ b = { a with content := ⟨u.outputs.size⟩ } ∧ floor = i + 1) :
    scene.Over (Function.update regions ⟨t.outputs.size⟩ { root := ⟨u.outputs.size⟩, floor := floor })
      { t.newOutput.2 with elements := elements } { u.newOutput.2 with elements := elements' } := by
  let t' := { t.newOutput.2 with elements := elements }
  let u' := { u.newOutput.2 with elements := elements' }
  have hne (o : OutputId) (ho : o.index < t.outputs.size) : o ≠ ⟨t.outputs.size⟩ := by
    intro heq
    rw [heq] at ho
    exact Nat.lt_irrefl _ ho
  have hmade (o : OutputId) (ho : o.index < t'.outputs.size) :
      o.index < t.outputs.size ∨ o = ⟨t.outputs.size⟩ := by
    have hlt : o.index < t.outputs.size + 1 := by simpa [t', Tree.newOutput] using ho
    rcases Nat.lt_succ_iff_lt_or_eq.mp hlt with hlt | heq
    · exact .inl hlt
    · exact .inr (congrArg OutputId.mk heq)
  have hsizes : t.outputs.size < t'.outputs.size ∧ u.outputs.size < u'.outputs.size := by
    simp [t', u', Tree.newOutput]
  have hnew : Region.Covers { root := ⟨u.outputs.size⟩, floor := floor } t' u' ⟨t.outputs.size⟩ := {
    plain := by
      have hempty : t'.nodes ⟨t.outputs.size⟩ = [] :=
        (Tree.nodes_newOutput t _).trans (Tree.nodes_of_size_le (Nat.le_refl t.outputs.size))
      exact hempty.symm ▸ Tree.Shows.nil
    wrapped := by
      have hempty : u'.nodes ⟨u.outputs.size⟩ = [] :=
        (Tree.nodes_newOutput u _).trans (Tree.nodes_of_size_le (Nat.le_refl u.outputs.size))
      exact hempty.symm ▸ Tree.Shows.nil
    nodup := by simp [Region.outputs]
    there := by
      intro x hx
      rw [List.mem_singleton.mp hx]
      exact hsizes.2
    once := by simp
    elements := by simp
    floor_le := hfloor }
  have hviews : u.KeepsViews u' := fun _ v hview => ⟨v, hview, rfl⟩
  have hold (o x : OutputId) (ho : o.index < t.outputs.size) (hx : x ∈ (regions o).outputs) :
      x ≠ ⟨u.outputs.size⟩ := by
    intro heq
    have := (h.wraps.covers o ho).there x hx
    rw [heq] at this
    exact Nat.lt_irrefl _ this
  have hwraps : t'.Wraps (Function.update regions ⟨t.outputs.size⟩
      { root := ⟨u.outputs.size⟩, floor := floor }) u' := {
    covers := by
      intro o ho
      rcases hmade o ho with ho | rfl
      · rw [Function.update_of_ne (hne o ho)]
        exact (h.wraps.covers o ho).congr (Tree.nodes_newOutput t o) hle hviews
          (Nat.le_of_lt hsizes.2) fun x _ => Tree.nodes_newOutput u x
      · rwa [Function.update_self]
    apart := by
      intro o₁ o₂ x ho₁ ho₂ hx₁ hx₂
      rcases hmade o₁ ho₁ with ho₁ | rfl
      · rw [Function.update_of_ne (hne o₁ ho₁)] at hx₁
        rcases hmade o₂ ho₂ with ho₂ | rfl
        · rw [Function.update_of_ne (hne o₂ ho₂)] at hx₂
          exact h.wraps.apart o₁ o₂ x ho₁ ho₂ hx₁ hx₂
        · rw [Function.update_self] at hx₂
          exact (hold o₁ x ho₁ hx₁ (List.mem_singleton.mp hx₂)).elim
      · rcases hmade o₂ ho₂ with ho₂ | rfl
        · rw [Function.update_self] at hx₁
          rw [Function.update_of_ne (hne o₂ ho₂)] at hx₂
          exact (hold o₂ x ho₂ hx₂ (List.mem_singleton.mp hx₁)).elim
        · rfl
    size := hsize
    contents := by
      intro id a b ha hb
      rcases hcontents id.index a b ha hb with ⟨ha, hb⟩ | ⟨hcontent, hb, hid⟩
      · obtain ⟨hlt, hb, hid⟩ := h.wraps.contents id a b ha hb
        rw [Function.update_of_ne (hne _ hlt)]
        exact ⟨Nat.lt_trans hlt hsizes.1, hb, hid⟩
      · rw [hcontent, Function.update_self]
        exact ⟨hsizes.1, hb, hid⟩ }
  exact {
    wraps := hwraps
    spots := by
      intro s hs
      obtain ⟨hlt, -⟩ := h.spots s hs
      rw [Function.update_of_ne (hne _ hlt)]
      exact ⟨Nat.lt_trans hlt hsizes.1, h.open_congr hs hviews fun x _ => Tree.nodes_newOutput u x⟩
    nested := h.nested
    held := by
      intro x hx
      obtain ⟨hlt, hfloor, hthere, hnowhere⟩ := h.held x hx
      rw [Function.update_of_ne (hne _ hlt)]
      refine ⟨Nat.lt_trans hlt hsizes.1, hfloor, Nat.lt_of_lt_of_le hthere hle, fun o ho => ?_⟩
      rcases hmade o ho with ho | rfl
      · rw [Function.update_of_ne (hne o ho)]
        exact hnowhere o ho
      · rw [Function.update_self]
        exact List.not_mem_nil
    heldOnce := h.heldOnce
    slots := by
      intro slot hslot
      obtain ⟨hlt, hmem, htarget⟩ := h.slots slot hslot
      rw [Function.update_of_ne (hne _ hlt)]
      refine ⟨Nat.lt_trans hlt hsizes.1, hmem, ?_⟩
      rwa [show u'.nodes slot.wrapped = u.nodes slot.wrapped from Tree.nodes_newOutput u _]
    slotsOnce := h.slotsOnce }

/-- The content of an element is set aside in both trees, if nothing in it keeps a place. -/
theorem setAside {rest : List Spot} (h : scene.Over regions t u) {id : ElementId}
    (hspots : scene.spots = ⟨t.content id, u.content id, []⟩ :: rest)
    (hslots : ∀ slot ∈ scene.slots, slot.plain ≠ t.content id) :
    ∃ regions', (regions' ⟨t.outputs.size⟩).root = ⟨u.outputs.size⟩ ∧
      scene.Over regions' (Typer.ofElement t id).2 (Typer.ofElement u id).2 := by
  obtain ⟨hmade, hopen⟩ := h.spots _ (by rw [hspots]; exact List.mem_cons_self)
  have hroot : u.content id = (regions (t.content id)).root := hopen.eq_root
  have hcovers : (regions (t.content id)).Covers t u (t.content id) := h.wraps.covers _ hmade
  have hthere : u.content id ∈ (regions (t.content id)).outputs := hroot ▸ List.mem_cons_self
  have hmade' : (u.content id).index < u.outputs.size := hcovers.there _ hthere
  have hne : t.content id ≠ ⟨t.outputs.size⟩ := fun heq => Nat.lt_irrefl _ (heq ▸ hmade)
  have hne' : u.content id ≠ ⟨u.outputs.size⟩ := fun heq => Nat.lt_irrefl _ (heq ▸ hmade')
  -- there is an output for what is set aside, and the content is emptied
  obtain ⟨regions₁, hnew, hcontent, hold, hcleared⟩ : ∃ regions₁ : OutputId → Region,
      regions₁ ⟨t.outputs.size⟩ =
        { root := ⟨u.outputs.size⟩, floor := (regions (t.content id)).floor } ∧
      (regions₁ (t.content id)).outputs = [u.content id] ∧
      (∀ o, o ≠ ⟨t.outputs.size⟩ → o ≠ t.content id → regions₁ o = regions o) ∧
      scene.Over regions₁ (t.newOutput.2.clear (t.content id))
        (u.newOutput.2.clear (u.content id)) := by
    have hgrown := h.newRegion (regions (t.content id)).floor t.elements u.elements
      (Nat.le_refl _) hcovers.floor_le h.wraps.size fun i a b ha hb => .inl ⟨ha, hb⟩
    have hsame : Function.update regions ⟨t.outputs.size⟩
        { root := ⟨u.outputs.size⟩, floor := (regions (t.content id)).floor } (t.content id) =
        regions (t.content id) := Function.update_of_ne hne _ _
    have hcleared := hgrown.clear (by rw [hsame, ← hroot]; exact hspots) hslots
    rw [hsame, ← hroot] at hcleared
    refine ⟨_, ?_, ?_, ?_, hcleared⟩
    · rw [Function.update_of_ne hne.symm, Function.update_self]
    · rw [Function.update_self, Region.outputs, hroot]
    · intro o ho ho'
      rw [Function.update_of_ne ho', Function.update_of_ne ho]
  rw [Typer.ofElement, Typer.ofElement]
  dsimp only
  have hfull : t.newOutput.1 = ⟨t.outputs.size⟩ := rfl
  have hfull' : u.newOutput.1 = ⟨u.outputs.size⟩ := rfl
  rw [Tree.content_newOutput hmade, Tree.content_newOutput hmade', hfull, hfull', Tree.appendAll,
    Tree.appendAll, if_neg hne.symm, if_neg hne'.symm, Tree.nodes_newOutput, Tree.nodes_newOutput]
  have hempty : (t.newOutput.2.clear (t.content id)).nodes ⟨t.outputs.size⟩ = [] := by
    refine (Tree.nodes_modifyNodes_of_ne hne.symm _).trans ((Tree.nodes_newOutput t _).trans ?_)
    exact Tree.nodes_of_size_le (Nat.le_refl _)
  have hempty' : (u.newOutput.2.clear (u.content id)).nodes ⟨u.outputs.size⟩ = [] := by
    refine (Tree.nodes_modifyNodes_of_ne hne'.symm _).trans ((Tree.nodes_newOutput u _).trans ?_)
    exact Tree.nodes_of_size_le (Nat.le_refl _)
  have hsize : (t.newOutput.2.clear (t.content id)).outputs.size = t.outputs.size + 1 := by
    simp [Tree.clear, Tree.modifyNodes, Tree.newOutput]
  have hsize' : (u.newOutput.2.clear (u.content id)).outputs.size = u.outputs.size + 1 := by
    simp [Tree.clear, Tree.modifyNodes, Tree.newOutput]
  have hinsides : ∀ x ∈ (regions (t.content id)).insides, x ≠ u.content id := by
    intro x hx heq
    exact (List.nodup_cons.mp hcovers.nodup).1 (hroot ▸ heq ▸ hx)
  refine ⟨_, ?_, hcleared.fill (by rw [hsize]; exact Nat.lt_succ_self _) (by rw [hnew])
    (fun s hs heq => ?_) (fun slot hslot heq => ?_) (regions (t.content id)).trail (regions (t.content id)).insides ?_ ?_
    (fun x hx => ⟨?_, fun o ho hmem => ?_⟩)
    (List.nodup_cons.mp hcovers.nodup).2 hcovers.once (fun other hother => ?_) fun x hx => ?_⟩
  · rw [Function.update_self, hnew]
  · have hlt := (h.spots s hs).1
    rw [heq] at hlt
    exact Nat.lt_irrefl _ hlt
  · have hlt := (h.slots slot hslot).1
    rw [heq] at hlt
    exact Nat.lt_irrefl _ hlt
  · rw [hempty, List.nil_append]
    exact hcovers.plain.plain
  · rw [hempty', List.nil_append, hroot]
    refine hcovers.wrapped.congr (fun _ v hview => ⟨v, hview, rfl⟩) fun x hx => ?_
    exact (Tree.nodes_modifyNodes_of_ne (hroot ▸ hinsides x hx) _).trans (Tree.nodes_newOutput u x)
  · rw [hsize']
    exact Nat.lt_succ_of_lt (hcovers.there x (List.mem_cons_of_mem _ hx))
  · -- what the content held is in no region now
    have hlt := hcovers.there x (List.mem_cons_of_mem _ hx)
    by_cases hnewest : o = ⟨t.outputs.size⟩
    · rw [hnewest, hnew] at hmem
      rw [List.mem_singleton.mp hmem] at hlt
      exact Nat.lt_irrefl _ hlt
    · by_cases hown : o = t.content id
      · rw [hown, hcontent] at hmem
        exact hinsides x hx (List.mem_singleton.mp hmem)
      · rw [hold o hnewest hown] at hmem
        have hindex : o.index ≠ t.outputs.size := fun heq => hnewest (congrArg OutputId.mk heq)
        rw [hsize] at ho
        exact hown (h.wraps.apart o _ x (by omega) hmade hmem (List.mem_cons_of_mem _ hx))
  · rw [hnew]
    exact hcovers.elements other hother
  · exact (h.held x hx).2.2.2 _ hmade

end Over

namespace In

variable {scene : Scene} {t u : Tree} {s : Spot} {rest : List Spot}

theorem mono (h : scene.In t u) {scene' : Scene} (hspots : scene'.spots.Sublist scene.spots)
    (hheld : scene'.held.Sublist scene.held) (hslots : scene'.slots.Sublist scene.slots) :
    scene'.In t u :=
  h.imp fun _ hover => hover.mono hspots hheld hslots

/-- Nothing is displayed yet, and something is about to be written. -/
theorem blank {t : Tree} (helements : t.elements.size = 0) (hnodes : ∀ out, t.nodes out = [])
    {out : OutputId} (hmade : out.index < t.outputs.size) :
    In { spots := [⟨out, out, []⟩] } t t := by
  have hnothing (id : ElementId) : t.element? id = none :=
    Array.getElem?_eq_none (helements ▸ Nat.zero_le _)
  have hcovers (o : OutputId) (ho : o.index < t.outputs.size) : Region.Covers { root := o } t t o :=
    { plain := hnodes o ▸ .nil
      wrapped := hnodes o ▸ .nil
      nodup := List.pairwise_singleton _ _
      there := fun x hx => List.mem_singleton.mp hx ▸ ho
      once := fun _ => Nat.zero_le _
      elements := fun _ hid => nomatch hid
      floor_le := Nat.zero_le _ }
  refine ⟨fun o => { root := o }, ⟨hcovers, ?_, rfl, ?_⟩, ?_, ?_, nofun, .nil, nofun, .nil⟩
  · intro o o' x _ _ hx hx'
    exact (List.mem_singleton.mp hx).symm.trans (List.mem_singleton.mp hx')
  · intro id a b ha
    rw [hnothing] at ha
    cases ha
  · intro s hs
    cases List.mem_singleton.mp hs
    exact ⟨hmade, .root⟩
  · exact List.pairwise_singleton _ _

/-- The spots that are written at are there. -/
theorem made (h : scene.In t u) (hs : s ∈ scene.spots) :
    s.plain.index < t.outputs.size ∧ s.wrapped.index < u.outputs.size := by
  obtain ⟨regions, h⟩ := h
  obtain ⟨hmade, hopen⟩ := h.spots s hs
  have hcovers := h.wraps.covers s.plain hmade
  obtain ⟨before, front, inner, behind, -, hfront, -⟩ := hopen.context hcovers.wrapped
  refine ⟨hmade, hcovers.there _ ?_⟩
  rw [Region.outputs, hfront]
  simp

/-- Which place is kept first does not matter. -/
theorem perm (h : scene.In t u) {slots : List Slot} (hslots : slots.Perm scene.slots) :
    In { scene with slots := slots } t u := by
  obtain ⟨regions, h⟩ := h
  exact ⟨regions, { h with
    slots := fun slot hslot => h.slots slot (hslots.subset hslot)
    slotsOnce := (hslots.map _).nodup_iff.mpr h.slotsOnce }⟩

/-- Both trees have as many elements. -/
theorem elements_size (h : scene.In t u) : u.elements.size = t.elements.size := by
  obtain ⟨regions, h⟩ := h
  exact h.wraps.size

/-- The content of an element that is held is where it is known to be in one of the trees. -/
theorem content_eq (h : scene.In t u) {o w : OutputId} (hs : ⟨o, w, []⟩ ∈ scene.spots)
    {id : ElementId} (hid : id.index < t.elements.size) (hwrapped : u.content id = w) :
    t.content id = o := by
  obtain ⟨regions, h⟩ := h
  obtain ⟨hmade, hopen⟩ := h.spots _ hs
  obtain ⟨hmade', hroot, -⟩ := h.wraps.exists_content hid
  have hw : w = (regions o).root := hopen.eq_root
  refine h.wraps.apart _ _ w hmade' hmade ?_ (hw ▸ List.mem_cons_self)
  rw [← hwrapped, hroot]
  exact List.mem_cons_self

/-- Something other than an element is put at the end of both trees. -/
theorem append (h : scene.In t u) (hspots : scene.spots = s :: rest) {node : Node}
    {seen : List Seen} (hseen : node.seen? = some seen) (hnode : ∀ id, .element id ∉ seen) :
    scene.In (t.append s.plain node) (u.append s.wrapped node) := by
  obtain ⟨hplain, hwrapped⟩ := h.made (s := s) (by simp [hspots])
  obtain ⟨regions, h⟩ := h
  exact ⟨_, h.write hspots (.append hplain hseen) (by simp [Tree.append, Tree.modifyNodes])
    (.append hwrapped hseen) (fun id hid => (hnode id hid).elim) fun x _ => hnode x.1⟩

theorem appendError (h : scene.In t u) (hspots : scene.spots = s :: rest) (message source : String) :
    scene.In (t.appendError s.plain message source) (u.appendError s.wrapped message source) :=
  h.append hspots rfl (by simp)

theorem pushText (h : scene.In t u) (hspots : scene.spots = s :: rest) (text : String) :
    scene.In (t.pushText s.plain text) (u.pushText s.wrapped text) := by
  obtain ⟨hplain, hwrapped⟩ := h.made (s := s) (by simp [hspots])
  obtain ⟨regions, h⟩ := h
  have hsize : (t.pushText s.plain text).outputs.size = t.outputs.size := by
    unfold Tree.pushText
    split
    · rfl
    · simp [Tree.modifyNodes]
  exact ⟨_, h.write hspots (.pushText hplain text) hsize (.pushText hwrapped text)
    (by simp [Seen.letters]) (by simp [Seen.letters])⟩

/-- An element that was held is put at the end of both trees. It keeps a place from then on. -/
theorem appendElement (h : scene.In t u) (hspots : scene.spots = s :: rest) {id : ElementId}
    {held : List (ElementId × OutputId)} (hheld : scene.held = (id, s.plain) :: held) :
    In { scene with held := held, slots := ⟨s.plain, s.wrapped, id⟩ :: scene.slots }
      (t.append s.plain (.element id)) (u.append s.wrapped (.element id)) := by
  obtain ⟨hplain, hwrapped⟩ := h.made (s := s) (by simp [hspots])
  obtain ⟨regions, h⟩ := h
  obtain ⟨-, hle, hlt, hnowhere⟩ := h.held (id, s.plain) (by simp [hheld])
  have honce := h.heldOnce
  rw [hheld, List.map_cons, List.nodup_cons] at honce
  have hrest : Over { scene with held := held } regions t u :=
    h.mono (.refl _) (by simp [hheld]) (.refl _)
  have hseen : (Node.element id).seen? = some [.element id] := rfl
  have hwritten := Tree.Written.append hwrapped hseen
  have hover := hrest.write hspots (.append hplain hseen)
    (by simp [Tree.append, Tree.modifyNodes]) hwritten (fun other hother => ?_) (fun x hx hmem => ?_)
  · refine ⟨_, { hover with slots := fun slot hslot => ?_, slotsOnce := ?_ }⟩
    · rcases List.mem_cons.mp hslot with rfl | hslot
      · have hmine := (hrest.shows_written hspots hwritten).1
        rw [Function.update_self, Region.outputs_followedBy]
        refine ⟨hover.spots s (by simp [hspots]) |>.1, List.mem_append_left _ hmine, ?_⟩
        rw [Tree.append, Tree.nodes_modifyNodes hwrapped]
        simp
      · exact hover.slots slot hslot
    · refine List.nodup_cons.mpr ⟨fun hmem => ?_, h.slotsOnce⟩
      -- what keeps a place stands somewhere
      obtain ⟨slot, hslot, rfl⟩ := List.mem_map.mp hmem
      obtain ⟨hmade, hmem, htarget⟩ := h.slots slot hslot
      exact hnowhere _ hmade ((h.wraps.covers _ hmade).stands_once hmem htarget).1
  · cases List.mem_singleton.mp hother
    exact ⟨by simp, hnowhere _ hplain, hle, hlt⟩
  · cases List.mem_singleton.mp hmem
    exact honce.1 (List.mem_map.mpr ⟨x, hx, rfl⟩)

/-- A debug view is put at the innermost spot of the one tree. What it wraps is a new spot. -/
theorem appendView (h : scene.In t u) (hspots : scene.spots = s :: rest)
    (kind name title : String) :
    In { scene with spots := ⟨s.plain, ⟨u.outputs.size⟩, s.wrapped :: s.up⟩ :: scene.spots } t
      (u.appendView s.wrapped kind name title).2 := by
  obtain ⟨hplain, hwrapped⟩ := h.made (s := s) (by simp [hspots])
  obtain ⟨regions, h⟩ := h
  have hwritten := Tree.Written.appendView hwrapped kind name title
  have hover := h.write hspots (.refl t s.plain) rfl hwritten (by simp) (by simp)
  refine ⟨_, { hover with spots := fun other hother => ?_, nested := ?_ }⟩
  · rcases List.mem_cons.mp hother with rfl | hother
    · obtain ⟨hmade, hopen⟩ := hover.spots s (by simp [hspots])
      exact ⟨hmade, .inside (Tree.Written.view?_appendView u s.wrapped kind name title)
        (Tree.Written.nodes_appendView hwrapped kind name title) hopen⟩
    · exact hover.spots other hother
  · refine List.pairwise_cons.mpr ⟨fun outer houter hplain => ?_, h.nested⟩
    have hnested := h.nested
    rw [hspots] at houter hnested
    rcases List.mem_cons.mp houter with rfl | houter
    · exact List.suffix_refl _
    · exact ((List.pairwise_cons.mp hnested).1 outer houter hplain).trans (List.suffix_cons _ _)

/-- Both trees get an element that stands nowhere yet. It is meant for an output that is there, and
its content is a new spot. -/
theorem newElement (h : scene.In t u) (tag : String) {out : OutputId}
    (hout : out.index < t.outputs.size) :
    In { scene with
      spots := ⟨⟨t.outputs.size⟩, ⟨u.outputs.size⟩, []⟩ :: scene.spots
      held := (⟨t.elements.size⟩, out) :: scene.held }
      (t.newElement tag).2 (u.newElement tag).2 := by
  obtain ⟨regions, h⟩ := h
  have hover := h.newRegion (t.elements.size + 1)
    (t.elements.push { tag := tag, content := ⟨t.outputs.size⟩ })
    (u.elements.push { tag := tag, content := ⟨u.outputs.size⟩ })
    (by simp) (by simp) (by simp [h.wraps.size]) fun i a b ha hb => ?_
  · have hne : out ≠ ⟨t.outputs.size⟩ := fun heq => Nat.lt_irrefl _ (heq ▸ hout)
    refine ⟨_, { hover with
      spots := ?_
      nested := List.pairwise_cons.mpr ⟨fun outer houter hplain => ?_, h.nested⟩
      held := ?_
      heldOnce := List.nodup_cons.mpr ⟨fun hmem => ?_, h.heldOnce⟩ }⟩
    · intro s hs
      rcases List.mem_cons.mp hs with rfl | hs
      · rw [Function.update_self]
        exact ⟨by simp [Tree.newElement, Tree.newOutput], .root⟩
      · exact hover.spots s hs
    · have hlt := (h.spots outer houter).1
      rw [← hplain] at hlt
      exact (Nat.lt_irrefl _ hlt).elim
    · intro x hx
      rcases List.mem_cons.mp hx with rfl | hx
      · have hcovers := h.wraps.covers out hout
        rw [Function.update_of_ne hne]
        refine ⟨by simpa [Tree.newElement, Tree.newOutput] using Nat.lt_succ_of_lt hout,
          hcovers.floor_le, by simp [Tree.newElement, Tree.newOutput], fun o ho hmem => ?_⟩
        -- no region holds the new element, since all elements in them are older
        by_cases hnew : o = ⟨t.outputs.size⟩
        · rw [hnew, Function.update_self] at hmem
          cases hmem
        · rw [Function.update_of_ne hnew] at hmem
          have hlt : o.index < t.outputs.size := by
            have hle : o.index < t.outputs.size + 1 := by
              simpa [Tree.newElement, Tree.newOutput] using ho
            have hindex : o.index ≠ t.outputs.size := fun heq => hnew (congrArg OutputId.mk heq)
            omega
          exact Nat.lt_irrefl _ ((h.wraps.covers o hlt).elements _ hmem).2
      · exact hover.held x hx
    · obtain ⟨x, hx, heq⟩ := List.mem_map.mp hmem
      have hlt := (h.held x hx).2.2.1
      rw [heq] at hlt
      exact Nat.lt_irrefl _ hlt
  · have hsize := h.wraps.size
    rw [Array.getElem?_push] at ha hb
    split at ha
    · rename_i hi
      rw [if_pos (hi.trans hsize.symm)] at hb
      cases ha
      cases hb
      exact .inr ⟨rfl, rfl, by rw [hi]⟩
    · rename_i hi
      rw [if_neg fun heq => hi (heq.trans hsize)] at hb
      exact .inl ⟨ha, hb⟩

/-- Both trees get an output, in which there is nothing. -/
theorem newOutput (h : scene.In t u) : scene.In t.newOutput.2 u.newOutput.2 := by
  obtain ⟨regions, h⟩ := h
  exact ⟨_, h.newRegion 0 t.elements u.elements (Nat.le_refl _) (Nat.zero_le _) h.wraps.size
    fun i a b ha hb => .inl ⟨ha, hb⟩⟩

/-- An element changes in both trees, but its content remains its content. -/
theorem modifyElement (h : scene.In t u) (id : ElementId) {change : Element → Element}
    (hchange : ∀ e out, change { e with content := out } = { change e with content := out }) :
    scene.In (t.modifyElement id change) (u.modifyElement id change) := by
  obtain ⟨regions, h⟩ := h
  have hcontent (e : Element) : (change e).content = e.content := by
    have hsame := congrArg Element.content (hchange e e.content)
    exact hsame
  refine ⟨regions, h.congr rfl rfl (fun _ v hview => ⟨v, hview, rfl⟩) (by simp [Tree.modifyElement])
    (by simp [Tree.modifyElement, h.wraps.size]) fun other a b ha hb => ?_⟩
  simp only [Tree.element?, Tree.modifyElement, Array.getElem?_modify] at ha hb
  split at ha
  · rename_i hid
    rw [if_pos hid] at hb
    obtain ⟨a₀, ha₀, rfl⟩ := Option.map_eq_some_iff.mp ha
    obtain ⟨b₀, hb₀, rfl⟩ := Option.map_eq_some_iff.mp hb
    obtain ⟨hlt, rfl, hfloor⟩ := h.wraps.contents other a₀ b₀ ha₀ hb₀
    rw [hcontent]
    exact ⟨hlt, hchange a₀ _, hfloor⟩
  · rename_i hid
    rw [if_neg hid] at hb
    exact h.wraps.contents other a b ha hb

/-- A debug view changes, but it wraps what it did. -/
theorem setModes (h : scene.In t u) (view : ViewId) (modes : List (String × Bool)) :
    scene.In t (u.setModes view modes) := by
  obtain ⟨regions, h⟩ := h
  refine ⟨regions, h.congr rfl rfl (fun id v hview => ?_) rfl h.wraps.size h.wraps.contents⟩
  simp only [Tree.view?, Tree.setModes, Tree.modifyView, Array.getElem?_modify] at hview ⊢
  rw [hview]
  split <;> exact ⟨_, rfl, rfl⟩

/-- An element that was held takes the place that another one kept for it. -/
theorem replaceElement (h : scene.In t u) {slot : Slot} {slots : List Slot}
    (hslots : scene.slots = slot :: slots) {id : ElementId} {held : List (ElementId × OutputId)}
    (hheld : scene.held = (id, slot.plain) :: held) :
    In { scene with held := held, slots := slots }
      (t.replaceElement slot.plain slot.target (.element id)).2
      (u.replaceElement slot.wrapped slot.target (.element id)).2 := by
  obtain ⟨regions, h⟩ := h
  obtain ⟨hmade, hmem, htarget⟩ := h.slots slot (by simp [hslots])
  obtain ⟨-, hle, hlt, hnowhere⟩ := h.held (id, slot.plain) (by simp [hheld])
  have hcovers := h.wraps.covers slot.plain hmade
  have hthere := hcovers.there _ hmem
  obtain ⟨htrail, honce, hothers⟩ := hcovers.stands_once hmem htarget
  -- the element to be replaced stands once in either tree
  have honcePlain : (t.nodes slot.plain).count (.element slot.target) = 1 := by
    have hcount := hcovers.plain.count_element slot.target
    have hle := hcovers.once slot.target
    have hpos := List.count_pos_iff.mpr htrail
    simp only [List.map_nil, List.sum_nil, Nat.add_zero] at hcount
    omega
  rw [Tree.replaceElement, Tree.replaceElement, Tree.replaceFirst?_eq_map honce,
    Tree.replaceFirst?_eq_map honcePlain]
  dsimp only
  have hrest : Over { scene with held := held, slots := slots } regions t u :=
    h.mono (.refl _) (by simp [hheld]) (by simp [hslots])
  have hheldOnce := h.heldOnce
  rw [hheld, List.map_cons, List.nodup_cons] at hheldOnce
  have hslotsOnce := h.slotsOnce
  rw [hslots, List.map_cons, List.nodup_cons] at hslotsOnce
  refine ⟨_, hrest.swap hmade (by simp [Tree.modifyNodes]) (by simp [Tree.modifyNodes]) rfl rfl
    (fun _ v hview => ⟨v, hview, rfl⟩) (Tree.nodes_modifyNodes hmade _) (fun x hx => ?_)
    (fun o hne => Tree.nodes_modifyNodes_of_ne hne _) (fun o x ho hne hx => ?_) (hnowhere _ hmade)
    hle hlt (fun x hx heq => ?_) (fun other hother heq => ?_)⟩
  · by_cases heq : x = slot.wrapped
    · rw [heq, Tree.nodes_modifyNodes hthere]
    · rw [Tree.nodes_modifyNodes_of_ne heq, Node.map_swap_of_not_mem (hothers x hx heq)]
  · refine Tree.nodes_modifyNodes_of_ne (fun heq => ?_) _
    subst heq
    exact hne (h.wraps.apart o slot.plain _ ho hmade hx hmem)
  · exact hheldOnce.1 (List.mem_map.mpr ⟨x, hx, heq⟩)
  · exact hslotsOnce.1 (List.mem_map.mpr ⟨other, hother, heq⟩)

/-- The content of an element is set aside in both trees, if nothing in it keeps a place. -/
theorem setAside (h : scene.In t u) {id : ElementId}
    (hspots : scene.spots = ⟨t.content id, u.content id, []⟩ :: rest)
    (hslots : ∀ slot ∈ scene.slots, slot.plain ≠ t.content id) :
    scene.In (Typer.ofElement t id).2 (Typer.ofElement u id).2 := by
  obtain ⟨regions, h⟩ := h
  obtain ⟨regions', -, h'⟩ := h.setAside hspots hslots
  exact ⟨regions', h'⟩

end In

end Scene

namespace Tree

/-- The change makes elements look different, and nothing else. -/
structure Decorates (change : Tree → Tree) : Prop where
  scene : ∀ {scene : Scene} {t u : Tree}, scene.In t u → scene.In (change t) (change u)
  extend : ∀ t : Tree, t.Extends (change t)

namespace Decorates

theorem modifyElement (id : ElementId) {change : Element → Element}
    (hchange : ∀ e out, change { e with content := out } = { change e with content := out }) :
    Decorates fun t => t.modifyElement id change where
  scene h := h.modifyElement id hchange
  extend t := .modifyElement t id fun a => by
    have hsame := congrArg Element.content (hchange a a.content)
    exact hsame

theorem addClass (id : ElementId) (classes : String) : Decorates fun t => t.addClass id classes :=
  modifyElement id fun _ _ => rfl

theorem removeClass (id : ElementId) (name : String) : Decorates fun t => t.removeClass id name :=
  modifyElement id fun _ _ => rfl

theorem setAttr (id : ElementId) (name value : String) :
    Decorates fun t => t.setAttr id name value :=
  modifyElement id fun _ _ => rfl

theorem comp {change change' : Tree → Tree} (h : Decorates change) (h' : Decorates change') :
    Decorates fun t => change' (change t) where
  scene hscene := h'.scene (h.scene hscene)
  extend t := (h.extend t).trans (h'.extend _)

theorem id : Decorates fun t => t :=
  ⟨fun h => h, .refl⟩

end Decorates

end Tree

end StoryEngine
