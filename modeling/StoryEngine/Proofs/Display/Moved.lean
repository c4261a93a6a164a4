import StoryEngine.Proofs.Display.Typed
/-!
# StoryEngine.Proofs.Display.Moved

What a reader sees of nodes that are moved. In a tree in which no output is inside itself
(`Tree.Acyclic`) a walk comes across each node and then across what is inside it
(`Tree.Acyclic.walk_eq`). Nodes that are moved to the end of an output are read after those that were
there before (`Tree.walk_appendAll`). A debug view that is removed is missed by nobody but one who
looks for the view itself (`Tree.walk_removeView`).
-/

namespace StoryEngine.Tree

variable {t : Tree}

/-! ### Inside -/

/-- A node of the output has the other one inside. -/
def LeadsTo (t : Tree) (out inner : OutputId) : Prop :=
  ∃ node ∈ t.nodes out, t.inner? node = some inner

/-- The first output is inside the other, at any depth. -/
def Inside (t : Tree) (inner out : OutputId) : Prop :=
  Relation.TransGen t.LeadsTo out inner

/-- No output is inside itself. -/
def Acyclic (t : Tree) : Prop :=
  ∀ out, ¬ t.Inside out out

/-- The output is inside of one node at most, and that node is in one place. In a tree all outputs
are so. -/
def StandsOnce (t : Tree) (inner : OutputId) : Prop :=
  ∀ (out out' : OutputId) (i j : Nat), (t.nodes out)[i]?.bind t.inner? = some inner →
    (t.nodes out')[j]?.bind t.inner? = some inner → out = out' ∧ i = j

/-- Only an output that is there leads to others. -/
theorem LeadsTo.lt_size {out inner : OutputId} (h : t.LeadsTo out inner) :
    out.index < t.outputs.size := by
  obtain ⟨node, hnode, -⟩ := h
  by_contra hsize
  rw [nodes_of_size_le (Nat.le_of_not_lt hsize)] at hnode
  cases hnode

theorem Inside.lt_size {inner out : OutputId} (h : t.Inside inner out) :
    out.index < t.outputs.size := by
  obtain ⟨between, hleads, -⟩ := Relation.TransGen.head'_iff.mp h
  exact hleads.lt_size

/-- Where outputs lead to later ones only, what is inside an output comes later. -/
theorem Inside.lt_index (h : ∀ out < t.outputs.size, ∀ node ∈ t.nodes ⟨out⟩,
    ∀ inner ∈ t.inner? node, out < inner.index) {inner out : OutputId} (hinside : t.Inside inner out) :
    out.index < inner.index := by
  have hleads {inner out : OutputId} (hleads : t.LeadsTo out inner) : out.index < inner.index := by
    have hmade := hleads.lt_size
    obtain ⟨node, hnode, hinner⟩ := hleads
    exact h out.index hmade node hnode inner hinner
  induction hinside with
  | single hnext => exact hleads hnext
  | tail _ hnext ih => exact Nat.lt_trans ih (hleads hnext)

/-- An output stands once if all its places are the same. -/
theorem standsOnce_of_place {inner : OutputId} (place : Nat × Nat)
    (h : ∀ out < t.outputs.size, ∀ i < (t.nodes ⟨out⟩).length,
      (t.nodes ⟨out⟩)[i]?.bind t.inner? = some inner → (out, i) = place) : t.StandsOnce inner := by
  have hplace {out : OutputId} {i : Nat} (hinner : (t.nodes out)[i]?.bind t.inner? = some inner) :
      (out.index, i) = place := by
    obtain ⟨node, hnode, hnext⟩ := Option.bind_eq_some_iff.mp hinner
    have hleads : t.LeadsTo out inner := ⟨node, List.mem_of_getElem? hnode, hnext⟩
    exact h out.index hleads.lt_size i (List.getElem?_eq_some_iff.mp hnode).1 hinner
  intro out out' i j hi hj
  obtain ⟨hout, hij⟩ := Prod.mk.inj ((hplace hi).trans (hplace hj).symm)
  exact ⟨congrArg OutputId.mk hout, hij⟩

open Classical in
/-- The outputs inside one. -/
noncomputable def insides (t : Tree) (out : OutputId) : Finset Nat :=
  {i ∈ Finset.range t.outputs.size | t.Inside ⟨i⟩ out}

theorem mem_insides {out : OutputId} {i : Nat} :
    i ∈ t.insides out ↔ i < t.outputs.size ∧ t.Inside ⟨i⟩ out := by
  simp [insides]

/-- What holds of an output if it holds of all that are inside holds of every output. -/
theorem Acyclic.induction (h : t.Acyclic) {motive : OutputId → Prop}
    (step : ∀ out, (∀ inner, t.Inside inner out → motive inner) → motive out) (out : OutputId) :
    motive out := by
  induction hcard : (t.insides out).card using Nat.strong_induction_on generalizing out with
  | _ card ih =>
    refine step out fun inner hinner => ?_
    by_cases hmade : inner.index < t.outputs.size
    · -- fewer outputs are inside the inner one, which is not inside itself
      have hsubset : t.insides inner ⊂ t.insides out := by
        refine Finset.ssubset_iff_of_subset ?_ |>.mpr ⟨inner.index, ?_, ?_⟩
        · intro i hi
          obtain ⟨hlt, hinside⟩ := mem_insides.mp hi
          exact mem_insides.mpr ⟨hlt, Relation.TransGen.trans hinner hinside⟩
        · exact mem_insides.mpr ⟨hmade, hinner⟩
        · exact fun hself => h inner (mem_insides.mp hself).2
      exact ih _ (hcard ▸ Finset.card_lt_card hsubset) inner rfl
    · exact step inner fun other hother => (hmade hother.lt_size).elim

/-! ### A walk through all that there is -/

/-- A node and all that is inside it. -/
def opened (t : Tree) (node : Node) : List Node :=
  node :: ((t.inner? node).map t.walk).getD []

theorem Shallow.mono {depth depth' : Nat} {out : OutputId} (h : t.Shallow depth out)
    (hle : depth ≤ depth') : t.Shallow depth' out := by
  induction hle with
  | refl => exact h
  | step _ ih => exact ih.succ

/-- Some depth is enough for an output if it is for each one that it leads to. -/
theorem exists_shallow {out : OutputId}
    (h : ∀ inner, t.LeadsTo out inner → ∃ depth, t.Shallow depth inner) :
    ∃ depth, t.Shallow depth out := by
  suffices hdeep : ∀ nodes : List Node, nodes ⊆ t.nodes out → ∃ depth, ∀ node ∈ nodes, ∀ inner,
      t.inner? node = some inner → t.Shallow depth inner by
    obtain ⟨depth, hdepth⟩ := hdeep (t.nodes out) (List.Subset.refl _)
    exact ⟨depth + 1, hdepth⟩
  intro nodes hnodes
  induction nodes with
  | nil => exact ⟨0, nofun⟩
  | cons node rest ih =>
      obtain ⟨hnode, hrest⟩ := List.cons_subset.mp hnodes
      obtain ⟨depth, hdepth⟩ := ih hrest
      have hfirst : ∃ depth, ∀ inner, t.inner? node = some inner → t.Shallow depth inner := by
        cases hinner : t.inner? node with
        | none => exact ⟨0, nofun⟩
        | some inner =>
            obtain ⟨depth, hdepth⟩ := h inner ⟨node, hnode, hinner⟩
            exact ⟨depth, fun other hother => Option.some.inj hother ▸ hdepth⟩
      obtain ⟨depth', hdepth'⟩ := hfirst
      refine ⟨max depth depth', List.forall_mem_cons.mpr ⟨fun inner hinner => ?_, ?_⟩⟩
      · exact (hdepth' inner hinner).mono (Nat.le_max_right ..)
      · intro other hother inner hinner
        exact (hdepth other hother inner hinner).mono (Nat.le_max_left ..)

theorem Shallow.walk_eq_flatMap {depth : Nat} {out : OutputId} (h : t.Shallow depth out) :
    t.walk out = (t.nodes out).flatMap t.opened := by
  cases depth with
  | zero => exact h.elim
  | succ depth =>
      rw [h.walk_eq, walkWithin_succ]
      refine List.flatMap_congr fun node hnode => ?_
      unfold walkNode opened
      cases hinner : t.inner? node with
      | none => rfl
      | some inner => rw [Option.map_some, Option.map_some, (h node hnode inner hinner).walk_eq]

theorem Acyclic.exists_shallow (h : t.Acyclic) (out : OutputId) :
    ∃ depth, t.Shallow depth out :=
  h.induction (fun _ ih => Tree.exists_shallow fun inner hleads => ih inner (.single hleads)) out

/-- A walk comes across each node and then across what is inside it. -/
theorem Acyclic.walk_eq (h : t.Acyclic) (out : OutputId) :
    t.walk out = (t.nodes out).flatMap t.opened := by
  obtain ⟨depth, hdepth⟩ := h.exists_shallow out
  exact hdepth.walk_eq_flatMap

@[simp] theorem inner?_setNodes (t : Tree) (out : OutputId) (nodes : List Node) (node : Node) :
    (t.setNodes out nodes).inner? node = t.inner? node := by
  have hsize : (t.setNodes out nodes).outputs.size = t.outputs.size := size_setNodes t out nodes
  cases node with
  | text s => rfl
  | error view => rfl
  | element id => exact congrArg some (content_setNodes t out nodes id)
  | debug id =>
      unfold inner? inside
      rw [hsize]
      rfl

/-! ### Nodes at the end of another output -/

section AppendAll

variable {t' : Tree} {a b : OutputId}

theorem appendAll_eq (hne : a ≠ b) :
    t.appendAll a b = (t.setNodes b []).setNodes a (t.nodes a ++ t.nodes b) := by
  rw [appendAll, if_neg hne, modifyNodes_eq_setNodes]
  have hkept : (t.clear b).nodes a = t.nodes a := nodes_modifyNodes_of_ne hne _
  rw [hkept]
  rfl

/-- Where an output and all that is inside it hold the same nodes, a walk is the same. -/
theorem walkWithin_congr (hinner : ∀ node, t'.inner? node = t.inner? node) {out : OutputId}
    (hown : t'.nodes out = t.nodes out)
    (h : ∀ inner, t.Inside inner out → t'.nodes inner = t.nodes inner) (depth : Nat) :
    t'.walkWithin depth out = t.walkWithin depth out := by
  induction depth generalizing out with
  | zero => rfl
  | succ depth ih =>
      rw [walkWithin_succ, walkWithin_succ, hown]
      refine List.flatMap_congr fun node hnode => ?_
      unfold walkNode
      rw [hinner node]
      cases hnext : t.inner? node with
      | none => rfl
      | some next =>
          have hleads : t.LeadsTo out next := ⟨node, hnode, hnext⟩
          rw [Option.map_some, Option.map_some, ih (h next (.single hleads)) fun inner hinside =>
            h inner (Relation.TransGen.head hleads hinside)]

/-- What is moved to the end of an output is read after what was there before. -/
theorem walk_appendAll (h : t.Acyclic) (hmade : a.index < t.outputs.size) (hne : a ≠ b)
    (hab : ¬ t.Inside a b) (hba : ¬ t.Inside b a) :
    (t.appendAll a b).walk a = t.walk a ++ t.walk b := by
  let t' := t.appendAll a b
  have ht' : t' = (t.setNodes b []).setNodes a (t.nodes a ++ t.nodes b) := appendAll_eq hne
  have hsize : t'.outputs.size = t.outputs.size := by simp [ht']
  have hinner (node : Node) : t'.inner? node = t.inner? node := by simp [ht']
  have hother {out : OutputId} (hout : out ≠ a) (hout' : out ≠ b) : t'.nodes out = t.nodes out := by
    rw [ht', nodes_setNodes_of_ne hout, nodes_setNodes_of_ne hout']
  have hown : t'.nodes a = t.nodes a ++ t.nodes b := by
    rw [ht', nodes_setNodes (by simpa using hmade)]
  -- neither of the two outputs is inside one of their nodes
  have hdeep {out : OutputId} (hout : out = a ∨ out = b) {depth : Nat} {node : Node}
      (hnode : node ∈ t.nodes out) : t'.walkNode depth node = t.walkNode depth node := by
    have hout' {inner : OutputId} (hinside : t.Inside inner out) :
        t'.nodes inner = t.nodes inner := by
      refine hother ?_ ?_
      · rintro rfl
        rcases hout with rfl | rfl
        · exact h _ hinside
        · exact hab hinside
      · rintro rfl
        rcases hout with rfl | rfl
        · exact hba hinside
        · exact h _ hinside
    unfold walkNode
    rw [hinner node]
    cases hnext : t.inner? node with
    | none => rfl
    | some next =>
        have hleads : t.LeadsTo out next := ⟨node, hnode, hnext⟩
        rw [Option.map_some, Option.map_some, walkWithin_congr hinner (hout' (.single hleads))
          fun inner hinside => hout' (Relation.TransGen.head hleads hinside)]
  obtain ⟨depth, hdepth⟩ : ∃ depth, t.outputs.size = depth + 1 :=
    ⟨t.outputs.size - 1, by omega⟩
  have hleft : (t.nodes a).flatMap (t'.walkNode depth) = (t.nodes a).flatMap (t.walkNode depth) :=
    List.flatMap_congr fun node hnode => hdeep (.inl rfl) hnode
  have hright : (t.nodes b).flatMap (t'.walkNode depth) = (t.nodes b).flatMap (t.walkNode depth) :=
    List.flatMap_congr fun node hnode => hdeep (.inr rfl) hnode
  calc t'.walk a = (t.nodes a ++ t.nodes b).flatMap (t'.walkNode depth) := by
        rw [walk, hsize, hdepth, walkWithin_succ, hown]
    _ = (t.nodes a).flatMap (t.walkNode depth) ++ (t.nodes b).flatMap (t.walkNode depth) := by
        rw [List.flatMap_append, hleft, hright]
    _ = t.walk a ++ t.walk b := by
        rw [walk, walk, hdepth, walkWithin_succ, walkWithin_succ]

theorem nodes_appendAll_right (hne : a ≠ b) : (t.appendAll a b).nodes b = [] := by
  rw [appendAll_eq hne, nodes_setNodes_of_ne hne.symm]
  exact nodes_clear t b

end AppendAll

/-! ### A debug view less -/

section RemoveView

variable {id : ViewId} {v : DebugView}

theorem unwrapFirst?_eq {old : Node} {before after : List Node} (h : old ∉ before)
    (inner : List Node) :
    unwrapFirst? old inner (before ++ old :: after) = some (before ++ inner ++ after) := by
  induction before with
  | nil => simp [unwrapFirst?]
  | cons node rest ih =>
      obtain ⟨hnode, hrest⟩ := List.ne_and_not_mem_of_not_mem_cons h
      rw [List.cons_append, unwrapFirst?, if_neg (Ne.symm hnode), ih hrest]
      rfl

/-- What a view wraps takes its place. -/
theorem exists_removeView (hview : t.view? id = some v) (hmem : .debug id ∈ t.nodes v.parent) :
    ∃ before after, .debug id ∉ before ∧ t.nodes v.parent = before ++ .debug id :: after ∧
      t.removeView id = (t.setNodes v.inside []).setNodes v.parent
        (before ++ t.nodes v.inside ++ after) := by
  obtain ⟨before, after, hnodes, hbefore⟩ := List.eq_append_cons_of_mem hmem
  refine ⟨before, after, hbefore, hnodes, ?_⟩
  rw [removeView, hview]
  simp only [hnodes, unwrapFirst?_eq hbefore]
  rfl

theorem inner?_debug (hview : t.view? id = some v) : t.inner? (.debug id) = some v.inside := by
  rw [inner?, inside, hview]

/-- The place of a debug view is the only one from which its inside is reached. -/
theorem StandsOnce.place (honce : t.StandsOnce v.inside) (hview : t.view? id = some v)
    {before after : List Node} (hnodes : t.nodes v.parent = before ++ .debug id :: after)
    {out : OutputId} {i : Nat} (h : (t.nodes out)[i]?.bind t.inner? = some v.inside) :
    out = v.parent ∧ i = before.length := by
  refine honce _ _ _ _ h ?_
  rw [hnodes, List.getElem?_append_right (Nat.le_refl _), Nat.sub_self]
  exact inner?_debug hview

theorem StandsOnce.eq_debug (honce : t.StandsOnce v.inside) (hview : t.view? id = some v)
    (hmem : .debug id ∈ t.nodes v.parent) {out : OutputId} {node : Node} (hnode : node ∈ t.nodes out)
    (hinner : t.inner? node = some v.inside) : node = .debug id ∧ out = v.parent := by
  obtain ⟨before, after, hnodes, -⟩ := List.eq_append_cons_of_mem hmem
  obtain ⟨i, hi⟩ := List.mem_iff_getElem?.mp hnode
  obtain ⟨rfl, rfl⟩ := honce.place hview hnodes (by rw [hi]; exact hinner)
  rw [hnodes, List.getElem?_append_right (Nat.le_refl _), Nat.sub_self] at hi
  exact ⟨(Option.some.inj hi).symm, rfl⟩

/-- Behind a debug view the same one does not come again. -/
theorem StandsOnce.not_mem_after (honce : t.StandsOnce v.inside) (hview : t.view? id = some v)
    {before after : List Node} (hnodes : t.nodes v.parent = before ++ .debug id :: after) :
    .debug id ∉ after := by
  intro hmem
  obtain ⟨i, hi⟩ := List.mem_iff_getElem?.mp hmem
  have hplace : (t.nodes v.parent)[before.length + 1 + i]? = some (.debug id) := by
    rw [hnodes, List.getElem?_append_right (by omega)]
    rw [show before.length + 1 + i - before.length = i + 1 by omega]
    exact hi
  obtain ⟨-, hindex⟩ := honce.place hview hnodes (by rw [hplace]; exact inner?_debug hview)
  omega

/-- Nodes other than the view are read as before but for the view, if what is inside each is. -/
theorem flatMap_opened_filter {t' : Tree} (hinner : ∀ node, t'.inner? node = t.inner? node)
    {nodes : List Node} (hid : .debug id ∉ nodes)
    (h : ∀ node ∈ nodes, ∀ inner, t.inner? node = some inner →
      t'.walk inner = (t.walk inner).filter (· ≠ .debug id)) :
    nodes.flatMap t'.opened = (nodes.flatMap t.opened).filter (· ≠ .debug id) := by
  rw [List.filter_flatMap]
  refine List.flatMap_congr fun node hnode => ?_
  have hne : node ≠ .debug id := fun heq => hid (heq ▸ hnode)
  unfold opened
  rw [hinner node, List.filter_cons_of_pos (by simpa using hne)]
  cases hnext : t.inner? node with
  | none => rfl
  | some inner =>
      rw [Option.map_some, Option.map_some, Option.getD_some, Option.getD_some,
        h node hnode inner hnext]

/-- A tree in which a debug view gave its place to what it wraps. -/
structure Unwrapped (t : Tree) (id : ViewId) (v : DebugView) (before after : List Node)
    (t' : Tree) : Prop where
  nodes : t.nodes v.parent = before ++ .debug id :: after
  not_mem_before : .debug id ∉ before
  not_mem_after : .debug id ∉ after
  parent : t'.nodes v.parent = before ++ t.nodes v.inside ++ after
  inside : t'.nodes v.inside = []
  other : ∀ out, out ≠ v.parent → out ≠ v.inside → t'.nodes out = t.nodes out
  inner : ∀ node, t'.inner? node = t.inner? node
  elements : t'.elements = t.elements

theorem exists_unwrapped (h : t.Acyclic) (hview : t.view? id = some v)
    (honce : t.StandsOnce v.inside) (hmem : .debug id ∈ t.nodes v.parent) :
    ∃ before after, t.Unwrapped id v before after (t.removeView id) := by
  obtain ⟨before, after, hbefore, hnodes, ht'⟩ := exists_removeView hview hmem
  have hleads : t.LeadsTo v.parent v.inside := ⟨.debug id, hmem, inner?_debug hview⟩
  have hself : v.parent ≠ v.inside := fun heq => h v.parent (.single (heq ▸ hleads))
  exact ⟨before, after, {
    nodes := hnodes
    not_mem_before := hbefore
    not_mem_after := honce.not_mem_after hview hnodes
    parent := by rw [ht', nodes_setNodes (by simpa using hleads.lt_size)]
    inside := by
      rw [ht', nodes_setNodes_of_ne hself.symm]
      exact nodes_clear t v.inside
    other := fun out hout hout' => by
      rw [ht', nodes_setNodes_of_ne hout, nodes_setNodes_of_ne hout']
    inner := fun node => by simp [ht']
    elements := by
      rw [ht']
      rfl }⟩

/-- No node of a removed view is left. -/
theorem not_mem_removeView (h : t.Acyclic) (hview : t.view? id = some v)
    (honce : t.StandsOnce v.inside) (hmem : .debug id ∈ t.nodes v.parent) (out : OutputId) :
    .debug id ∉ (t.removeView id).nodes out := by
  obtain ⟨before, after, hunwrapped⟩ := exists_unwrapped h hview honce hmem
  have helsewhere {o : OutputId} (ho : o ≠ v.parent) : .debug id ∉ t.nodes o := fun hid =>
    ho (honce.eq_debug hview hmem hid (inner?_debug hview)).2
  have hself : v.inside ≠ v.parent := fun heq =>
    h v.parent (.single ⟨.debug id, hmem, heq ▸ inner?_debug hview⟩)
  by_cases hparent : out = v.parent
  · rw [hparent, hunwrapped.parent]
    simp [hunwrapped.not_mem_before, hunwrapped.not_mem_after, helsewhere hself]
  · by_cases hinside : out = v.inside
    · rw [hinside, hunwrapped.inside]
      exact List.not_mem_nil
    · rw [hunwrapped.other out hparent hinside]
      exact helsewhere hparent

/-- What an output leads to after the view is removed was inside it before. -/
theorem Unwrapped.inside_of_leadsTo {t' : Tree} {before after : List Node}
    (h : t.Unwrapped id v before after t') (hview : t.view? id = some v) {out inner : OutputId}
    (hleads : t'.LeadsTo out inner) : t.Inside inner out := by
  obtain ⟨node, hnode, hinner⟩ := hleads
  rw [h.inner node] at hinner
  by_cases hparent : out = v.parent
  · subst hparent
    rw [h.parent] at hnode
    by_cases hown : node ∈ t.nodes v.parent
    · exact .single ⟨node, hown, hinner⟩
    · have hwithin : node ∈ t.nodes v.inside := by
        rw [h.nodes] at hown
        simp only [List.mem_append, List.mem_cons] at hnode hown
        tauto
      have hdebug : t.LeadsTo v.parent v.inside :=
        ⟨.debug id, by simp [h.nodes], inner?_debug hview⟩
      exact .tail (.single hdebug) ⟨node, hwithin, hinner⟩
  · by_cases hinside : out = v.inside
    · rw [hinside, h.inside] at hnode
      cases hnode
    · rw [h.other out hparent hinside] at hnode
      exact .single ⟨node, hnode, hinner⟩

/-- A removed view is missed by nobody but one who looks for it: a walk through any other output comes
across the same nodes as before in the same order, without the view. -/
theorem walk_removeView (h : t.Acyclic) (hview : t.view? id = some v)
    (honce : t.StandsOnce v.inside) (hmem : .debug id ∈ t.nodes v.parent) {out : OutputId}
    (hout : out ≠ v.inside) :
    (t.removeView id).walk out = (t.walk out).filter (· ≠ .debug id) := by
  obtain ⟨before, after, hunwrapped⟩ := exists_unwrapped h hview honce hmem
  have hleft := not_mem_removeView h hview honce hmem
  generalize t.removeView id = t' at hunwrapped hleft
  have hacyclic : t'.Acyclic := by
    have hinside {inner out : OutputId} (hinside : t'.Inside inner out) : t.Inside inner out := by
      induction hinside with
      | single hleads => exact hunwrapped.inside_of_leadsTo hview hleads
      | tail _ hleads ih =>
          exact Relation.TransGen.trans ih (hunwrapped.inside_of_leadsTo hview hleads)
    exact fun out hself => h out (hinside hself)
  induction out using h.induction with
  | step out ih =>
    rw [hacyclic.walk_eq, h.walk_eq]
    -- other nodes have something else inside
    have hread {o : OutputId} (ho : o = out ∨ t.Inside o out) {nodes : List Node}
        (hnodes : nodes ⊆ t.nodes o) (hid : .debug id ∉ nodes) :
        nodes.flatMap t'.opened = (nodes.flatMap t.opened).filter (· ≠ .debug id) := by
      refine flatMap_opened_filter hunwrapped.inner hid fun node hnode inner hinner => ?_
      have hinside : t.Inside inner out := by
        have hleads : t.LeadsTo o inner := ⟨node, hnodes hnode, hinner⟩
        rcases ho with rfl | ho
        · exact .single hleads
        · exact .tail ho hleads
      refine ih inner hinside fun heq => ?_
      have hdebug := honce.eq_debug hview hmem (hnodes hnode) (heq ▸ hinner)
      exact hid (hdebug.1 ▸ hnode)
    by_cases hparent : out = v.parent
    · subst hparent
      have hdebug : t.opened (.debug id) = .debug id :: (t.nodes v.inside).flatMap t.opened := by
        rw [opened, inner?_debug hview, Option.map_some, Option.getD_some, h.walk_eq]
      have hwithin : .debug id ∉ t.nodes v.inside := fun hid =>
        hout (honce.eq_debug hview hmem hid (inner?_debug hview)).2.symm
      have hleads : t.LeadsTo v.parent v.inside := ⟨.debug id, hmem, inner?_debug hview⟩
      rw [hunwrapped.parent, hunwrapped.nodes, List.flatMap_append, List.flatMap_append,
        List.flatMap_append, List.flatMap_cons, hdebug, List.filter_append, List.cons_append,
        List.filter_cons_of_neg (by simp), List.filter_append, List.append_assoc,
        hread (.inl rfl) (by simp [hunwrapped.nodes]) hunwrapped.not_mem_before,
        hread (.inr (.single hleads)) (List.Subset.refl _) hwithin,
        hread (.inl rfl) (by simp [hunwrapped.nodes]) hunwrapped.not_mem_after]
    · have hsame : t'.nodes out = t.nodes out := hunwrapped.other out hparent hout
      rw [hsame]
      exact hread (.inl rfl) (List.Subset.refl _) (hsame ▸ hleft out)

end RemoveView

/-! ### What a reader sees -/

theorem all_filter_debug (id : ViewId) (nodes : List Node) :
    Seen.all (nodes.filter (· ≠ .debug id)) = Seen.all nodes := by
  induction nodes with
  | nil => rfl
  | cons node rest ih =>
      by_cases hnode : node = .debug id
      · rw [List.filter_cons_of_neg (by simp [hnode]), ih, Seen.all_cons, hnode]
        rfl
      · rw [List.filter_cons_of_pos (by simp [hnode]), Seen.all_cons, Seen.all_cons, ih]

/-- Moving nodes keeps what a reader sees. Let no output be inside itself.

When the nodes of an output are moved to the end of another one, and neither is inside the other, the
texts of the two follow one another there, and so do their errors and their elements of a class. The
output from which they came is empty. Nothing changes when an output is moved to its own end.

When a debug view is removed that is among the nodes of its parent, all outputs but the inside of the
view have the same text, errors and elements of a class as before, and a walk through them comes across
the same nodes in the same order. The view itself is nowhere any more. -/
theorem moving_keeps_reading (t : Tree) (h : t.Acyclic) :
    (∀ a b, a.index < t.outputs.size → a ≠ b → ¬ t.Inside a b → ¬ t.Inside b a →
      (t.appendAll a b).text a = t.text a ++ t.text b ∧
      (t.appendAll a b).errors a = t.errors a ++ t.errors b ∧
      (∀ name, (t.appendAll a b).findByClass a name =
        t.findByClass a name ++ t.findByClass b name) ∧
      (t.appendAll a b).nodes b = []) ∧
    (∀ a, t.appendAll a a = t) ∧
    ∀ id v, t.view? id = some v → .debug id ∈ t.nodes v.parent → t.StandsOnce v.inside →
      (∀ out, out ≠ v.inside →
        (t.removeView id).text out = t.text out ∧
        (t.removeView id).errors out = t.errors out ∧
        (∀ name, (t.removeView id).findByClass out name = t.findByClass out name) ∧
        (t.removeView id).walk out = (t.walk out).filter (· ≠ .debug id)) ∧
      ∀ out, .debug id ∉ (t.removeView id).nodes out := by
  refine ⟨fun a b hmade hne hab hba => ?_, fun a => if_pos rfl, ?_⟩
  · have hwalk := walk_appendAll h hmade hne hab hba
    refine ⟨?_, ?_, fun name => ?_, nodes_appendAll_right hne⟩
    · rw [text, hwalk, List.map_append, String.join_append]
      rfl
    · rw [errors, hwalk, List.filterMap_append]
      rfl
    · have hclass (id : ElementId) : (t.appendAll a b).hasClass id name = t.hasClass id name := by
        rw [appendAll_eq hne]
        rfl
      rw [findByClass, hwalk, List.filterMap_append]
      simp only [hclass]
      rfl
  · intro id v hview hmem honce
    refine ⟨fun out hout => ?_, not_mem_removeView h hview honce hmem⟩
    have hwalk := walk_removeView h hview honce hmem hout
    have hseen : Seen.all ((t.removeView id).walk out) = Seen.all (t.walk out) := by
      rw [hwalk, all_filter_debug]
    obtain ⟨before, after, hunwrapped⟩ := exists_unwrapped h hview honce hmem
    refine ⟨?_, ?_, fun name => ?_, hwalk⟩
    · rw [text_eq_all, text_eq_all, hseen]
    · rw [errors_eq_all, errors_eq_all, hseen]
    · have hclass : Seen.ofClass? (t.removeView id) name = Seen.ofClass? t name := by
        have hhas (id' : ElementId) : (t.removeView id).hasClass id' name = t.hasClass id' name := by
          simp only [hasClass, element?, hunwrapped.elements]
        funext seen
        cases seen <;> simp only [Seen.ofClass?, hhas]
      rw [findByClass_eq_all, findByClass_eq_all, hseen, hclass]

/-- A display with an element in a debug view, which has an empty view at its end, and a piece of
content that stands apart from the display. -/
theorem moving_keeps_reading_nested :
    let t : Tree := {
      outputs := #[[.text "a", .debug ⟨0⟩, .text "d"], [.text "b", .element ⟨0⟩, .debug ⟨1⟩],
        [.text "c"], [], [.error ⟨"lost", ""⟩]]
      elements := #[⟨"span", ["mark"], [], ⟨2⟩⟩]
      views := #[⟨⟨0⟩, ⟨1⟩, "", "", "", []⟩, ⟨⟨1⟩, ⟨3⟩, "", "", "", []⟩] }
    t.Acyclic ∧ t.StandsOnce ⟨1⟩ ∧ (t.appendAll ⟨0⟩ ⟨4⟩).text ⟨0⟩ = "abcdError: lost" ∧
      (t.removeView ⟨0⟩).text ⟨0⟩ = "abcd" ∧ (t.removeView ⟨0⟩).findByClass ⟨0⟩ "mark" = [⟨0⟩] ∧
      .debug ⟨0⟩ ∉ (t.removeView ⟨0⟩).nodes ⟨0⟩ := by
  intro t
  have hlater : ∀ out < t.outputs.size, ∀ node ∈ t.nodes ⟨out⟩, ∀ inner ∈ t.inner? node,
      out < inner.index := by decide
  have hacyclic : t.Acyclic := fun out h => Nat.lt_irrefl _ (h.lt_index hlater)
  have honce : t.StandsOnce ⟨1⟩ := standsOnce_of_place (0, 1) (by decide)
  have hapart : ¬ t.Inside ⟨4⟩ ⟨0⟩ := by
    intro h
    obtain ⟨out, -, hleads⟩ := Relation.TransGen.tail'_iff.mp h
    have hmade := hleads.lt_size
    obtain ⟨node, hnode, hinner⟩ := hleads
    have hnone : ∀ out < t.outputs.size, ∀ node ∈ t.nodes ⟨out⟩, t.inner? node ≠ some ⟨4⟩ := by decide
    exact hnone out.index hmade node hnode hinner
  have hapart' : ¬ t.Inside ⟨0⟩ ⟨4⟩ := fun h => Nat.not_lt_zero _ (h.lt_index hlater)
  obtain ⟨hmove, -, hremove⟩ := moving_keeps_reading t hacyclic
  obtain ⟨htext, -, -, -⟩ := hmove ⟨0⟩ ⟨4⟩ (by decide) (by decide) hapart' hapart
  obtain ⟨hread, hgone⟩ := hremove ⟨0⟩ _ rfl (by decide) honce
  obtain ⟨hsame, -, hfound, -⟩ := hread ⟨0⟩ (by decide)
  exact ⟨hacyclic, honce, htext.trans rfl, hsame.trans rfl, (hfound "mark").trans rfl, hgone ⟨0⟩⟩

end StoryEngine.Tree
