import Mathlib.Algebra.GroupWithZero.Nat
import StoryEngine.Proofs.Display.Growth
import StoryEngine.Proofs.Display.Pushed
/-!
# StoryEngine.Proofs.Display.Trail

What a reader comes across in an output, debug views looked through: letters, elements, which stay
closed, and errors. `Tree.Shows` relates the nodes of an output to this *trail* and to the insides
of the debug views on the way, which are outputs of their own. Two trees with different debug views
look alike to a reader if their outputs have the same trails.

An output is *open* in another one if a way of debug views leads to it, each of them the last node
where it stands (`Tree.Open`). What is put at the end of an open output comes at the end of the
trail (`Tree.Open.context`), so this is where one may write.
-/

namespace StoryEngine

/-- What a reader comes across. -/
inductive Seen where
  | letter (c : Char)
  /-- An element, whatever is in it. -/
  | element (id : ElementId)
  | error (view : ErrorView)
deriving DecidableEq

/-- The letters of a text. -/
def Seen.letters (s : String) : List Seen :=
  s.toList.map .letter

/-- What a reader comes across at a node, or nothing definite if it is a debug view. -/
def Node.seen? : Node → Option (List Seen)
  | .text s => some (Seen.letters s)
  | .element id => some [.element id]
  | .error view => some [.error view]
  | .debug _ => none

namespace Tree

/-- Debug views wrap in the other tree what they wrap in this one. -/
def KeepsViews (t t' : Tree) : Prop :=
  ∀ id v, t.view? id = some v → ∃ v', t'.view? id = some v' ∧ v'.inside = v.inside

/-- A reader of the nodes comes across a trail, on the way through the insides of debug views. -/
inductive Shows (t : Tree) : List Node → List Seen → List OutputId → Prop
  | nil : t.Shows [] [] []
  | leaf {node : Node} {seen trail : List Seen} {rest : List Node} {insides : List OutputId}
      (hseen : node.seen? = some seen) (h : t.Shows rest trail insides) :
      t.Shows (node :: rest) (seen ++ trail) insides
  | debug {id : ViewId} {v : DebugView} {inner trail : List Seen} {within insides : List OutputId}
      {rest : List Node} (hview : t.view? id = some v)
      (hinner : t.Shows (t.nodes v.inside) inner within) (h : t.Shows rest trail insides) :
      t.Shows (.debug id :: rest) (inner ++ trail) (v.inside :: within ++ insides)

namespace Shows

variable {t t' : Tree} {nodes nodes₁ nodes₂ : List Node} {trail trail₁ trail₂ : List Seen}
  {insides insides₁ insides₂ : List OutputId}

theorem append (h₁ : t.Shows nodes₁ trail₁ insides₁) (h₂ : t.Shows nodes₂ trail₂ insides₂) :
    t.Shows (nodes₁ ++ nodes₂) (trail₁ ++ trail₂) (insides₁ ++ insides₂) := by
  induction h₁ with
  | nil => exact h₂
  | leaf hseen _ ih =>
      rw [List.append_assoc]
      exact .leaf hseen ih
  | debug hview hinner _ _ ih =>
      rw [List.append_assoc, List.append_assoc]
      exact .debug hview hinner ih

/-- What is shown by nodes of which some stand behind the others. -/
theorem split (h : t.Shows (nodes₁ ++ nodes₂) trail insides) :
    ∃ trail₁ trail₂ insides₁ insides₂, trail = trail₁ ++ trail₂ ∧ insides = insides₁ ++ insides₂ ∧
      t.Shows nodes₁ trail₁ insides₁ ∧ t.Shows nodes₂ trail₂ insides₂ := by
  induction nodes₁ generalizing trail insides with
  | nil => exact ⟨[], trail, [], insides, rfl, rfl, .nil, h⟩
  | cons node rest ih =>
      rw [List.cons_append] at h
      cases h with
      | leaf hseen h =>
          obtain ⟨trail₁, trail₂, insides₁, insides₂, rfl, rfl, h₁, h₂⟩ := ih h
          exact ⟨_, trail₂, insides₁, insides₂, (List.append_assoc ..).symm, rfl, .leaf hseen h₁, h₂⟩
      | debug hview hinner h =>
          obtain ⟨trail₁, trail₂, insides₁, insides₂, rfl, rfl, h₁, h₂⟩ := ih h
          refine ⟨_, trail₂, _, insides₂, (List.append_assoc ..).symm, ?_, .debug hview hinner h₁, h₂⟩
          rw [List.append_assoc]

/-- Only the debug views on the way and the outputs inside them matter. -/
theorem congr (h : t.Shows nodes trail insides) (hviews : t.KeepsViews t')
    (hnodes : ∀ o ∈ insides, t'.nodes o = t.nodes o) : t'.Shows nodes trail insides := by
  induction h with
  | nil => exact .nil
  | leaf hseen _ ih => exact .leaf hseen (ih hnodes)
  | @debug id v inner trail within insides rest hview _ _ ihInner ih =>
      obtain ⟨v', hview', hinside⟩ := hviews id v hview
      have hinner := ihInner fun o ho => hnodes o (by simp [ho])
      rw [← hnodes v.inside (by simp), ← hinside] at hinner
      rw [← hinside]
      exact .debug hview' hinner (ih fun o ho => hnodes o (by simp [ho]))

/-- Nodes without debug views show the same in every tree. -/
theorem plain (h : t.Shows nodes trail []) : t'.Shows nodes trail [] := by
  generalize hinsides : ([] : List OutputId) = insides at h
  induction h with
  | nil => exact .nil
  | leaf hseen _ ih => exact .leaf hseen (ih hinsides)
  | debug => cases hinsides

theorem single {node : Node} {seen : List Seen} (h : node.seen? = some seen) :
    t.Shows [node] seen [] := by
  have hleaf := Shows.leaf (t := t) h .nil
  rwa [List.append_nil] at hleaf

/-- A debug view shows what it wraps. -/
theorem of_debug {id : ViewId} {v : DebugView} (h : t.Shows [.debug id] trail insides)
    (hview : t.view? id = some v) :
    ∃ within, insides = v.inside :: within ∧ t.Shows (t.nodes v.inside) trail within := by
  cases h with
  | leaf hseen => cases hseen
  | debug hview' hinner h =>
      cases h
      cases hview.symm.trans hview'
      rw [List.append_nil, List.append_nil]
      exact ⟨_, rfl, hinner⟩

theorem withText (s : String) (h : t.Shows nodes trail insides) :
    t.Shows (Tree.withText s nodes) (trail ++ Seen.letters s) insides := by
  induction h with
  | nil => exact .single rfl
  | @leaf node seen trail rest insides hseen h ih =>
      by_cases hlast : ∃ last, node = .text last ∧ rest = []
      · -- the text joins the one that is there
        obtain ⟨last, rfl, rfl⟩ := hlast
        cases h
        cases hseen
        have hjoined : t.Shows [.text (last ++ s)] (Seen.letters (last ++ s)) [] := .single rfl
        rw [Seen.letters, String.toList_append, List.map_append] at hjoined
        rwa [List.append_nil]
      · have hbehind : Tree.withText s (node :: rest) = node :: Tree.withText s rest := by
          refine Tree.withText.eq_3 s node rest fun last hnode hrest => ?_
          exact hlast ⟨last, hnode, hrest⟩
        rw [hbehind, List.append_assoc]
        exact .leaf hseen ih
  | @debug id v inner trail within insides rest hview hinner h _ ih =>
      rw [Tree.withText, List.append_assoc]
      · exact .debug hview hinner ih
      · intro last hnode
        cases hnode

/-- Elements in the trail stand in the nodes or inside one of the debug views on the way, and as
often. -/
theorem count_element (h : t.Shows nodes trail insides) (id : ElementId) :
    trail.count (.element id) =
      nodes.count (.element id) + (insides.map fun o => (t.nodes o).count (.element id)).sum := by
  induction h with
  | nil => rfl
  | @leaf node seen trail rest insides hseen _ ih =>
      have hown : seen.count (.element id) = [node].count (.element id) := by
        cases node with
        | text s =>
            cases hseen
            simp [Seen.letters, List.count_eq_zero]
        | element other =>
            cases hseen
            simp [List.count_singleton]
        | error view =>
            cases hseen
            simp
        | debug other => cases hseen
      have hbehind : (node :: rest).count (.element id) =
          [node].count (.element id) + rest.count (.element id) := by
        rw [← List.singleton_append, List.count_append]
      rw [List.count_append, hown, ih, hbehind]
      omega
  | debug hview _ _ ihInner ih =>
      rw [List.count_append, ihInner, ih]
      simp
      omega

end Shows

/-! ### Open outputs -/

/-- The output is the root, or the last debug view in an open output wraps it. The outputs that lead
to it are listed, the nearest first. -/
inductive Open (t : Tree) (root : OutputId) : OutputId → List OutputId → Prop
  | root : t.Open root root []
  | inside {id : ViewId} {v : DebugView} {out : OutputId} {up : List OutputId} {before : List Node}
      (hview : t.view? id = some v) (hlast : t.nodes out = before ++ [.debug id])
      (h : t.Open root out up) : t.Open root v.inside (out :: up)

namespace Open

variable {t t' : Tree} {root out : OutputId} {up : List OutputId}

/-- Only the debug views that lead to it and the outputs around them matter. -/
theorem congr (h : t.Open root out up) (hviews : t.KeepsViews t')
    (hnodes : ∀ o ∈ up, t'.nodes o = t.nodes o) : t'.Open root out up := by
  induction h with
  | root => exact .root
  | @inside id v out up before hview hlast _ ih =>
      obtain ⟨v', hview', hinside⟩ := hviews id v hview
      rw [← hinside]
      have hlast' : t'.nodes out = before ++ [.debug id] := by
        rw [hnodes out List.mem_cons_self, hlast]
      exact .inside hview' hlast' (ih fun o ho => hnodes o (List.mem_cons_of_mem _ ho))

/-- Nothing leads to the root. -/
theorem eq_root (h : t.Open root out []) : out = root := by
  cases h
  rfl

/-- What leads to an open output is open. -/
theorem suffix {out' : OutputId} {up' : List OutputId} (h : t.Open root out up)
    (hsuffix : out' :: up' <:+ out :: up) : t.Open root out' up' := by
  induction h with
  | root =>
      have heq := hsuffix.eq_of_length_le (by simp)
      cases heq
      exact .root
  | inside hview hlast h ih =>
      rcases List.suffix_cons_iff.mp hsuffix with heq | hrest
      · cases heq
        exact .inside hview hlast h
      · exact ih hrest

/-- What an open output shows stands at the end of the trail, and nothing else depends on it. What
leads to it, and what stands before, are `front`. -/
theorem context {trail : List Seen} {insides : List OutputId} (h : t.Open root out up)
    (hshows : t.Shows (t.nodes root) trail insides) :
    ∃ before front inner within, trail = before ++ inner ∧ root :: insides = front ++ out :: within ∧
      up ⊆ front ∧ t.Shows (t.nodes out) inner within ∧
      ∀ t' inner' within', t.KeepsViews t' → (∀ o ∈ front, t'.nodes o = t.nodes o) →
        t'.Shows (t'.nodes out) inner' within' →
        ∃ insides', root :: insides' = front ++ out :: within' ∧
          t'.Shows (t'.nodes root) (before ++ inner') insides' := by
  induction h with
  | root =>
      refine ⟨[], [], trail, insides, rfl, rfl, List.nil_subset _, hshows, ?_⟩
      intro t' inner' within' _ _ hshows'
      exact ⟨within', rfl, hshows'⟩
  | @inside id v out up beforeView hview hlast _ ih =>
      obtain ⟨before, front, inner, within, rfl, hfront, hup, hout, hfill⟩ := ih
      rw [hlast] at hout
      obtain ⟨first, last, insides₁, insides₂, rfl, rfl, hfirst, hdebug⟩ := hout.split
      obtain ⟨within, rfl, hinside⟩ := hdebug.of_debug hview
      refine ⟨before ++ first, front ++ out :: insides₁, last, within, ?_, ?_, ?_, hinside, ?_⟩
      · rw [List.append_assoc]
      · rw [hfront, List.append_assoc, List.cons_append]
      · intro o ho
        rcases List.mem_cons.mp ho with rfl | ho
        · simp
        · simp [hup ho]
      · intro t' inner' within' hviews hnodes hshows'
        obtain ⟨v', hview', hv'⟩ := hviews id v hview
        -- around the open output there is what was there
        have hout' : t'.Shows (t'.nodes out) (first ++ inner') (insides₁ ++ v.inside :: within') := by
          rw [hnodes out (by simp), hlast, ← hv']
          rw [← hv'] at hshows'
          have hlast' := Shows.debug hview' hshows' .nil
          rw [List.append_nil, List.append_nil] at hlast'
          exact (hfirst.congr hviews fun o ho => hnodes o (by simp [ho])).append hlast'
        obtain ⟨insides', hinsides', hroot⟩ :=
          hfill t' _ _ hviews (fun o ho => hnodes o (by simp [ho])) hout'
        refine ⟨insides', ?_, ?_⟩
        · rw [hinsides', List.append_assoc, List.cons_append]
        · rwa [List.append_assoc]

end Open

/-! ### One element in the place of another -/

end Tree

/-- The node, or another element in the place of an element. -/
def Node.swap (old new : ElementId) (node : Node) : Node :=
  if node = .element old then .element new else node

/-- What is come across when an element is replaced by another one. -/
def Seen.swap (old new : ElementId) (seen : Seen) : Seen :=
  if seen = .element old then .element new else seen

variable {old new : ElementId}

theorem Node.map_swap_of_not_mem {nodes : List Node} (h : .element old ∉ nodes) :
    nodes.map (Node.swap old new) = nodes := by
  refine (List.map_congr_left fun node hnode => ?_).trans (List.map_id nodes)
  refine if_neg fun heq => h ?_
  rwa [← heq]

theorem Seen.element_mem_swap {trail : List Seen} {id : ElementId}
    (h : .element id ∈ trail.map (Seen.swap old new)) : id = new ∨ .element id ∈ trail := by
  obtain ⟨seen, hseen, heq⟩ := List.mem_map.mp h
  unfold Seen.swap at heq
  split at heq
  · cases heq
    exact .inl rfl
  · exact .inr (heq ▸ hseen)

/-- An element that stands nowhere takes the place of another one: still none stands there twice. -/
theorem Seen.count_swap_le {trail : List Seen} (honce : ∀ id, trail.count (.element id) ≤ 1)
    (hnew : .element new ∉ trail) (id : ElementId) :
    (trail.map (Seen.swap old new)).count (.element id) ≤ 1 := by
  have hle (other : ElementId) (h : ∀ seen ∈ trail, Seen.swap old new seen = .element id →
      seen = .element other) : (trail.map (Seen.swap old new)).count (.element id) ≤ 1 := by
    refine Nat.le_trans ?_ (honce other)
    rw [List.count, List.countP_map]
    refine List.countP_mono_left fun seen hseen heq => ?_
    simpa using h seen hseen (by simpa using heq)
  by_cases hid : id = new
  · refine hle old fun seen hseen heq => ?_
    unfold Seen.swap at heq
    split at heq
    · assumption
    · subst hid heq
      exact (hnew hseen).elim
  · refine hle id fun seen hseen heq => ?_
    unfold Seen.swap at heq
    split at heq
    · cases heq
      exact (hid rfl).elim
    · exact heq

namespace Tree

/-- The first one of the nodes is replaced, which is the only one. -/
theorem replaceFirst?_eq_map {nodes : List Node} (h : nodes.count (.element old) = 1) :
    replaceFirst? (.element old) (.element new) nodes = some (nodes.map (Node.swap old new)) := by
  induction nodes with
  | nil => cases h
  | cons node rest ih =>
      rw [replaceFirst?]
      by_cases hnode : node = .element old
      · subst hnode
        have hrest : .element old ∉ rest := by
          rw [List.count_cons_self] at h
          exact List.count_eq_zero.mp (by omega)
        rw [if_pos rfl, List.map_cons, Node.map_swap_of_not_mem hrest, Node.swap, if_pos rfl]
      · rw [List.count_cons_of_ne hnode] at h
        rw [if_neg hnode, ih h, List.map_cons, Node.swap, if_neg hnode]
        rfl

theorem Shows.swap {t t' : Tree} {nodes : List Node} {trail : List Seen}
    {insides : List OutputId} (h : t.Shows nodes trail insides) (hviews : t.KeepsViews t')
    (hnodes : ∀ o ∈ insides, t'.nodes o = (t.nodes o).map (Node.swap old new)) :
    t'.Shows (nodes.map (Node.swap old new)) (trail.map (Seen.swap old new)) insides := by
  induction h with
  | nil => exact .nil
  | @leaf node seen trail rest insides hseen _ ih =>
      have hswap : (node.swap old new).seen? = some (seen.map (Seen.swap old new)) := by
        cases node with
        | text s =>
            cases hseen
            simp [Node.swap, Node.seen?, Seen.letters, Seen.swap]
        | element id =>
            cases hseen
            by_cases hid : id = old <;> simp [Node.swap, Node.seen?, Seen.swap, hid]
        | error view =>
            cases hseen
            simp [Node.swap, Node.seen?, Seen.swap]
        | debug id => cases hseen
      rw [List.map_append]
      exact .leaf hswap (ih hnodes)
  | @debug id v inner trail within insides rest hview _ _ ihInner ih =>
      obtain ⟨v', hview', hinside⟩ := hviews id v hview
      have hinner := ihInner fun o ho => hnodes o (by simp [ho])
      rw [← hnodes v.inside (by simp), ← hinside] at hinner
      have hself : Node.swap old new (.debug id) = .debug id := rfl
      rw [List.map_append, List.map_cons, hself, ← hinside]
      exact .debug hview' hinner (ih fun o ho => hnodes o (by simp [ho]))

theorem Open.swap {t t' : Tree} {root out : OutputId} {up : List OutputId} (h : t.Open root out up)
    (hviews : t.KeepsViews t')
    (hnodes : ∀ o ∈ up, t'.nodes o = (t.nodes o).map (Node.swap old new)) :
    t'.Open root out up := by
  induction h with
  | root => exact .root
  | @inside id v out up before hview hlast _ ih =>
      obtain ⟨v', hview', hinside⟩ := hviews id v hview
      have hlast' : t'.nodes out = before.map (Node.swap old new) ++ [.debug id] := by
        rw [hnodes out List.mem_cons_self, hlast, List.map_append]
        rfl
      rw [← hinside]
      exact .inside hview' hlast' (ih fun o ho => hnodes o (List.mem_cons_of_mem _ ho))

end Tree

end StoryEngine
