import StoryEngine.Display.Reading
/-!
# StoryEngine.Proofs.Display.Pushed

Text at the end of an output. It does not show in how many pieces a text was put there
(`Tree.pushText_pushText`), and in an output that was empty it is all that a reader sees.
-/

namespace StoryEngine.Tree

variable {t : Tree} {out : OutputId}

theorem nodes_modifyNodes (h : out.index < t.outputs.size) (change : List Node → List Node) :
    (t.modifyNodes out change).nodes out = change (t.nodes out) := by
  simp [nodes, modifyNodes, Array.getElem_modify, h]

theorem modifyNodes_modifyNodes (t : Tree) (out : OutputId) (f g : List Node → List Node) :
    (t.modifyNodes out f).modifyNodes out g = t.modifyNodes out fun nodes => g (f nodes) := by
  have houtputs : (t.outputs.modify out.index f).modify out.index g =
      t.outputs.modify out.index fun nodes => g (f nodes) := by
    refine Array.ext_getElem? fun i => ?_
    by_cases hi : out.index = i
    · simp [Array.getElem?_modify, hi, Function.comp_def]
    · simp [Array.getElem?_modify, hi]
  simp [modifyNodes, houtputs]

theorem withText_ne_nil (text : String) (nodes : List Node) : withText text nodes ≠ [] := by
  fun_cases withText text nodes <;> simp

theorem withText_cons_of_ne_nil (text : String) (node : Node) {rest : List Node} (h : rest ≠ []) :
    withText text (node :: rest) = node :: withText text rest := by
  rw [withText]
  rintro last - hrest
  exact h hrest

/-- The second of two texts joins the first. -/
theorem withText_withText (first second : String) (nodes : List Node) :
    withText second (withText first nodes) = withText (first ++ second) nodes := by
  fun_induction withText first nodes with
  | case1 => rfl
  | case2 last => simp [withText, String.append_assoc]
  | case3 node rest hlast ih =>
      have hrest : withText (first ++ second) (node :: rest) =
          node :: withText (first ++ second) rest := by
        rw [withText]
        exact hlast
      rw [withText_cons_of_ne_nil second node (withText_ne_nil first rest), ih, hrest]

/-- Two texts are put at the end as one is. -/
theorem pushText_pushText (t : Tree) (out : OutputId) (first second : String) :
    (t.pushText out first).pushText out second = t.pushText out (first ++ second) := by
  unfold pushText
  -- an empty text is not put anywhere, not even as a node of its own
  by_cases hfirst : first = ""
  · simp [hfirst]
  · by_cases hsecond : second = ""
    · simp [hfirst, hsecond]
    · simp [hfirst, hsecond, modifyNodes_modifyNodes, withText_withText]

/-! ### An output with nothing but text -/

/-- The output is there and has nothing in it. -/
structure IsBlank (t : Tree) (out : OutputId) : Prop where
  present : out.index < t.outputs.size
  empty : t.nodes out = []

theorem IsBlank.walk_pushText (h : t.IsBlank out) (text : String) :
    (t.pushText out text).walk out = if text.isEmpty then [] else [.text text] := by
  obtain ⟨depth, hdepth⟩ : ∃ depth, t.outputs.size = depth + 1 :=
    ⟨t.outputs.size - 1, by have := h.present; omega⟩
  unfold pushText
  split
  · rw [walk, hdepth, walkWithin, h.empty]
    rfl
  · have hfilled : (t.modifyNodes out (withText text)).nodes out = [.text text] := by
      rw [nodes_modifyNodes h.present, h.empty]
      rfl
    have hsize : (t.modifyNodes out (withText text)).outputs.size = depth + 1 := by
      simp [modifyNodes, hdepth]
    rw [walk, hsize, walkWithin, hfilled]
    rfl

/-- All that a reader sees in the output is the text. -/
theorem IsBlank.text_pushText (h : t.IsBlank out) (text : String) :
    (t.pushText out text).text out = text := by
  rw [Tree.text, h.walk_pushText]
  split
  · rename_i hempty
    simp [String.isEmpty_iff.1 hempty]
  · simp [Node.visible]

theorem IsBlank.errors_pushText (h : t.IsBlank out) (text : String) :
    (t.pushText out text).errors out = [] := by
  rw [errors, h.walk_pushText]
  split
  · rfl
  · rfl

end StoryEngine.Tree
