import StoryEngine.Proofs.Display.Opened
import StoryEngine.Proofs.Display.Pushed
/-!
# StoryEngine.Proofs.Display.Typed

A content that is typed out letter by letter. While it is (`Typer.Shows`), its element holds the letters
so far as one text, and the content itself is set aside; one letter more is typed (`Typer.Shows.next`)
until the content is put back as it was (`Typer.Shows.finish`). So whatever is asked of a typer, the
reader sees the first letters of the text and in the end the content (`Typer.run_spec`).
-/

namespace StoryEngine

namespace Tree

variable {t u : Tree} {out : OutputId}

/-! ### Other nodes in an output -/

/-- Put other nodes in the place of those of an output. -/
def setNodes (t : Tree) (out : OutputId) (nodes : List Node) : Tree :=
  t.modifyNodes out fun _ => nodes

theorem nodes_setNodes (h : out.index < t.outputs.size) (nodes : List Node) :
    (t.setNodes out nodes).nodes out = nodes :=
  nodes_modifyNodes h _

theorem nodes_setNodes_of_ne {o : OutputId} (h : o ≠ out) (nodes : List Node) :
    (t.setNodes out nodes).nodes o = t.nodes o :=
  nodes_modifyNodes_of_ne h _

@[simp] theorem size_setNodes (t : Tree) (out : OutputId) (nodes : List Node) :
    (t.setNodes out nodes).outputs.size = t.outputs.size :=
  Array.size_modify

@[simp] theorem content_setNodes (t : Tree) (out : OutputId) (nodes : List Node) (id : ElementId) :
    (t.setNodes out nodes).content id = t.content id := by
  have hsize : (t.setNodes out nodes).outputs.size = t.outputs.size := size_setNodes t out nodes
  unfold content
  rw [hsize]
  rfl

@[simp] theorem setNodes_setNodes (t : Tree) (out : OutputId) (nodes nodes' : List Node) :
    (t.setNodes out nodes).setNodes out nodes' = t.setNodes out nodes' :=
  modifyNodes_modifyNodes t out _ _

/-- Only what becomes of the nodes that are there matters. -/
theorem modifyNodes_eq_setNodes (t : Tree) (out : OutputId) (change : List Node → List Node) :
    t.modifyNodes out change = t.setNodes out (change (t.nodes out)) := by
  unfold setNodes modifyNodes
  refine congrArg (fun outputs => { t with outputs := outputs }) (Array.ext_getElem? fun i => ?_)
  rw [Array.getElem?_modify, Array.getElem?_modify]
  split
  · rename_i hi
    subst hi
    unfold nodes
    cases t.outputs[out.index]? <;> rfl
  · rfl

/-! ### Texts in two trees -/

/-- The output was made, and so was whatever it leads to. No way into it is longer. -/
def MadeWithin (t : Tree) : Nat → OutputId → Prop
  | 0, _ => False
  | depth + 1, out => out.index < t.outputs.size ∧
      ∀ node ∈ t.nodes out, ∀ inner, t.inner? node = some inner → MadeWithin t depth inner

theorem MadeWithin.made {depth : Nat} (h : t.MadeWithin depth out) :
    out.index < t.outputs.size := by
  cases depth with
  | zero => exact h.elim
  | succ depth => exact h.1

/-- The content of an element is where it was, if it was made. -/
theorem content_eq_of_made (helements : u.elements = t.elements) {id : ElementId}
    (h : (t.content id).index < t.outputs.size) : u.content id = t.content id := by
  unfold content element? at h ⊢
  rw [helements]
  cases hid : t.elements[id.index]? with
  | some el => rfl
  | none =>
      rw [hid] at h
      exact (Nat.lt_irrefl _ h).elim

/-- So is what is inside a node. -/
theorem inner?_eq_of_made (helements : u.elements = t.elements) (hviews : u.views = t.views)
    {node : Node} {inner : OutputId} (hinner : t.inner? node = some inner)
    (h : inner.index < t.outputs.size) : u.inner? node = some inner := by
  cases node with
  | element id =>
      cases hinner
      exact congrArg some (content_eq_of_made helements h)
  | debug id =>
      cases hinner
      refine congrArg some ?_
      unfold inside view? at h ⊢
      rw [hviews]
      cases hid : t.views[id.index]? with
      | some v => rfl
      | none =>
          rw [hid] at h
          exact (Nat.lt_irrefl _ h).elim
  | _ => cases hinner

/-- A reader comes across the same in two trees if that holds of each output that is led to. -/
theorem reads_both {nodes : List Node}
    (h : ∀ node ∈ nodes, ∀ inner, t.inner? node = some inner → u.inner? node = some inner ∧
      ∃ seen, t.Reads (t.nodes inner) seen ∧ u.Reads (u.nodes inner) seen) :
    ∃ seen, t.Reads nodes seen ∧ u.Reads nodes seen := by
  induction nodes with
  | nil => exact ⟨[], .nil, .nil⟩
  | cons node rest ih =>
      obtain ⟨seen, hplain, hother⟩ := ih fun node hnode => h node (List.mem_cons_of_mem _ hnode)
      cases hinner : t.inner? node with
      | none =>
          have hnone : u.inner? node = none := by cases node <;> first | rfl | cases hinner
          exact ⟨_, .leaf hinner hplain, .leaf hnone hother⟩
      | some inner =>
          obtain ⟨hsame, inside, hinside, hinside'⟩ := h node List.mem_cons_self inner hinner
          exact ⟨_, .inner hinner hinside hplain, .inner hsame hinside' hother⟩

/-- Two trees with the same in whatever an output leads to. -/
structure SameInside (t u : Tree) (depth : Nat) : Prop where
  nodes : ∀ k < depth, ∀ o, t.MadeWithin k o → u.nodes o = t.nodes o
  inner : ∀ node inner, t.inner? node = some inner → inner.index < t.outputs.size →
    u.inner? node = some inner

theorem SameInside.reads {depth : Nat} (h : t.SameInside u depth) {k : Nat} (hk : k < depth)
    {o : OutputId} (ho : t.MadeWithin k o) :
    ∃ seen, t.Reads (t.nodes o) seen ∧ u.Reads (u.nodes o) seen := by
  induction k generalizing o with
  | zero => exact ho.elim
  | succ k ih =>
      rw [h.nodes _ hk o ho]
      refine reads_both fun node hnode inner hinner => ?_
      have hinside := ho.2 node hnode inner hinner
      exact ⟨h.inner node inner hinner hinside.made, ih (Nat.lt_of_succ_lt hk) hinside⟩

/-- A text is the same in another tree. -/
theorem SameInside.text_eq {depth : Nat} (h : t.SameInside u depth) (hout : t.MadeWithin depth out)
    {o : OutputId} (ho : u.nodes o = t.nodes out) : u.text o = t.text out := by
  cases depth with
  | zero => exact hout.elim
  | succ depth =>
      have hreads : ∃ seen, t.Reads (t.nodes out) seen ∧ u.Reads (t.nodes out) seen :=
        reads_both fun node hnode inner hinner =>
          have hinside := hout.2 node hnode inner hinner
          ⟨h.inner node inner hinner hinside.made, h.reads (Nat.lt_succ_self _) hinside⟩
      obtain ⟨seen, hplain, hother⟩ := hreads
      rw [← ho] at hother
      rw [text_eq_all, text_eq_all, hplain.walk, hother.walk]

/-- What is in an output does not lead back to it. -/
theorem MadeWithin.exists_least {depth : Nat} (h : t.MadeWithin depth out) :
    ∃ depth, t.MadeWithin depth out ∧ ∀ k < depth, ∀ o, t.MadeWithin k o → o ≠ out := by
  induction depth using Nat.strong_induction_on with
  | _ depth ih =>
      by_cases hless : ∃ k < depth, t.MadeWithin k out
      · obtain ⟨k, hk, hout⟩ := hless
        exact ih k hk hout
      · refine ⟨depth, h, fun k hk o ho heq => hless ⟨k, hk, heq ▸ ho⟩⟩

/-! ### The looks of an element -/

section Looks

variable {id : ElementId} {change : Element → Element}

theorem content_modifyElement (t : Tree) (id : ElementId)
    (hchange : ∀ el, (change el).content = el.content) (other : ElementId) : (t.modifyElement id change).content other = t.content other := by
  unfold content element? modifyElement
  simp only [Array.getElem?_modify]
  by_cases hid : id.index = other.index
  · rw [if_pos hid]
    cases t.elements[other.index]? with
    | none => rfl
    | some el => exact hchange el
  · rw [if_neg hid]

theorem inner?_modifyElement (t : Tree) (id : ElementId)
    (hchange : ∀ el, (change el).content = el.content) (node : Node) : (t.modifyElement id change).inner? node = t.inner? node := by
  cases node with
  | element other => exact congrArg some (content_modifyElement t id hchange other)
  | _ => rfl

/-- What an element looks like has nothing to do with what is in it. -/
theorem MadeWithin.modifyElement {depth : Nat} (h : t.MadeWithin depth out)
    (hchange : ∀ el, (change el).content = el.content) :
    (t.modifyElement id change).MadeWithin depth out := by
  induction depth generalizing out with
  | zero => exact h.elim
  | succ depth ih =>
      refine ⟨h.1, fun node hnode inner hinner => ih (h.2 node hnode inner ?_)⟩
      exact (inner?_modifyElement t id hchange node).symm.trans hinner

theorem MadeWithin.text_modifyElement {depth : Nat} (h : t.MadeWithin depth out)
    (hchange : ∀ el, (change el).content = el.content) :
    (t.modifyElement id change).text out = t.text out := by
  have hsame : t.SameInside (t.modifyElement id change) depth :=
    ⟨fun _ _ _ _ => rfl, fun node _ hinner _ => (inner?_modifyElement t id hchange node).trans hinner⟩
  exact hsame.text_eq h rfl

end Looks

end Tree

namespace Typer

/-! ### One letter after another -/

/-- Letters as they are typed: one text, or nothing. -/
def typed : List Char → List Node
  | [] => []
  | c :: rest => [.text (String.ofList (c :: rest))]

theorem typed_append_singleton (letters : List Char) (c : Char) :
    typed (letters ++ [c]) = Tree.withText (String.singleton c) (typed letters) := by
  cases letters with
  | nil => rfl
  | cons first rest =>
      have hjoined : String.ofList (first :: rest ++ [c]) =
          String.ofList (first :: rest) ++ String.singleton c := by
        rw [String.ofList_append]
        rfl
      exact congrArg (fun text => [Node.text text]) hjoined

/-- The display with the content back in its place. -/
def putBack (typer : Typer) (t : Tree) (original : List Node) : Tree :=
  ((t.setNodes (t.content typer.wrapper) []).setNodes typer.full []).setNodes
    (t.content typer.wrapper) original

/-- It makes no difference how much has been typed. -/
theorem putBack_setNodes (typer : Typer) (t : Tree) (nodes original : List Node) :
    typer.putBack (t.setNodes (t.content typer.wrapper) nodes) original = typer.putBack t original := by
  simp [putBack]

/-- The element of the typer holds the first of the letters, so many of them, and the original content
is set aside. -/
structure Shows (typer : Typer) (t : Tree) (original : List Node) (letters : List Char)
    (count : Nat) : Prop where
  underWay : typer.isDone = false
  untyped : typer.untyped = letters.drop count
  count_le : count ≤ letters.length
  made : (t.content typer.wrapper).index < t.outputs.size
  fullMade : typer.full.index < t.outputs.size
  apart : typer.full ≠ t.content typer.wrapper
  shown : t.nodes (t.content typer.wrapper) = typed (letters.take count)
  aside : t.nodes typer.full = original

namespace Shows

variable {typer : Typer} {t : Tree} {original : List Node} {letters : List Char} {count : Nat}

/-- A reader sees the letters that have been typed. -/
theorem text_eq (h : typer.Shows t original letters count) :
    t.text (t.content typer.wrapper) = String.ofList (letters.take count) := by
  have hshown := h.shown
  rw [Tree.text_eq_all]
  cases htyped : letters.take count with
  | nil =>
      rw [htyped] at hshown
      have hreads : t.Reads (t.nodes (t.content typer.wrapper)) [] := hshown ▸ .nil
      rw [hreads.walk]
      rfl
  | cons c rest =>
      rw [htyped] at hshown
      have hletters : t.Reads [.text (String.ofList (c :: rest))]
          (Seen.all [.text (String.ofList (c :: rest))]) := .leaf rfl .nil
      have hreads : t.Reads (t.nodes (t.content typer.wrapper))
          (Seen.all [.text (String.ofList (c :: rest))]) := hshown ▸ hletters
      rw [hreads.walk, Seen.join_visible]
      simp [Node.visible]

/-- The next letter is typed, if there is one. -/
theorem typeNext_eq (h : typer.Shows t original letters count) (hcount : count < letters.length) :
    typer.typeNext t = (true, { typer with untyped := letters.drop (count + 1) },
      t.setNodes (t.content typer.wrapper) (typed (letters.take (count + 1)))) := by
  have huntyped : typer.untyped = letters[count] :: letters.drop (count + 1) := by
    rw [h.untyped, List.drop_eq_getElem_cons hcount]
  have htaken : letters.take (count + 1) = letters.take count ++ [letters[count]] := by simp
  have hnodes : Tree.withText (String.singleton letters[count])
      (t.nodes (t.content typer.wrapper)) = typed (letters.take (count + 1)) := by
    rw [h.shown, htaken, typed_append_singleton]
  have hpushed : t.pushText (t.content typer.wrapper) (String.singleton letters[count]) =
      t.setNodes (t.content typer.wrapper) (typed (letters.take (count + 1))) := by
    rw [Tree.pushText, if_neg (by simp), Tree.modifyNodes_eq_setNodes, hnodes]
  rw [typeNext, h.underWay, huntyped]
  dsimp only
  rw [if_neg Bool.false_ne_true, hpushed]

/-- One more letter is there then. -/
theorem next (h : typer.Shows t original letters count) (hcount : count < letters.length) :
    Shows { typer with untyped := letters.drop (count + 1) }
      (t.setNodes (t.content typer.wrapper) (typed (letters.take (count + 1)))) original letters
      (count + 1) where
  underWay := h.underWay
  untyped := rfl
  count_le := hcount
  made := by simpa using h.made
  fullMade := by simpa using h.fullMade
  apart := by simpa using h.apart
  shown := by
    rw [Tree.content_setNodes]
    exact Tree.nodes_setNodes h.made _
  aside := (Tree.nodes_setNodes_of_ne h.apart _).trans h.aside

/-- The content is put back as it was, whatever has been typed. -/
theorem finish_eq (h : typer.Shows t original letters count) :
    typer.finish t = ({ typer with isDone := true }, typer.putBack t original) := by
  let cleared := (t.setNodes (t.content typer.wrapper) []).setNodes typer.full []
  have hmoved : (t.setNodes (t.content typer.wrapper) []).nodes typer.full = original :=
    (Tree.nodes_setNodes_of_ne h.apart _).trans h.aside
  have hempty : cleared.nodes (t.content typer.wrapper) = [] := by
    rw [Tree.nodes_setNodes_of_ne h.apart.symm, Tree.nodes_setNodes h.made]
  have hback : (t.clear (t.content typer.wrapper)).appendAll (t.content typer.wrapper) typer.full =
      typer.putBack t original := by
    change (t.setNodes (t.content typer.wrapper) []).appendAll (t.content typer.wrapper) typer.full = _
    rw [Tree.appendAll, if_neg h.apart.symm, hmoved]
    change cleared.modifyNodes (t.content typer.wrapper) (· ++ original) = _
    rw [Tree.modifyNodes_eq_setNodes, hempty, List.nil_append]
    rfl
  rw [finish, h.underWay, if_neg Bool.false_ne_true]
  dsimp only
  rw [hback]

/-- So it is when there is no letter left to type. -/
theorem typeNext_last (h : typer.Shows t original letters letters.length) :
    typer.typeNext t = (false, typer.finish t) := by
  have hnone : typer.untyped = [] := by rw [h.untyped, List.drop_length]
  rw [typeNext, h.underWay, hnone]
  rfl

/-- The content is in its place then, and nowhere else. -/
theorem nodes_putBack (h : typer.Shows t original letters count) :
    (typer.putBack t original).nodes (t.content typer.wrapper) = original ∧
      (typer.putBack t original).nodes typer.full = [] := by
  unfold putBack
  constructor
  · exact Tree.nodes_setNodes (by simpa using h.made) original
  · rw [Tree.nodes_setNodes_of_ne h.apart]
    exact Tree.nodes_setNodes (by simpa using h.fullMade) []

end Shows

/-! ### A content that is set aside -/

section SetAside

variable {t : Tree} {wrapper : ElementId} {depth : Nat}

/-- A content that is set aside is in a new output, and nothing else has changed. -/
theorem nodes_ofElement (hmade : (t.content wrapper).index < t.outputs.size) :
    (ofElement t wrapper).2.nodes t.newOutput.1 = t.nodes (t.content wrapper) ∧
      (ofElement t wrapper).2.nodes (t.content wrapper) = [] ∧
      ∀ o, o.index < t.outputs.size → o ≠ t.content wrapper →
        (ofElement t wrapper).2.nodes o = t.nodes o := by
  obtain ⟨hne, haside⟩ := ofElement_of_made hmade
  rw [haside]
  refine ⟨?_, ?_, fun o ho hother => ?_⟩
  · have hempty : (t.newOutput.2.clear (t.content wrapper)).nodes t.newOutput.1 = [] := by
      rw [Tree.clear, Tree.nodes_modifyNodes_of_ne hne, Tree.nodes_newOutput]
      exact Tree.nodes_of_size_le (Nat.le_refl _)
    rw [Tree.nodes_modifyNodes (by simp [Tree.clear, Tree.modifyNodes, Tree.newOutput]), hempty,
      List.nil_append]
  · rw [Tree.nodes_modifyNodes_of_ne hne.symm, Tree.nodes_clear]
  · have hnew : o ≠ t.newOutput.1 := fun heq => Nat.lt_irrefl _ (heq ▸ ho)
    rw [Tree.nodes_modifyNodes_of_ne hnew, Tree.clear, Tree.nodes_modifyNodes_of_ne hother,
      Tree.nodes_newOutput]

/-- The text of a content is the same when it has been set aside. -/
theorem untyped_ofElement (h : t.MadeWithin depth (t.content wrapper)) :
    (ofElement t wrapper).1.untyped = (t.text (t.content wrapper)).toList := by
  obtain ⟨depth, h, hother⟩ := h.exists_least
  obtain ⟨hmoved, -, hkept⟩ := nodes_ofElement h.made
  obtain ⟨-, haside⟩ := ofElement_of_made h.made
  have hsame : t.SameInside (ofElement t wrapper).2 depth := by
    refine ⟨fun k hk o ho => hkept o ho.made (hother k hk o ho), fun node inner hinner hmade => ?_⟩
    exact Tree.inner?_eq_of_made (haside ▸ rfl) (haside ▸ rfl) hinner hmade
  exact congrArg String.toList (hsame.text_eq h hmoved)

/-- Nothing has been typed yet. -/
theorem shows_ofElement (h : t.MadeWithin depth (t.content wrapper)) :
    (ofElement t wrapper).1.Shows (ofElement t wrapper).2 (t.nodes (t.content wrapper))
      (t.text (t.content wrapper)).toList 0 := by
  obtain ⟨hne, haside⟩ := ofElement_of_made h.made
  obtain ⟨hmoved, hempty, -⟩ := nodes_ofElement h.made
  have hcontent : (ofElement t wrapper).2.content wrapper = t.content wrapper :=
    Tree.content_eq_of_made (haside ▸ rfl) h.made
  have hsize : (ofElement t wrapper).2.outputs.size = t.outputs.size + 1 := by
    rw [haside]
    simp [Tree.clear, Tree.modifyNodes, Tree.newOutput]
  refine ⟨rfl, untyped_ofElement h, Nat.zero_le _, ?_, ?_, ?_, ?_, hmoved⟩
  · rw [hsize]
    exact Nat.lt_succ_of_lt (hcontent.symm ▸ h.made)
  · rw [hsize]
    exact Nat.lt_succ_self _
  · exact hcontent.symm ▸ hne
  · exact hcontent.symm ▸ hempty

/-- What its element looks like makes no difference. -/
theorem shows_ofElement_modifyElement (h : t.MadeWithin depth (t.content wrapper)) (id : ElementId)
    {change : Element → Element} (hchange : ∀ el, (change el).content = el.content) :
    (ofElement (t.modifyElement id change) wrapper).1.Shows
      (ofElement (t.modifyElement id change) wrapper).2 (t.nodes (t.content wrapper))
      (t.text (t.content wrapper)).toList 0 := by
  have hcontent := Tree.content_modifyElement t id hchange wrapper
  have hmade : (t.modifyElement id change).MadeWithin depth
      ((t.modifyElement id change).content wrapper) := by
    rw [hcontent]
    exact h.modifyElement hchange
  have hshows := shows_ofElement hmade
  rw [hcontent, h.text_modifyElement hchange] at hshows
  exact hshows

/-- When a content is put back, the display is what it was, but for an empty output more. -/
theorem putBack_ofElement (h : t.MadeWithin depth (t.content wrapper)) :
    (ofElement t wrapper).1.putBack (ofElement t wrapper).2 (t.nodes (t.content wrapper)) =
      t.newOutput.2 := by
  have hback := finish_ofElement h.made
  rw [(shows_ofElement h).finish_eq] at hback
  exact congrArg Prod.snd hback

end SetAside

/-! ### Whatever a typer is asked for -/

/-- What a typer can be asked for. -/
inductive Request where
  | typeNext
  | finish
deriving Repr, DecidableEq

/-- Ask a typer for something, and tell whether a letter was typed. -/
def answer (typer : Typer) (t : Tree) : Request → Bool × Typer × Tree
  | .typeNext => typer.typeNext t
  | .finish => (false, typer.finish t)

/-- Ask a typer for one thing after another. -/
def run (typer : Typer) (t : Tree) : List Request → List Bool × Typer × Tree
  | [] => ([], typer, t)
  | request :: rest =>
    let (isTyped, typer, t) := typer.answer t request
    let (others, typer, t) := typer.run t rest
    (isTyped :: others, typer, t)

theorem run_concat (typer : Typer) (t : Tree) (requests : List Request) (request : Request) :
    typer.run t (requests ++ [request]) =
      let (answers, typer, t) := typer.run t requests
      let (isTyped, typer, t) := typer.answer t request
      (answers ++ [isTyped], typer, t) := by
  induction requests generalizing typer t with
  | nil => rfl
  | cons first rest ih => simp [run, ih]

/-- What comes of requests to a typer that has the letters to type: the answers, the typer and the
display. -/
inductive Outcome (typer : Typer) (original : List Node) (letters : List Char) (restored : Tree) :
    List Request → List Bool × Typer × Tree → Prop
  /-- Only letters have been asked for, and all of them typed. -/
  | typing {count : Nat} {typer' : Typer} {t : Tree} (h : typer'.Shows t original letters count)
      (hwrapper : typer'.wrapper = typer.wrapper)
      (htext : t.text (t.content typer.wrapper) = String.ofList (letters.take count))
      (hback : typer'.putBack t original = restored) :
      Outcome typer original letters restored (List.replicate count .typeNext)
        (List.replicate count true, typer', t)
  /-- The first request that is not for a letter, or is for one beyond the last, has put the content
  back. -/
  | done {count : Nat} {typer' : Typer} {first : Request} (rest : List Request)
      (hcount : count ≤ letters.length) (hfirst : first = .typeNext → count = letters.length)
      (hdone : typer'.isDone = true) :
      Outcome typer original letters restored (List.replicate count .typeNext ++ first :: rest)
        (List.replicate count true ++ List.replicate (rest.length + 1) false, typer', restored)

/-- One request more: another letter is typed, the content is put back, or nothing changes. -/
theorem Outcome.answer {typer typer' : Typer} {original : List Node} {letters : List Char}
    {t restored : Tree} {requests : List Request} {answers : List Bool}
    (h : Outcome typer original letters restored requests (answers, typer', t)) (request : Request) :
    Outcome typer original letters restored (requests ++ [request])
      (answers ++ [(typer'.answer t request).1], (typer'.answer t request).2) := by
  cases h with
  | @done count _ first rest hcount hfirst hdone =>
      have hanswer : typer'.answer t request = (false, typer', t) := by
        cases request <;> simp [Typer.answer, typeNext, finish, hdone]
      have hmore : Outcome typer original letters t _ _ :=
        .done (rest ++ [request]) hcount hfirst hdone
      rw [hanswer]
      simpa [List.replicate_succ'] using hmore
  | @typing count _ _ h hwrapper _ hback =>
      have hstop (hrequest : request = .typeNext → count = letters.length)
          (hanswer : typer'.answer t request = (false, typer'.finish t)) :
          Outcome typer original letters restored (List.replicate count .typeNext ++ [request])
            (List.replicate count true ++ [(typer'.answer t request).1],
              (typer'.answer t request).2) := by
        rw [hanswer, h.finish_eq, hback]
        exact .done [] h.count_le hrequest rfl
      cases request with
      | finish => exact hstop (fun heq => by cases heq) rfl
      | typeNext =>
          rcases Nat.lt_or_eq_of_le h.count_le with hcount | hcount
          · rw [Typer.answer, h.typeNext_eq hcount, ← List.replicate_succ', ← List.replicate_succ']
            exact .typing (h.next hcount) hwrapper (hwrapper ▸ (h.next hcount).text_eq)
              ((putBack_setNodes typer' t _ original).trans hback)
          · refine hstop (fun _ => hcount) ?_
            subst hcount
            exact h.typeNext_last

/-- And so on for any number of requests. -/
theorem Shows.outcome {typer : Typer} {t : Tree} {original : List Node} {letters : List Char}
    (h : typer.Shows t original letters 0) (requests : List Request) :
    Outcome typer original letters (typer.putBack t original) requests (typer.run t requests) := by
  induction requests using List.reverseRecOn with
  | nil => exact .typing h rfl h.text_eq rfl
  | append_singleton requests request ih =>
      rw [run_concat]
      exact ih.answer request

/-- Whatever the typer of a content is asked for, the letters of its text are typed one after another
until its nodes are back. -/
theorem outcome_ofElement {t : Tree} {wrapper : ElementId} {depth : Nat}
    (h : t.MadeWithin depth (t.content wrapper)) (requests : List Request) :
    Outcome (ofElement t wrapper).1 (t.nodes (t.content wrapper))
      (t.text (t.content wrapper)).toList t.newOutput.2 requests
      ((ofElement t wrapper).1.run (ofElement t wrapper).2 requests) :=
  putBack_ofElement h ▸ (shows_ofElement h).outcome requests

end Typer

end StoryEngine
