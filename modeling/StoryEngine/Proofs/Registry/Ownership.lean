import StoryEngine.Proofs.Registry.History
/-!
# StoryEngine.Proofs.Registry.Ownership

Who owns a tag. While macros are registered and deleted and nothing else is done, the table of tags
can be read off the macros: a tag is there for the macros whose own it is, and for no others
(`Registry.tags_exact`). This includes registering several names of which one is refused, and
deleting some of the macros that share a tag.
-/

namespace StoryEngine

variable {η : Type}

namespace Registry

variable {r : Registry η} {name other tag : String}

/-- The macro is registered and has a body, of which the tag is a closing tag or a child tag. -/
def Owns (r : Registry η) (name tag : String) : Prop :=
  ∃ entry, Entries.find? name r.macros = some entry ∧ entry.definition.isContainer = true ∧
    (tag = "/" ++ name ∨ tag = "end" ++ name ∨ tag ∈ entry.definition.childTags)

theorem owns_iff :
    r.Owns name tag ↔ ∃ entry, Entries.find? name r.macros = some entry ∧
      tag ∈ entry.definition.ownTags name := by
  simp only [Owns, Definition.mem_ownTags]

theorem owns_enter {entry : MacroEntry η} (h : r.has other = false) :
    (r.enter other entry).Owns name tag ↔
      r.Owns name tag ∨ (name = other ∧ tag ∈ entry.definition.ownTags other) := by
  rw [owns_iff, owns_iff, enter]
  by_cases hname : name = other
  · subst hname
    have hnone := has_eq_false_iff.1 h
    simp [hnone]
  · simp [hname, Entries.find?_put_of_ne hname]

theorem owns_leave {entry : MacroEntry η} :
    (r.leave other entry).Owns name tag ↔ r.Owns name tag ∧ name ≠ other := by
  rw [owns_iff, owns_iff, leave]
  by_cases hname : name = other
  · subst hname
    simp
  · simp [hname, Entries.find?_remove_of_ne hname]

/-- The table says of every tag whose it is. -/
structure ExactTags (r : Registry η) : Prop where
  sound : r.tags.Sound
  mem_owners : ∀ tag name, name ∈ r.tags.owners tag ↔ r.Owns name tag

namespace ExactTags

theorem empty : ({} : Registry η).ExactTags := by
  refine ⟨TagTable.Sound.empty, fun tag name => ?_⟩
  simp [Owns, TagTable.owners, Entries.find?]

theorem enter (h : r.ExactTags) {entry : MacroEntry η} (hfree : r.FreeName name entry.definition) :
    (r.enter name entry).ExactTags := by
  refine ⟨h.sound.addOwners name _, fun tag owner => ?_⟩
  rw [owns_enter hfree.noMacro, ← h.mem_owners tag owner]
  exact TagTable.mem_owners_addOwners

theorem leave (h : r.ExactTags) {entry : MacroEntry η}
    (hentry : Entries.find? name r.macros = some entry) : (r.leave name entry).ExactTags := by
  by_cases hcontainer : entry.definition.isContainer = true
  · have htags : (r.leave name entry).tags = TagTable.dropOwner name r.tags := if_pos hcontainer
    refine ⟨htags ▸ h.sound.dropOwner name, fun tag owner => ?_⟩
    rw [owns_leave, ← h.mem_owners tag owner, htags]
    exact TagTable.mem_owners_dropOwner h.sound.ascending
  · have htags : (r.leave name entry).tags = r.tags := if_neg hcontainer
    refine ⟨htags ▸ h.sound, fun tag owner => ?_⟩
    rw [owns_leave, htags, h.mem_owners tag owner]
    -- it leaves no tag behind, since it never had one
    have hnever : ¬ r.Owns name tag := by
      rintro ⟨found, hfound, hbody, -⟩
      obtain rfl := Option.some.inj (hentry.symm.trans hfound)
      exact hcontainer hbody
    constructor
    · intro howns
      refine ⟨howns, ?_⟩
      rintro rfl
      exact hnever howns
    · exact fun howns => howns.1

theorem change {r' : Registry η} (h : r.ExactTags) (hchange : r.MacroChange r') : r'.ExactTags := by
  cases hchange with
  | identify => exact ⟨h.sound, h.mem_owners⟩
  | enter name entry hfree => exact h.enter hfree
  | leave name entry hentry => exact h.leave hentry

theorem after {calls : List (RegistryCall η)} (hcalls : ∀ call ∈ calls, call.IsOnMacros) :
    (after calls).ExactTags :=
  after_induction_onMacros .empty hcalls fun _ _ h hchange => h.change hchange

/-- A tag is in the table if somebody owns it, with all who do. -/
theorem find?_eq_some_iff (h : r.ExactTags) {parents : List String} :
    Entries.find? tag r.tags = some parents ↔
      parents ≠ [] ∧ parents.Pairwise (· < ·) ∧ ∀ name, name ∈ parents ↔ r.Owns name tag := by
  rw [h.sound.find?_eq_some_iff]
  simp only [h.mem_owners]

/-- The macros alone determine the table. -/
theorem tags_eq {r' : Registry η} (h : r.ExactTags) (h' : r'.ExactTags)
    (hmacros : r.macros = r'.macros) : r.tags = r'.tags := by
  refine h.sound.eq_of_owners h'.sound fun tag name => ?_
  rw [h.mem_owners, h'.mem_owners, Owns, Owns, hmacros]

end ExactTags

/-- After registering and deleting macros a tag is in the table if and only if somebody owns it, and
then with its owners in ascending order. The table depends on nothing but the macros that are
left. -/
theorem tags_exact {calls : List (RegistryCall η)} (hcalls : ∀ call ∈ calls, call.IsOnMacros) :
    (∀ tag parents, Entries.find? tag (after calls).tags = some parents ↔
      parents ≠ [] ∧ parents.Pairwise (· < ·) ∧
        ∀ name, name ∈ parents ↔ (after calls).Owns name tag) ∧
    ∀ others : List (RegistryCall η), (∀ call ∈ others, call.IsOnMacros) →
      (after others).macros = (after calls).macros → (after others).tags = (after calls).tags := by
  have hexact := ExactTags.after hcalls
  refine ⟨fun tag parents => hexact.find?_eq_some_iff, fun others hothers hmacros => ?_⟩
  exact (ExactTags.after hothers).tags_eq hexact hmacros

/-- Macros that share a tag. One of them has an alias and is deleted, another cannot have its second
name. -/
def sharing : List (RegistryCall Unit) :=
  [.add ["if"] { handler := some (), tags := .children ["else"] }, .addAlias ["when"] "if",
    .add ["case", "when", "of"] { handler := some (), tags := .children ["else"] },
    .delete ["if", "of"]]

/-- The same macros without the detours. -/
def sharingPlainly : List (RegistryCall Unit) :=
  [.add ["if"] { handler := some (), tags := .children ["else"] }, .addAlias ["when"] "if",
    .delete ["if"], .add ["case"] { handler := some (), tags := .children ["else"] }]

/-- The tag is left to the alias and to the name before the refused one. -/
theorem sharing_leaves_two :
    (∀ call ∈ sharing, call.IsOnMacros) ∧ ["case", "when"].Pairwise (· < ·) ∧
      (∀ name, name ∈ ["case", "when"] ↔ (after sharing).Owns name "else") ∧
      (after sharingPlainly).tags = (after sharing).tags := by
  have hcalls : ∀ call ∈ sharing, call.IsOnMacros := by
    simp [sharing, RegistryCall.IsOnMacros]
  have hplain : ∀ call ∈ sharingPlainly, call.IsOnMacros := by
    simp [sharingPlainly, RegistryCall.IsOnMacros]
  have hfind : Entries.find? "else" (after sharing).tags = some ["case", "when"] := by
    decide
  obtain ⟨hentries, hmacros⟩ := tags_exact hcalls
  obtain ⟨-, hascending, howners⟩ := (hentries "else" ["case", "when"]).1 hfind
  exact ⟨hcalls, hascending, howners, hmacros sharingPlainly hplain rfl⟩

end Registry

end StoryEngine
