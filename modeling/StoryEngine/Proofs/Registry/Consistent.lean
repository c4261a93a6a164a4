import Mathlib.Data.List.Induction
import StoryEngine.Proofs.Registry.History
/-!
# StoryEngine.Proofs.Registry.Consistent

What is true of every registry, whatever has been called on it and however that ended
(`Registry.consistent_after`). A name that enters is checked against the tags, and the tags that it
brings against the names, so no name is ever both.

No tag is a registered macro, so nothing registered is found under the name of a tag. But the legacy
table takes no part in what is checked: a definition is put into it under any name, and a name that
it holds may become a tag. So a tag is found if a legacy definition has its name, and what is found
is that definition (`Registry.get?_of_tag`).
-/

namespace StoryEngine

variable {η : Type}

/-- The grammar of macro names: a letter with letters, digits, underscores and hyphens behind it, or
one of two signs. -/
inductive MacroName : String → Prop
  | word {c : Char} {cs : List Char} (hc : c.isAlpha = true)
    (hcs : ∀ d ∈ cs, d.isAlphanum = true ∨ d = '_' ∨ d = '-') : MacroName (String.ofList (c :: cs))
  | equals : MacroName "="
  | hyphen : MacroName "-"

theorem isMacroName_iff {name : String} : isMacroName name = true ↔ MacroName name := by
  constructor
  · intro h
    rw [← String.ofList_toList (s := name)]
    unfold isMacroName at h
    split at h
    · cases h
    · rename_i heq
      rw [heq]
      exact .equals
    · rename_i heq
      rw [heq]
      exact .hyphen
    · rename_i c cs _ _ heq
      rw [heq]
      simp only [Bool.and_eq_true, List.all_eq_true] at h
      refine .word h.1 fun d hd => ?_
      simpa [isMacroNameChar, or_assoc] using h.2 d hd
  · rintro (@⟨c, cs, hc, hcs⟩ | _ | _)
    · unfold isMacroName
      rw [String.toList_ofList]
      split
      · rename_i heq
        cases heq
      · rfl
      · rfl
      · rename_i heq
        obtain ⟨rfl, rfl⟩ := List.cons.inj heq
        simpa [isMacroNameChar, hc, or_assoc] using hcs
    · rfl
    · rfl

/-- The grammar of tags: macro names, and anything behind a slash. -/
def TagName (tag : String) : Prop :=
  MacroName tag ∨ ∃ rest, tag.toList = '/' :: rest

theorem tagName_of_isTagName {tag : String} (h : Registry.isTagName tag = true) : TagName tag := by
  rw [Registry.isTagName, Bool.or_eq_true] at h
  rcases h with h | h
  · exact .inl (isMacroName_iff.1 h)
  · have hhead : tag.toList.head? = some '/' := by simpa using h
    obtain ⟨rest, hrest⟩ := List.head?_eq_some_iff.1 hhead
    exact .inr ⟨rest, hrest⟩

namespace TagTable

variable {table : TagTable} {tag parent : String}

theorem has_addOwners {tags : List String} :
    Entries.has tag (addOwners parent tags table) = true ↔
      tag ∈ tags ∨ Entries.has tag table = true := by
  rw [Entries.has, find?_addOwners]
  split
  · rename_i hmem
    simp [hmem]
  · rename_i hmem
    simp [hmem, Entries.has]

theorem Sound.has_of_dropOwner (h : table.Sound)
    (hhas : Entries.has tag (TagTable.dropOwner parent table) = true) :
    Entries.has tag table = true := by
  obtain ⟨name, hname⟩ := (h.dropOwner parent).has_iff.1 hhas
  exact h.has_iff.2 ⟨name, ((mem_owners_dropOwner h.ascending).1 hname).1⟩

end TagTable

namespace Registry

/-- Names and tags are spelled as they should be and kept apart, and every tag has owners. -/
structure Consistent (r : Registry η) : Prop where
  /-- No name is a macro and a tag. -/
  apart : ∀ name, r.has name = true → Entries.has name r.tags = false
  macros : ∀ name, r.has name = true → MacroName name
  tagNames : ∀ tag, Entries.has tag r.tags = true → TagName tag
  /-- The owners of a tag ascend, each of them once, and there is at least one. -/
  owned : ∀ tag parents, Entries.find? tag r.tags = some parents →
    parents ≠ [] ∧ parents.Pairwise (· < ·)
  /-- The tags ascend, each of them once. -/
  ascending : Entries.Ascending r.tags

namespace Consistent

variable {r : Registry η} {name : String}

theorem tags (h : r.Consistent) : r.tags.Sound :=
  ⟨h.ascending, h.owned⟩

theorem empty : ({} : Registry η).Consistent :=
  ⟨nofun, nofun, nofun, nofun, Entries.ascending_nil⟩

/-- With more tags for a parent, none of which is a macro. -/
theorem own (h : r.Consistent) (parent : String) (tags : List String)
    (hfree : ∀ tag ∈ tags, isTagName tag = true ∧ r.has tag = false) :
    Consistent { r with tags := TagTable.addOwners parent tags r.tags } := by
  have hsound := h.tags.addOwners parent tags
  refine ⟨fun name hname => ?_, h.macros, fun tag htag => ?_, hsound.owned, hsound.ascending⟩
  · rw [← Bool.not_eq_true, TagTable.has_addOwners]
    rintro (hmem | htag)
    · have hnamed : r.has name = true := hname
      simp [(hfree name hmem).2] at hnamed
    · simp [h.apart name hname] at htag
  · rcases TagTable.has_addOwners.1 htag with hmem | htag
    · exact tagName_of_isTagName (hfree tag hmem).1
    · exact h.tagNames tag htag

/-- With one macro more, which is no tag. -/
theorem addMacro (h : r.Consistent) (entry : MacroEntry η) (hspelled : isMacroName name = true)
    (hnone : Entries.find? name r.tags = none) :
    Consistent { r with macros := Entries.put name entry r.macros } := by
  have hnamed (other : String)
      (hother : Entries.has other (Entries.put name entry r.macros) = true) :
      other = name ∨ r.has other = true := by
    by_cases heq : other = name
    · exact .inl heq
    · exact .inr ((Entries.has_put_of_ne heq entry r.macros).symm.trans hother)
  refine ⟨fun other hother => ?_, fun other hother => ?_, h.tagNames, h.owned, h.ascending⟩
  · rcases hnamed other hother with rfl | hother
    · exact Entries.has_eq_false_iff.2 hnone
    · exact h.apart other hother
  · rcases hnamed other hother with rfl | hother
    · exact isMacroName_iff.1 hspelled
    · exact h.macros other hother

/-- With fewer tags. -/
theorem disown (h : r.Consistent) (parent : String) :
    Consistent { r with tags := TagTable.dropOwner parent r.tags } := by
  have hsound := h.tags.dropOwner parent
  refine ⟨fun name hname => ?_, h.macros, fun tag htag => ?_, hsound.owned, hsound.ascending⟩
  · rw [← Bool.not_eq_true]
    intro htag
    have := h.tags.has_of_dropOwner htag
    simp [h.apart name hname] at this
  · exact h.tagNames tag (h.tags.has_of_dropOwner htag)

/-- With one macro fewer. -/
theorem dropMacro (h : r.Consistent) (name : String) :
    Consistent { r with macros := Entries.remove name r.macros } := by
  have hnamed (other : String) (hother : Entries.has other (Entries.remove name r.macros) = true) :
      r.has other = true := by
    by_cases heq : other = name
    · subst heq
      simp [Entries.has] at hother
    · rw [Entries.has, Entries.find?_remove_of_ne heq] at hother
      exact hother
  exact ⟨fun other hother => h.apart other (hnamed other hother),
    fun other hother => h.macros other (hnamed other hother), h.tagNames, h.owned, h.ascending⟩

theorem change {r' : Registry η} (h : r.Consistent) (hchange : r.Change r') : r'.Consistent := by
  cases hchange with
  | macros hnamed =>
      cases hnamed with
      | identify => exact { h with }
      | enter name entry hfree =>
          -- the tags first, since they are free while the macro is not there
          have hown := h.own name (entry.definition.ownTags name) fun tag htag =>
            ⟨(hfree.tags tag htag).spelled, (hfree.tags tag htag).noMacro⟩
          refine hown.addMacro entry hfree.spelled ?_
          have hnot : name ∉ entry.definition.ownTags name := fun hmem =>
            (hfree.tags name hmem).other rfl
          change Entries.find? name (TagTable.addOwners name _ r.tags) = none
          rw [TagTable.find?_addOwners, if_neg hnot]
          exact hfree.noTag
      | leave name entry hentry =>
          unfold leave
          split
          · exact (h.disown name).dropMacro name
          · exact h.dropMacro name
  | legacy name definition => exact { h with }
  | own parent children hfree =>
      exact h.own parent _ fun tag htag => ⟨(hfree tag htag).spelled, (hfree tag htag).noMacro⟩
  | disown parent => exact h.disown parent

theorem after (calls : List (RegistryCall η)) : (after calls).Consistent :=
  after_induction .empty (fun _ _ h hchange => h.change hchange) calls

end Consistent

/-- Whatever has been called, the names and tags of a registry are spelled as they should be, no
name is both, and every tag has owners, who ascend. -/
theorem consistent_after (calls : List (RegistryCall η)) :
    (∀ name, (after calls).has name = true →
      MacroName name ∧ Entries.has name (after calls).tags = false) ∧
    ∀ tag parents, Entries.find? tag (after calls).tags = some parents →
      TagName tag ∧ parents ≠ [] ∧ parents.Pairwise (· < ·) := by
  have h := Consistent.after calls
  constructor
  · intro name hname
    exact ⟨h.macros name hname, h.apart name hname⟩
  · intro tag parents hfind
    refine ⟨h.tagNames tag ?_, h.owned tag parents hfind⟩
    simp [Entries.has, hfind]

end Registry

/-! ### What is found under the name of a tag -/

/-- The definition that the call puts into the legacy table under the name. -/
def RegistryCall.legacy? (name : String) : RegistryCall η → Option (Definition η)
  | addLegacy other definition => if other = name then some definition else none
  | _ => none

namespace Registry

variable {r r' : Registry η}

/-- The definition that was put into the legacy table under the name, by the last of the calls that
did so. -/
def legacyUnder (name : String) (calls : List (RegistryCall η)) : Option (Definition η) :=
  calls.foldl (fun found call => (call.legacy? name).or found) none

theorem MacroChange.legacy_eq (h : r.MacroChange r') : r'.legacy = r.legacy := by
  cases h <;> rfl

theorem MacroChanges.legacy_eq (h : r.MacroChanges r') : r'.legacy = r.legacy := by
  induction h with
  | refl => rfl
  | tail _ hchange ih => exact hchange.legacy_eq.trans ih

/-- A call leaves the legacy table alone, except that it may put a definition there. -/
theorem find?_legacy_run (call : RegistryCall η) (r : Registry η) (name : String) :
    (Entries.find? name (call.run r).legacy).map (·.definition) =
      (call.legacy? name).or ((Entries.find? name r.legacy).map (·.definition)) := by
  have hsame (hlegacy : (call.run r).legacy = r.legacy) (hnone : call.legacy? name = none) :
      (Entries.find? name (call.run r).legacy).map (·.definition) =
        (call.legacy? name).or ((Entries.find? name r.legacy).map (·.definition)) := by
    rw [hlegacy, hnone, Option.none_or]
  cases call with
  | add names definition => exact hsame (add_changes r names definition).legacy_eq rfl
  | addAlias names target => exact hsame (addAlias_changes r names target).legacy_eq rfl
  | delete names => exact hsame (delete_changes r names).legacy_eq rfl
  | addLegacy other definition =>
      by_cases heq : other = name
      · subst heq
        simp [RegistryCall.run, addLegacy, RegistryCall.legacy?]
      · have hne : name ≠ other := fun h => heq h.symm
        simp [RegistryCall.run, addLegacy, RegistryCall.legacy?, heq, Entries.find?_put_of_ne hne]
  | registerTags parent children =>
      refine hsame ?_ rfl
      rw [RegistryCall.run, registerTags]
      cases r.checkTags parent children <;> rfl
  | unregisterTags parent =>
      refine hsame ?_ rfl
      rw [RegistryCall.run, unregisterTags]
      split <;> rfl

theorem find?_legacy_after (calls : List (RegistryCall η)) (name : String) :
    (Entries.find? name (after calls).legacy).map (·.definition) = legacyUnder name calls := by
  induction calls using List.reverseRecOn with
  | nil => rfl
  | append_singleton init call ih =>
      rw [after_concat, find?_legacy_run, ih, legacyUnder, legacyUnder, List.foldl_append]
      rfl

/-- Where nothing is registered, what is found is the legacy definition, if it has a handler. -/
theorem get?_of_not_has {name : String} (h : r.has name = false) :
    r.get? name = (Entries.find? name r.legacy).filter fun entry =>
      entry.definition.handler.isSome := by
  have hnone : Entries.find? name r.macros = none := has_eq_false_iff.1 h
  simp [get?, hnone]

/-- Whatever has been called, a tag is no registered macro, and it is found exactly if the last
definition that was put into the legacy table under its name has a handler: then this is the
definition that is found. -/
theorem get?_of_tag {calls : List (RegistryCall η)} {tag : String}
    (htag : Entries.has tag (after calls).tags = true) :
    (after calls).has tag = false ∧
      ((after calls).get? tag).map (·.definition) =
        (legacyUnder tag calls).filter fun definition => definition.handler.isSome := by
  have hno : (after calls).has tag = false := by
    rw [← Bool.not_eq_true]
    intro hmacro
    have happart := (Consistent.after calls).apart tag hmacro
    simp [htag] at happart
  refine ⟨hno, ?_⟩
  rw [get?_of_not_has hno, ← find?_legacy_after, Option.filter_map]
  rfl

/-- A name becomes a tag while a legacy definition has it. -/
def legacyFirst : List (RegistryCall Unit) :=
  [.addLegacy "else" { handler := some () },
    .add ["if"] { handler := some (), tags := .children ["else"] }]

/-- A legacy definition gets the name of a tag, and then another one without a handler does. -/
def legacyLast : List (RegistryCall Unit) :=
  [.add ["if"] { handler := some (), tags := .children ["else"] },
    .addLegacy "else" { handler := some () }, .addLegacy "else" { handler := none }]

/-- Of two legacy definitions the last one counts. -/
theorem tag_hidden_by_last_legacy :
    Entries.has "else" (after legacyLast).tags = true ∧
      ((after legacyLast).get? "else").map (·.definition) = none := by
  have htag : Entries.has "else" (after legacyLast).tags = true := by decide
  have hget := (get?_of_tag htag).2
  exact ⟨htag, hget⟩

/-- A tag is found. -/
theorem tag_found_in_legacy :
    ∃ calls : List (RegistryCall Unit), Entries.has "else" (after calls).tags = true ∧
      ((after calls).get? "else").isSome = true :=
  ⟨legacyFirst, by decide, by decide⟩

end Registry

end StoryEngine
