import StoryEngine.Proofs.Registry.Consistent
/-!
# StoryEngine.Proofs.Registry.Deletion

What deleting macros does to the tags. A macro that has a body gives up its share in every tag,
whether it was registered with the tag or was given it later. A macro without a body keeps the tags
that it was given: they go on being owned by a name that is no macro any more, and no macro can have
their names (`Registry.deleted_macro_keeps_tags`). Otherwise deleting is exact
(`Registry.delete_exact`).
-/

namespace StoryEngine

variable {η : Type}

namespace Registry

variable {r r' : Registry η} {entry : MacroEntry η} {names : List String}
  {name other owner tag : String}

/-- The name is registered, and its macro has a body. -/
def hasContainer (r : Registry η) (name : String) : Bool :=
  (Entries.find? name r.macros).any (·.definition.isContainer)

/-- Deleting the names takes all its tags from the owner. -/
def sheds (r : Registry η) (names : List String) (owner : String) : Bool :=
  names.contains owner && r.hasContainer owner

theorem sheds_eq_true_iff :
    r.sheds names owner = true ↔ owner ∈ names ∧ r.hasContainer owner = true := by
  simp [sheds]

/-! ### One name -/

theorem hasContainer_leave :
    (r.leave other entry).hasContainer name = true ↔ name ≠ other ∧ r.hasContainer name = true := by
  by_cases hname : name = other
  · subst hname
    simp [hasContainer, leave]
  · simp [hasContainer, leave, hname, Entries.find?_remove_of_ne hname]

theorem sound_leave (h : r.tags.Sound) : (r.leave name entry).tags.Sound := by
  rw [leave]
  split
  · exact h.dropOwner name
  · exact h

theorem mem_owners_leave (h : r.tags.Sound) (hentry : Entries.find? name r.macros = some entry) :
    owner ∈ (r.leave name entry).tags.owners tag ↔
      owner ∈ r.tags.owners tag ∧ ¬ (owner = name ∧ r.hasContainer owner = true) := by
  have hbody : r.hasContainer name = entry.definition.isContainer := by
    simp [hasContainer, hentry]
  rw [leave]
  split
  · rename_i hcontainer
    rw [TagTable.mem_owners_dropOwner h.ascending]
    refine and_congr_right fun _ => not_congr ⟨?_, And.left⟩
    rintro rfl
    exact ⟨rfl, hbody.trans hcontainer⟩
  · rename_i hcontainer
    refine (and_iff_left ?_).symm
    rintro ⟨rfl, howner⟩
    exact hcontainer (hbody.symm.trans howner)

/-- A deletion that succeeds takes away the first name, or passes it over since it is nothing. -/
theorem delete_cons (h : r.delete (name :: names) = (none, r')) :
    (∃ entry, Entries.find? name r.macros = some entry ∧
      (r.leave name entry).delete names = (none, r')) ∨
    (Entries.find? name r.macros = none ∧ r.delete names = (none, r')) := by
  rw [delete] at h
  split at h
  · rename_i entry hentry
    exact .inl ⟨entry, hentry, h⟩
  · rename_i hnone
    split at h
    · cases h
    · exact .inr ⟨hnone, h⟩

/-- A single name is registered if it is free for the definition. -/
theorem add_singleton_eq_none_iff {definition : Definition η} :
    (r.add [name] definition).1 = none ↔ r.FreeName name definition := by
  -- that an identity has been given is not seen by the checks
  have hsame : { r with nextIdentity := r.nextIdentity + 1 }.FreeName name definition ↔
      r.FreeName name definition :=
    ⟨fun h => ⟨h.spelled, h.noMacro, h.noTag, fun tag htag => { h.tags tag htag with }⟩,
      fun h => ⟨h.spelled, h.noMacro, h.noTag, fun tag htag => { h.tags tag htag with }⟩⟩
  rw [← hsame, ← checkName_eq_ok_iff, add, addEntries, addEntry_eq]
  cases Registry.checkName { r with nextIdentity := r.nextIdentity + 1 } name definition with
  | error e => simp [Except.map]
  | ok u => simp [Except.map, addEntries]

/-! ### Several names -/

/-- The names are no macros any more, and those of them that were macros with a body own no tag.
Nothing else is changed. -/
structure Deletes (r : Registry η) (names : List String) (r' : Registry η) : Prop where
  found : ∀ name,
    Entries.find? name r'.macros = if name ∈ names then none else Entries.find? name r.macros
  owners : ∀ tag owner, owner ∈ r'.tags.owners tag ↔
    owner ∈ r.tags.owners tag ∧ ¬ (owner ∈ names ∧ r.hasContainer owner = true)
  legacy : r'.legacy = r.legacy
  nextIdentity : r'.nextIdentity = r.nextIdentity

namespace Deletes

theorem refl (r : Registry η) : r.Deletes [] r :=
  ⟨by simp, by simp, rfl, rfl⟩

theorem leave (hsound : r.tags.Sound) (hentry : Entries.find? name r.macros = some entry)
    (h : (r.leave name entry).Deletes names r') : r.Deletes (name :: names) r' := by
  constructor
  case found =>
    intro other
    rw [h.found other, Registry.leave]
    by_cases hother : other = name
    · subst hother
      simp
    · simp [hother, Entries.find?_remove_of_ne hother]
  case owners =>
    intro tag owner
    rw [h.owners tag owner, mem_owners_leave hsound hentry, hasContainer_leave, List.mem_cons]
    by_cases howner : owner = name
    · simp [howner]
    · simp [howner]
  case legacy => exact h.legacy
  case nextIdentity => exact h.nextIdentity

theorem pass (hnone : Entries.find? name r.macros = none) (h : r.Deletes names r') :
    r.Deletes (name :: names) r' := by
  constructor
  case found =>
    intro other
    rw [h.found other]
    by_cases hother : other = name
    · simp [hother, hnone]
    · simp [hother]
  case owners =>
    intro tag owner
    rw [h.owners tag owner, List.mem_cons]
    by_cases howner : owner = name
    · simp [howner, hasContainer, hnone]
    · simp [howner]
  case legacy => exact h.legacy
  case nextIdentity => exact h.nextIdentity

end Deletes

theorem deletes_of_delete (hsound : r.tags.Sound) (h : r.delete names = (none, r')) :
    r.Deletes names r' := by
  induction names generalizing r with
  | nil =>
      cases h
      exact .refl _
  | cons name rest ih =>
      obtain ⟨entry, hentry, hrest⟩ | ⟨hnone, hrest⟩ := delete_cons h
      · exact (ih (sound_leave hsound) hrest).leave hsound hentry
      · exact (ih hsound hrest).pass hnone

/-- The entry of a tag behind a deletion: its owners without those that have lost it. -/
theorem Deletes.find?_tags (h : r.Deletes names r') (hsound : r.tags.Sound)
    (hsound' : r'.tags.Sound) {parents : List String} :
    Entries.find? tag r'.tags = some parents ↔
      parents ≠ [] ∧ parents = (r.tags.owners tag).filter fun owner => !r.sheds names owner := by
  have hmem (owner : String) : owner ∈ r'.tags.owners tag ↔
      owner ∈ (r.tags.owners tag).filter fun owner => !r.sheds names owner := by
    rw [h.owners tag owner, ← sheds_eq_true_iff, List.mem_filter]
    simp
  have howners := Names.eq_of_mem_iff (hsound'.pairwise_owners tag)
    ((hsound.pairwise_owners tag).filter _) hmem
  rw [hsound'.find?_eq_some_iff, ← howners]
  refine and_congr_right fun _ => ⟨?_, ?_⟩
  · rintro ⟨hpairwise, hparents⟩
    exact Names.eq_of_mem_iff hpairwise (hsound'.pairwise_owners tag) hparents
  · rintro rfl
    exact ⟨hsound'.pairwise_owners tag, fun _ => Iff.rfl⟩

/-- A tag that has lost all its owners is free for a macro with tags that are free. -/
theorem Deletes.add_eq_none_iff (h : r.Deletes names r') (hr : r.Consistent) (hr' : r'.Consistent)
    {definition : Definition η} (htag : Entries.has tag r.tags = true)
    (hname : isMacroName tag = true)
    (hlost : ∀ owner ∈ r.tags.owners tag, r.sheds names owner = true) :
    (r'.add [tag] definition).1 = none ↔ ∀ own ∈ definition.ownTags tag, r'.FreeTag tag own := by
  have hnoMacro : r'.has tag = false := by
    have hbefore : r.has tag = false := by
      rw [← Bool.not_eq_true]
      intro hmacro
      simp [hr.apart tag hmacro] at htag
    rw [has_eq_false_iff] at hbefore ⊢
    rw [h.found tag, hbefore, ite_self]
  have hnoTag : Entries.find? tag r'.tags = none := by
    rw [← Entries.has_eq_false_iff, ← Bool.not_eq_true, hr'.tags.has_iff]
    rintro ⟨owner, howner⟩
    obtain ⟨hold, hkept⟩ := (h.owners tag owner).1 howner
    exact hkept (sheds_eq_true_iff.1 (hlost owner hold))
  rw [add_singleton_eq_none_iff]
  exact ⟨fun hfree => hfree.tags, fun htags => ⟨hname, hnoMacro, hnoTag, htags⟩⟩

/-- Deleting that succeeds leaves none of the names registered and nothing else changed, except that
an owner which was among the names and had a body owns no tag any more. So the names that were macros
own no tag if and only if each of them that owned one had a body. A tag all of whose owners have lost
it is no tag any more, and its name can be registered again. -/
theorem delete_exact {calls : List (RegistryCall η)} {names : List String} {r' : Registry η}
    (h : (after calls).delete names = (none, r')) :
    (∀ name, Entries.find? name r'.macros =
      if name ∈ names then none else Entries.find? name (after calls).macros) ∧
    (∀ tag parents, Entries.find? tag r'.tags = some parents ↔
      parents ≠ [] ∧ parents =
        ((after calls).tags.owners tag).filter fun owner => !(after calls).sheds names owner) ∧
    r'.legacy = (after calls).legacy ∧ r'.nextIdentity = (after calls).nextIdentity ∧
    ((∀ name ∈ names, (after calls).has name = true → ∀ tag, name ∉ r'.tags.owners tag) ↔
      ∀ name ∈ names, (after calls).has name = true →
        (∃ tag, name ∈ (after calls).tags.owners tag) →
          (after calls).hasContainer name = true) ∧
    ∀ tag definition, Entries.has tag (after calls).tags = true → isMacroName tag = true →
      (∀ owner ∈ (after calls).tags.owners tag, (after calls).sheds names owner = true) →
        ((r'.add [tag] definition).1 = none ↔
          ∀ own ∈ definition.ownTags tag, r'.FreeTag tag own) := by
  have hbefore := Consistent.after calls
  have hafter : r'.Consistent := by
    have hcall : after (calls ++ [.delete names]) = r' := by
      rw [after_concat, RegistryCall.run, h]
    exact hcall ▸ Consistent.after (calls ++ [.delete names])
  have hdeletes := deletes_of_delete hbefore.tags h
  refine ⟨hdeletes.found, fun tag parents => hdeletes.find?_tags hbefore.tags hafter.tags,
    hdeletes.legacy, hdeletes.nextIdentity, ⟨?_, ?_⟩, fun tag definition htag hname hlost =>
      hdeletes.add_eq_none_iff hbefore hafter htag hname hlost⟩
  · rintro hgone name hname hmacro ⟨tag, howns⟩
    by_contra hbody
    exact hgone name hname hmacro tag
      ((hdeletes.owners tag name).2 ⟨howns, fun hsheds => hbody hsheds.2⟩)
  · intro hbody name hname hmacro tag howns
    obtain ⟨hbefore, hkept⟩ := (hdeletes.owners tag name).1 howns
    exact hkept ⟨hname, hbody name hname hmacro ⟨tag, hbefore⟩⟩

/-- Macros that share child tags, one of which was given another tag later. -/
def shelf : List (RegistryCall Unit) :=
  [.add ["if", "case"] { handler := some (), tags := .children ["else"] },
    .registerTags "case" ["default"]]

/-- One of them is deleted: it has lost the tag that they share and the tag that it was given, whose
name can be registered now. -/
theorem deleted_case_frees_default :
    ((after shelf).delete ["case"]).1 = none ∧
      Entries.find? "else" ((after shelf).delete ["case"]).2.tags = some ["if"] ∧
      (((after shelf).delete ["case"]).2.add ["default"] { handler := some () }).1 = none := by
  obtain ⟨-, htags, -, -, -, hfree⟩ := @delete_exact Unit shelf ["case"] _ rfl
  refine ⟨rfl, (htags "else" ["if"]).2 (by decide), ?_⟩
  refine (hfree "default" { handler := some () } (by decide) (by decide) (by decide)).2 ?_
  simp [Definition.ownTags, Definition.isContainer]

/-- A macro without a body that was given a tag. -/
def marked : List (RegistryCall Unit) :=
  [.add ["greet"] { handler := some () }, .registerTags "greet" ["aside"]]

/-- When it is deleted it goes on owning the tag, whose name cannot be registered. -/
theorem deleted_macro_keeps_tags :
    (after marked).has "greet" = true ∧ ((after marked).delete ["greet"]).1 = none ∧
      ((after marked).delete ["greet"]).2.has "greet" = false ∧
      ((after marked).delete ["greet"]).2.tags.owners "aside" = ["greet"] ∧
      (((after marked).delete ["greet"]).2.add ["aside"] { handler := some () }).1 =
        some (.tagExists "aside" ["greet"]) := by
  decide

end Registry

end StoryEngine
