import StoryEngine.Proofs.Containers.Ascending
import StoryEngine.Registry
/-!
# StoryEngine.Proofs.Registry.Tags

The table of tags, seen as a relation: which macros own which tag (`TagTable.owners`). What is done
to the table is said through this view, so nothing further on depends on how it is held. A table is
sound if it ascends and names the owners of a tag in ascending order, at least one of them; a sound
table is determined by who owns what (`TagTable.Sound.find?_eq_some_iff`).
-/

namespace StoryEngine.TagTable

variable {table : TagTable} {tag name parent : String}

/-- The macros that own the tag. -/
def owners (table : TagTable) (tag : String) : List String :=
  (Entries.find? tag table).getD []

/-- Make the parent an owner of several tags. -/
def addOwners (parent : String) (tags : List String) (table : TagTable) : TagTable :=
  tags.foldl (fun table tag => addOwner tag parent table) table

/-- The tag has an entry in the table, or is one of several. -/
theorem find?_addOwners (parent : String) (tags : List String) (table : TagTable) (tag : String) :
    Entries.find? tag (addOwners parent tags table) =
      if tag ∈ tags then some (Names.insert parent (table.owners tag))
      else Entries.find? tag table := by
  unfold addOwners
  induction tags generalizing table with
  | nil => simp
  | cons first rest ih =>
      rw [List.foldl_cons, ih]
      by_cases hfirst : tag = first
      · -- it does not matter whether the tag comes again
        subst hfirst
        simp [addOwner, owners, Names.insert_insert_self]
      · have hsame : Entries.find? tag (addOwner first parent table) = Entries.find? tag table :=
          Entries.find?_put_of_ne hfirst _ table
        simp [hfirst, owners, hsame]

theorem mem_owners_addOwners {tags : List String} :
    name ∈ (addOwners parent tags table).owners tag ↔
      name ∈ table.owners tag ∨ (name = parent ∧ tag ∈ tags) := by
  by_cases htag : tag ∈ tags
  · rw [owners, find?_addOwners, if_pos htag]
    simp [htag, or_comm]
  · rw [owners, find?_addOwners, if_neg htag]
    simp [htag, owners]

/-- The names in a table with an owner dropped are names of the table. -/
theorem exists_of_mem_dropOwner {entry : String × List String}
    (h : entry ∈ dropOwner parent table) :
    ∃ parents, (entry.1, parents) ∈ table ∧ entry.2 = Names.erase parent parents ∧
      entry.2 ≠ [] := by
  induction table with
  | nil => simp [dropOwner] at h
  | cons first rest ih =>
      obtain ⟨key, parents⟩ := first
      have hbehind (h : entry ∈ dropOwner parent rest) :
          ∃ parents', (entry.1, parents') ∈ (key, parents) :: rest ∧
            entry.2 = Names.erase parent parents' ∧ entry.2 ≠ [] := by
        obtain ⟨parents', hmem, hrest⟩ := ih h
        exact ⟨parents', List.mem_cons_of_mem _ hmem, hrest⟩
      rw [dropOwner] at h
      split at h
      · exact hbehind h
      · rename_i hne
        rcases List.mem_cons.1 h with rfl | h
        · exact ⟨parents, List.mem_cons_self, rfl, hne⟩
        · exact hbehind h

theorem ascending_dropOwner (parent : String) (h : Entries.Ascending table) :
    Entries.Ascending (dropOwner parent table) := by
  induction table with
  | nil => exact h
  | cons first rest ih =>
      obtain ⟨key, parents⟩ := first
      obtain ⟨hkey, hrest⟩ := List.pairwise_cons.1 h
      rw [dropOwner]
      split
      · exact ih hrest
      · refine List.pairwise_cons.2 ⟨?_, ih hrest⟩
        intro entry hentry
        obtain ⟨parents', hmem, -⟩ := exists_of_mem_dropOwner hentry
        exact hkey (entry.1, parents') hmem

/-- What is left of an entry when an owner is dropped, if anything is. -/
theorem find?_dropOwner (h : Entries.Ascending table) (parent tag : String) :
    Entries.find? tag (dropOwner parent table) =
      ((Entries.find? tag table).map (Names.erase parent)).filter (!·.isEmpty) := by
  induction table with
  | nil => rfl
  | cons first rest ih =>
      obtain ⟨key, parents⟩ := first
      have hrest := ih (List.pairwise_cons.1 h).2
      by_cases hkey : tag = key
      · subst hkey
        -- no further entry of the tag comes to light when this one is dropped
        have hnone : Entries.find? tag rest = none := Entries.find?_behind h
        rw [hnone] at hrest
        rw [dropOwner]
        split
        · rename_i hempty
          simp [hrest, hempty, Entries.find?, Option.filter]
        · rename_i hne
          simpa [Entries.find?, Option.filter] using hne
      · rw [dropOwner]
        split
        · simp [hrest, Entries.find?, hkey]
        · simp [hrest, Entries.find?, hkey]

theorem mem_owners_dropOwner (h : Entries.Ascending table) :
    name ∈ (dropOwner parent table).owners tag ↔ name ∈ table.owners tag ∧ name ≠ parent := by
  rw [owners, find?_dropOwner h, owners]
  cases Entries.find? tag table with
  | none => simp
  | some parents =>
      have hmem : name ∈ parents ∧ name ≠ parent ↔ name ∈ Names.erase parent parents :=
        Names.mem_erase.symm
      rw [Option.map_some, Option.getD_some, hmem]
      cases Names.erase parent parents with
      | nil => simp [Option.filter]
      | cons first rest => simp [Option.filter]

/-- The tags ascend, and so do the owners of each, of whom there is at least one. -/
structure Sound (table : TagTable) : Prop where
  ascending : Entries.Ascending table
  owned : ∀ tag parents, Entries.find? tag table = some parents →
    parents ≠ [] ∧ parents.Pairwise (· < ·)

namespace Sound

theorem empty : Sound [] :=
  ⟨Entries.ascending_nil, nofun⟩

theorem pairwise_owners (h : table.Sound) (tag : String) :
    (table.owners tag).Pairwise (· < ·) := by
  unfold owners
  cases hfind : Entries.find? tag table with
  | none => exact List.Pairwise.nil
  | some parents => exact (h.owned tag parents hfind).2

theorem addOwners (h : table.Sound) (parent : String) (tags : List String) :
    (addOwners parent tags table).Sound := by
  constructor
  case ascending =>
    unfold TagTable.addOwners
    have hascending := h.ascending
    clear h
    induction tags generalizing table with
    | nil => exact hascending
    | cons first rest ih => exact ih (Entries.ascending_put first _ hascending)
  case owned =>
    intro tag parents hfind
    rw [find?_addOwners] at hfind
    split at hfind
    · cases hfind
      exact ⟨Names.insert_ne_nil _ _, Names.pairwise_insert parent (h.pairwise_owners tag)⟩
    · exact h.owned tag parents hfind

theorem dropOwner (h : table.Sound) (parent : String) : (dropOwner parent table).Sound := by
  constructor
  case ascending => exact ascending_dropOwner parent h.ascending
  case owned =>
    intro tag parents hfind
    obtain ⟨all, hmem, rfl, hne⟩ := exists_of_mem_dropOwner (Entries.mem_of_find? hfind)
    have hall := (Entries.find?_eq_some_iff h.ascending).2 hmem
    exact ⟨hne, Names.pairwise_erase parent (h.owned tag all hall).2⟩

/-- The entry of a tag says who owns it, if anybody does. -/
theorem find?_eq_some_iff (h : table.Sound) {parents : List String} :
    Entries.find? tag table = some parents ↔
      parents ≠ [] ∧ parents.Pairwise (· < ·) ∧
        ∀ name, name ∈ parents ↔ name ∈ table.owners tag := by
  constructor
  · intro hfind
    obtain ⟨hne, hpairwise⟩ := h.owned tag parents hfind
    refine ⟨hne, hpairwise, fun name => ?_⟩
    rw [owners, hfind, Option.getD_some]
  · rintro ⟨hne, hpairwise, hmem⟩
    obtain rfl := Names.eq_of_mem_iff hpairwise (h.pairwise_owners tag) hmem
    cases hfind : Entries.find? tag table with
    | none => simp [owners, hfind] at hne
    | some parents => simp [owners, hfind]

theorem has_iff (h : table.Sound) :
    Entries.has tag table = true ↔ ∃ name, name ∈ table.owners tag := by
  unfold Entries.has owners
  cases hfind : Entries.find? tag table with
  | none => simp
  | some parents => simpa using List.exists_mem_of_ne_nil _ (h.owned tag parents hfind).1

/-- Sound tables in which the same macros own the same tags are the same. -/
theorem eq_of_owners {other : TagTable} (h : table.Sound) (hother : other.Sound)
    (howners : ∀ tag name, name ∈ table.owners tag ↔ name ∈ other.owners tag) : table = other := by
  refine Entries.eq_of_find?_eq h.ascending hother.ascending fun tag => ?_
  ext parents
  rw [h.find?_eq_some_iff, hother.find?_eq_some_iff]
  simp only [howners]

end Sound

end StoryEngine.TagTable
