import Mathlib.Data.List.Sort
import StoryEngine.Entries
import StoryEngine.Names
/-!
# StoryEngine.Proofs.Containers.Ascending

The order in which names and entries are kept. Sets of names and named entries ascend, each name
once, and every operation keeps them so. What ascends is determined by its members
(`Names.eq_of_mem_iff`), and an entry is found exactly if it is there (`Entries.find?_eq_some_iff`).
-/

namespace StoryEngine

namespace Names

variable {names : List String}

theorem pairwise_insert (name : String) (h : names.Pairwise (· < ·)) :
    (insert name names).Pairwise (· < ·) := by
  induction names with
  | nil => simp [insert]
  | cons other rest ih =>
      obtain ⟨hother, hrest⟩ := List.pairwise_cons.1 h
      simp only [insert]
      split
      · exact h
      · rename_i hne
        split
        · rename_i hlt
          refine List.pairwise_cons.2 ⟨?_, h⟩
          intro a ha
          rcases List.mem_cons.1 ha with rfl | ha
          · exact hlt
          · exact String.lt_trans hlt (hother a ha)
        · rename_i hnlt
          refine List.pairwise_cons.2 ⟨?_, ih hrest⟩
          intro a ha
          rcases mem_insert.1 ha with rfl | ha
          · exact Std.lt_of_le_of_ne hnlt (Ne.symm hne)
          · exact hother a ha

theorem pairwise_erase (name : String) (h : names.Pairwise (· < ·)) :
    (erase name names).Pairwise (· < ·) :=
  h.sublist List.filter_sublist

theorem insert_ne_nil (name : String) (names : List String) : insert name names ≠ [] := by
  intro h
  have : name ∈ insert name names := by simp
  simp [h] at this

/-- A name that is there already changes nothing. -/
theorem insert_insert_self (name : String) (names : List String) :
    insert name (insert name names) = insert name names := by
  induction names with
  | nil => simp [insert]
  | cons other rest ih =>
      simp only [insert]
      split
      · rename_i heq
        simp [insert, heq]
      · rename_i hne
        split
        · simp [insert]
        · rename_i hnlt
          simp [insert, hne, hnlt, ih]

/-- Names in ascending order are determined by which they are. -/
theorem eq_of_mem_iff {others : List String} (h : names.Pairwise (· < ·))
    (hothers : others.Pairwise (· < ·)) (hmem : ∀ name, name ∈ names ↔ name ∈ others) :
    names = others :=
  h.eq_of_mem_iff hothers hmem

end Names

namespace Entries

variable {α : Type u} {entries : Entries α}

/-- The names ascend, each of them once. -/
def Ascending (entries : Entries α) : Prop :=
  entries.Pairwise fun a b => a.1 < b.1

theorem ascending_nil : Ascending ([] : Entries α) :=
  List.Pairwise.nil

/-- The names among the entries with one set. -/
theorem name_of_mem_put {name key : String} {value old : α}
    (h : (key, old) ∈ put name value entries) : key = name ∨ (key, old) ∈ entries := by
  induction entries with
  | nil =>
      simp only [put, List.mem_singleton, Prod.mk.injEq] at h
      exact .inl h.1
  | cons entry rest ih =>
      obtain ⟨first, own⟩ := entry
      simp only [put] at h
      split at h
      · rcases List.mem_cons.1 h with heq | h
        · exact .inl (Prod.mk.inj heq).1
        · exact .inr (List.mem_cons_of_mem _ h)
      · split at h
        · rcases List.mem_cons.1 h with heq | h
          · exact .inl (Prod.mk.inj heq).1
          · exact .inr h
        · rcases List.mem_cons.1 h with heq | h
          · exact .inr (heq ▸ List.mem_cons_self)
          · exact (ih h).imp_right (List.mem_cons_of_mem _)

theorem ascending_put (name : String) (value : α) (h : Ascending entries) :
    Ascending (put name value entries) := by
  induction entries with
  | nil => simp [put, Ascending]
  | cons entry rest ih =>
      obtain ⟨key, old⟩ := entry
      obtain ⟨hkey, hrest⟩ := List.pairwise_cons.1 h
      simp only [put]
      split
      · rename_i heq
        subst heq
        exact List.pairwise_cons.2 ⟨hkey, hrest⟩
      · rename_i hne
        split
        · rename_i hlt
          refine List.pairwise_cons.2 ⟨?_, h⟩
          intro a ha
          rcases List.mem_cons.1 ha with rfl | ha
          · exact hlt
          · exact String.lt_trans hlt (hkey a ha)
        · rename_i hnlt
          refine List.pairwise_cons.2 ⟨?_, ih hrest⟩
          rintro ⟨other, own⟩ ha
          rcases name_of_mem_put ha with rfl | ha
          · exact Std.lt_of_le_of_ne hnlt (Ne.symm hne)
          · exact hkey (other, own) ha

/-- An entry is found exactly if it is there. -/
theorem find?_eq_some_iff (h : Ascending entries) {name : String} {value : α} :
    find? name entries = some value ↔ (name, value) ∈ entries := by
  refine ⟨mem_of_find?, fun hmem => ?_⟩
  induction entries with
  | nil => simp at hmem
  | cons entry rest ih =>
      obtain ⟨key, old⟩ := entry
      obtain ⟨hkey, hrest⟩ := List.pairwise_cons.1 h
      rcases List.mem_cons.1 hmem with heq | hbehind
      · cases heq
        simp [find?]
      · -- the entries behind the first one have other names
        have hne : name ≠ key := by
          rintro rfl
          exact String.lt_irrefl name (hkey (name, value) hbehind)
        simp [find?, hne, ih hrest hbehind]

/-- No entry has the name of one before it. -/
theorem find?_behind {name : String} {value : α} (h : Ascending ((name, value) :: entries)) :
    find? name entries = none := by
  obtain ⟨hname, hrest⟩ := List.pairwise_cons.1 h
  cases hfind : find? name entries with
  | none => rfl
  | some other => exact absurd (hname _ (mem_of_find? hfind)) (String.lt_irrefl name)

/-- Entries in ascending order are determined by what is found under each name. -/
theorem eq_of_find?_eq {others : Entries α} (h : Ascending entries) (hothers : Ascending others)
    (hfind : ∀ name, find? name entries = find? name others) : entries = others := by
  have : Std.Irrefl fun a b : String × α => a.1 < b.1 := ⟨fun a => String.lt_irrefl a.1⟩
  have : Std.Antisymm fun a b : String × α => a.1 < b.1 :=
    ⟨fun a b hab hba => absurd hba (String.lt_asymm hab)⟩
  refine List.Pairwise.eq_of_mem_iff h hothers ?_
  rintro ⟨name, value⟩
  rw [← find?_eq_some_iff h, ← find?_eq_some_iff hothers, hfind]

theorem has_eq_false_iff {name : String} :
    has name entries = false ↔ find? name entries = none := by
  simp [has]

end Entries

end StoryEngine
