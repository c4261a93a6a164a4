/-!
# StoryEngine.Entries

Named entries in ascending order of their names, each name at most once. Variable stores,
overlays and the members of object values are held this way, so two stores with the same
contents are the same list.
-/

namespace StoryEngine

/-- Entries in ascending order of their names. -/
abbrev Entries (α : Type u) := List (String × α)

namespace Entries

variable {α : Type u}

/-- The entry with the name. -/
def find? (name : String) : Entries α → Option α
  | [] => none
  | (key, value) :: rest => if name = key then some value else find? name rest

/-- The entries with the named one set, in its place in the order. -/
def put (name : String) (value : α) : Entries α → Entries α
  | [] => [(name, value)]
  | (key, old) :: rest =>
    if name = key then (name, value) :: rest
    else if name < key then (name, value) :: (key, old) :: rest
    else (key, old) :: put name value rest

/-- The entries without the named one. -/
def remove (name : String) : Entries α → Entries α
  | [] => []
  | (key, value) :: rest =>
    if name = key then remove name rest else (key, value) :: remove name rest

/-- There is an entry with the name. -/
def has (name : String) (entries : Entries α) : Bool :=
  (find? name entries).isSome

/-- The entries of a list of pairs, of which a later one with the same name wins. -/
def ofPairs (pairs : List (String × α)) : Entries α :=
  pairs.foldl (fun entries (name, value) => put name value entries) []

theorem mem_of_find? {name : String} {value : α} {entries : Entries α}
    (h : find? name entries = some value) : (name, value) ∈ entries := by
  induction entries with
  | nil => simp [find?] at h
  | cons entry rest ih =>
    obtain ⟨key, old⟩ := entry
    simp only [find?] at h
    split at h
    · rename_i hk
      cases h
      subst hk
      exact List.mem_cons_self
    · exact List.mem_cons_of_mem _ (ih h)

@[simp]
theorem find?_put_self (name : String) (value : α) (entries : Entries α) :
    find? name (put name value entries) = some value := by
  induction entries with
  | nil => simp [put, find?]
  | cons entry rest ih =>
    obtain ⟨key, old⟩ := entry
    simp only [put]
    split
    · simp [find?]
    · split
      · simp [find?]
      · rename_i h _
        simp [find?, h, ih]

theorem find?_put_of_ne {name other : String} (h : other ≠ name) (value : α)
    (entries : Entries α) : find? other (put name value entries) = find? other entries := by
  induction entries with
  | nil => simp [put, find?, h]
  | cons entry rest ih =>
    obtain ⟨key, old⟩ := entry
    simp only [put]
    split
    · rename_i hk
      subst hk
      simp [find?, h]
    · split
      · simp [find?, h]
      · simp [find?, ih]

@[simp]
theorem find?_remove_self (name : String) (entries : Entries α) :
    find? name (remove name entries) = none := by
  induction entries with
  | nil => rfl
  | cons entry rest ih =>
    obtain ⟨key, old⟩ := entry
    simp only [remove]
    split
    · exact ih
    · rename_i h
      simp [find?, h, ih]

theorem find?_remove_of_ne {name other : String} (h : other ≠ name) (entries : Entries α) :
    find? other (remove name entries) = find? other entries := by
  induction entries with
  | nil => rfl
  | cons entry rest ih =>
    obtain ⟨key, old⟩ := entry
    simp only [remove]
    split
    · rename_i hk
      subst hk
      simp [find?, h, ih]
    · simp [find?, ih]

@[simp]
theorem has_put_self (name : String) (value : α) (entries : Entries α) :
    has name (put name value entries) = true := by
  simp [has]

theorem has_put_of_ne {name other : String} (h : other ≠ name) (value : α) (entries : Entries α) :
    has other (put name value entries) = has other entries := by
  simp [has, find?_put_of_ne h]

/-- What is found among pairs: a later one of the name wins. -/
theorem find?_ofPairs (name : String) (pairs : List (String × α)) :
    find? name (ofPairs pairs) = pairs.reverse.lookup name := by
  -- the pairs that have been put so far are in the accumulator
  suffices h : ∀ entries : Entries α,
      find? name (pairs.foldl (fun entries (key, value) => put key value entries) entries) =
        (pairs.reverse.lookup name).or (find? name entries) by
    rw [ofPairs, h []]
    exact Option.or_none
  induction pairs with
  | nil => exact fun entries => rfl
  | cons pair pairs ih =>
    obtain ⟨key, value⟩ := pair
    intro entries
    rw [List.foldl_cons, ih, List.reverse_cons, List.lookup_append, Option.or_assoc]
    by_cases hname : name = key
    · subst hname
      rw [find?_put_self, List.lookup_cons_self, Option.some_or]
    · rw [find?_put_of_ne hname, List.lookup_cons, beq_false_of_ne hname]
      rfl

/-- What is found among pairs made from names. -/
theorem find?_ofPairs_map (f : String → α) (names : List String) (name : String) :
    find? name (ofPairs (names.map fun other => (other, f other))) =
      if name ∈ names then some (f name) else none := by
  -- the pairs that have been put so far are in the accumulator
  suffices h : ∀ entries : Entries α,
      find? name ((names.map fun other => (other, f other)).foldl
        (fun entries (key, value) => put key value entries) entries) =
      if name ∈ names then some (f name) else find? name entries by
    exact h []
  induction names with
  | nil => simp
  | cons first rest ih =>
    intro entries
    rw [List.map_cons, List.foldl_cons, ih]
    by_cases hrest : name ∈ rest
    · simp [hrest]
    · by_cases hfirst : name = first
      · subst hfirst
        simp [hrest]
      · simp [hrest, hfirst, find?_put_of_ne hfirst]

end Entries

end StoryEngine
