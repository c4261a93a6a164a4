/-!
# StoryEngine.Names

Sets of names as ascending lists, each name once.
-/

namespace StoryEngine

namespace Names

/-- The names with one more, in its place in the order. -/
def insert (name : String) : List String → List String
  | [] => [name]
  | other :: rest =>
    if name = other then other :: rest
    else if name < other then name :: other :: rest
    else other :: insert name rest

/-- The names with others added. -/
def insertAll (names others : List String) : List String :=
  others.foldl (fun names name => insert name names) names

/-- The names without one. -/
def erase (name : String) (names : List String) : List String :=
  names.filter (· ≠ name)

@[simp]
theorem mem_insert {name other : String} {names : List String} :
    other ∈ insert name names ↔ other = name ∨ other ∈ names := by
  induction names with
  | nil => simp [insert]
  | cons first rest ih =>
    simp only [insert]
    split
    · rename_i h
      subst h
      simp
    · split
      · simp
      · simp only [List.mem_cons, ih]
        constructor
        · rintro (h | h | h)
          · exact .inr (.inl h)
          · exact .inl h
          · exact .inr (.inr h)
        · rintro (h | h | h)
          · exact .inr (.inl h)
          · exact .inl h
          · exact .inr (.inr h)

@[simp]
theorem mem_insertAll {name : String} {names others : List String} :
    name ∈ insertAll names others ↔ name ∈ names ∨ name ∈ others := by
  unfold insertAll
  induction others generalizing names with
  | nil => simp
  | cons first rest ih =>
    rw [List.foldl_cons, ih, mem_insert, List.mem_cons]
    constructor
    · rintro ((h | h) | h)
      · exact .inr (.inl h)
      · exact .inl h
      · exact .inr (.inr h)
    · rintro (h | h | h)
      · exact .inl (.inr h)
      · exact .inl (.inl h)
      · exact .inr h

@[simp]
theorem mem_erase {name other : String} {names : List String} :
    other ∈ erase name names ↔ other ∈ names ∧ other ≠ name := by
  simp [erase]

end Names

end StoryEngine
