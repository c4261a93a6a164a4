import StoryEngine.Proofs.Registry.History
/-!
# StoryEngine.Proofs.Registry.Atomic

Registering several names at once. The names are taken in order, and the first that is refused ends
it. A name that is refused has left nothing behind, neither a macro nor a tag, and the names behind
it have not been looked at; so what a failed call leaves is what it would have left with the names
before the refused one alone (`Registry.add_atomic`). That a name cannot fail halfway, between its
macro and its tags, is `Registry.registerTags_of_checkName`.
-/

namespace StoryEngine

variable {η : Type}

/-- What names are registered as. -/
inductive MacroDef (η : Type) where
  /-- Macros with a definition of their own. -/
  | direct (definition : Definition η)
  /-- Aliases of a registered name. -/
  | aliasOf (target : String)

namespace Registry

variable {r r' : Registry η} {entry : MacroEntry η} {names : List String} {e : RegistryError}

/-- Register names, up to the first that is refused. -/
def addAs (r : Registry η) (names : List String) : MacroDef η → Option RegistryError × Registry η
  | .direct definition => r.add names definition
  | .aliasOf target => r.addAlias names target

/-- The entry that the names get. There is none for aliases of a name that is not registered. -/
def entryFor? (r : Registry η) : MacroDef η → Option (MacroEntry η)
  | .direct definition => some ⟨definition, r.nextIdentity, none⟩
  | .aliasOf target =>
    (Entries.find? target r.macros).map fun entry => { entry with aliasOf := some target }

/-- Once the checks of a name have passed, its tags cannot be refused any more, although they are
checked again when the macro is there. -/
theorem registerTags_of_checkName {name : String}
    (hcheck : r.checkName name entry.definition = .ok ())
    (hcontainer : entry.definition.isContainer = true) :
    { r with macros := Entries.put name entry r.macros }.registerTags name
      entry.definition.childTags = .ok (r.enter name entry) := by
  have hadd := addEntry_eq r name entry
  rw [addEntry, hcheck] at hadd
  simpa [hcontainer, Except.map] using hadd

/-! ### What the names before a refused one leave -/

/-- Names that are registered get the entry and its tags, and nothing else changes. -/
structure Registers (r : Registry η) (entry : MacroEntry η) (names : List String)
    (r' : Registry η) : Prop where
  found : ∀ name, Entries.find? name r'.macros =
    if name ∈ names then some entry else Entries.find? name r.macros
  owners : ∀ tag owner, owner ∈ r'.tags.owners tag ↔
    owner ∈ r.tags.owners tag ∨ (owner ∈ names ∧ tag ∈ entry.definition.ownTags owner)
  legacy : r'.legacy = r.legacy

theorem Registers.refl (r : Registry η) (entry : MacroEntry η) : r.Registers entry [] r :=
  ⟨by simp, by simp, rfl⟩

theorem Registers.cons {name : String} (h : (r.enter name entry).Registers entry names r') :
    r.Registers entry (name :: names) r' := by
  constructor
  case found =>
    intro other
    rw [h.found other]
    by_cases hother : other = name
    · subst hother
      simp [enter]
    · simp [enter, hother, Entries.find?_put_of_ne hother]
  case owners =>
    intro tag owner
    rw [h.owners tag owner, List.mem_cons, enter, TagTable.mem_owners_addOwners]
    constructor
    · rintro ((hold | ⟨rfl, htag⟩) | ⟨hrest, htag⟩)
      · exact .inl hold
      · exact .inr ⟨.inl rfl, htag⟩
      · exact .inr ⟨.inr hrest, htag⟩
    · rintro (hold | ⟨rfl | hrest, htag⟩)
      · exact .inl (.inl hold)
      · exact .inl (.inr ⟨rfl, htag⟩)
      · exact .inr ⟨hrest, htag⟩
  case legacy => exact h.legacy

theorem registers_of_addEntries (h : r.addEntries entry names = (none, r')) :
    r.Registers entry names r' := by
  induction names generalizing r with
  | nil =>
      cases h
      exact .refl _ entry
  | cons name rest ih =>
      rw [addEntries, addEntry_eq] at h
      cases hcheck : r.checkName name entry.definition with
      | error e => simp [hcheck, Except.map] at h
      | ok u =>
          simp only [hcheck, Except.map] at h
          exact (ih h).cons

/-- If a name is refused, the ones before it are registered as they would be without it. -/
theorem addEntries_eq_error (h : r.addEntries entry names = (some e, r')) :
    ∃ k, ∃ hk : k < names.length, r.addEntries entry (names.take k) = (none, r') ∧
      r'.checkName names[k] entry.definition = .error e := by
  induction names generalizing r with
  | nil => cases h
  | cons name rest ih =>
      rw [addEntries, addEntry_eq] at h
      cases hcheck : r.checkName name entry.definition with
      | error e' =>
          simp only [hcheck, Except.map] at h
          cases h
          exact ⟨0, by simp, rfl, hcheck⟩
      | ok u =>
          simp only [hcheck, Except.map] at h
          obtain ⟨k, hk, hbefore, hrefused⟩ := ih h
          refine ⟨k + 1, by simpa using hk, ?_, by simpa using hrefused⟩
          rw [List.take_succ_cons, addEntries, addEntry_eq, hcheck]
          exact hbefore

/-- A call that registers names goes through them with the entry that they get. -/
theorem addAs_of_entryFor? {what : MacroDef η} (h : r.entryFor? what = some entry) :
    ∃ start : Registry η, start.macros = r.macros ∧ start.tags = r.tags ∧
      start.legacy = r.legacy ∧ ∀ names, r.addAs names what = start.addEntries entry names := by
  cases what with
  | direct definition =>
      cases h
      exact ⟨{ r with nextIdentity := r.nextIdentity + 1 }, rfl, rfl, rfl, fun _ => rfl⟩
  | aliasOf target =>
      obtain ⟨old, hold, rfl⟩ := Option.map_eq_some_iff.1 h
      refine ⟨r, rfl, rfl, rfl, fun names => ?_⟩
      simp [addAs, addAlias, hold]

/-- Registering names is atomic for each of them. If it fails, then either they were to be aliases of
a name that is not registered, and nothing has happened; or one of them is refused, and the registry
is the one that comes of registering the names before it alone, which succeeds. Then those names have
got their entry and its tags, and of the others nothing is there that was not there before. That a
name is refused is decided before anything is done for it: once its checks have passed, its tags are
registered as well. -/
theorem add_atomic (r : Registry η) (names : List String) (what : MacroDef η) :
    (∀ e r', r.addAs names what = (some e, r') →
      (r.entryFor? what = none ∧ r' = r ∧
        ∃ target, what = .aliasOf target ∧ e = .missingAliasTarget target) ∨
      ∃ entry, r.entryFor? what = some entry ∧ ∃ k, ∃ hk : k < names.length,
        r.addAs (names.take k) what = (none, r') ∧
          r'.checkName names[k] entry.definition = .error e ∧
          r.Registers entry (names.take k) r') ∧
    ∀ name (entry : MacroEntry η), r.checkName name entry.definition = .ok () →
      entry.definition.isContainer = true →
        { r with macros := Entries.put name entry r.macros }.registerTags name
          entry.definition.childTags = .ok (r.enter name entry) := by
  refine ⟨fun e r' h => ?_, fun name entry => registerTags_of_checkName⟩
  cases hentry : r.entryFor? what with
  | none =>
      left
      cases what with
      | direct definition => cases hentry
      | aliasOf target =>
          have hnone : Entries.find? target r.macros = none := Option.map_eq_none_iff.1 hentry
          simp only [addAs, addAlias, hnone] at h
          cases h
          exact ⟨rfl, rfl, target, rfl, rfl⟩
  | some entry =>
      right
      obtain ⟨start, hmacros, htags, hlegacy, hall⟩ := addAs_of_entryFor? hentry
      rw [hall names] at h
      obtain ⟨k, hk, hbefore, hrefused⟩ := addEntries_eq_error h
      obtain ⟨hfound, howners, hsame⟩ := registers_of_addEntries hbefore
      rw [hmacros] at hfound
      rw [htags] at howners
      rw [hlegacy] at hsame
      exact ⟨entry, rfl, k, hk, (hall _).trans hbefore, hrefused, hfound, howners, hsame⟩

/-- A definition with a child tag. -/
def branches : Definition Unit :=
  { handler := some (), tags := .children ["else"] }

/-- A registry with one macro of the definition. -/
def branching : Registry Unit :=
  after [.add ["if"] branches]

/-- Of three names the second is the tag that they all bring: the first comes to share the tag, the
third is not there. -/
theorem add_stops_at_tag :
    ∃ r', branching.addAs ["case", "else", "of"] (.direct branches) =
        (some (.tagExists "else" ["case", "if"]), r') ∧
      r'.has "case" = true ∧ "case" ∈ r'.tags.owners "else" ∧
      r'.has "of" = false ∧ ∀ tag, "of" ∉ r'.tags.owners tag := by
  let r' := (branching.addAs ["case", "else", "of"] (.direct branches)).2
  have hcall : branching.addAs ["case", "else", "of"] (.direct branches) =
      (some (.tagExists "else" ["case", "if"]), r') := rfl
  refine ⟨r', hcall, ?_⟩
  obtain ⟨hnone, -⟩ | ⟨entry, hentry, k, hk, hbefore, hrefused, hfound, howners, -⟩ :=
    (add_atomic branching _ _).1 _ _ hcall
  · cases hnone
  · cases hentry
    have hone : k = 1 := by
      rcases k with _ | _ | _ | k
      · have hcase := congrArg (fun result => result.2.has "case") hbefore
        revert hcase
        decide
      · rfl
      · have hfails := congrArg (fun result => result.1) hbefore
        revert hfails
        decide
      · simp only [List.length_cons, List.length_nil] at hk
        omega
    subst hone
    have hof : Entries.find? "of" branching.macros = none := by decide
    have hnever (tag : String) : "of" ∉ branching.tags.owners tag := by
      have htags : branching.tags = TagTable.addOwners "if" (branches.ownTags "if") [] := rfl
      rw [htags, TagTable.mem_owners_addOwners]
      simp [TagTable.owners, Entries.find?]
    refine ⟨?_, ?_, ?_, fun tag hmem => ?_⟩
    · simp [has, Entries.has, hfound "case"]
    · rw [howners]
      exact .inr ⟨by simp, by decide⟩
    · simp [has, Entries.has, hfound "of", hof]
    · rcases (howners tag "of").1 hmem with hold | ⟨hnew, -⟩
      · exact hnever tag hold
      · simp at hnew

end Registry

end StoryEngine
