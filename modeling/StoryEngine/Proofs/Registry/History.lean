import Mathlib.Logic.Relation
import StoryEngine.Proofs.Registry.Tags
/-!
# StoryEngine.Proofs.Registry.History

What becomes of a registry. Whatever is called, and whether it succeeds or fails on the way, the
registry changes in a few ways only: a name enters with the tags that it owns, or leaves with them
(`Registry.MacroChange`); tags are given to a parent or taken from it, or the legacy table gets an
entry (`Registry.Change`). A change says what was checked before it, so an invariant of all
registries is shown by going through the changes (`Registry.after_induction`).

A name enters completely or not at all: once its checks have passed, its tags cannot be refused
(`Registry.addEntry_eq`).
-/

namespace StoryEngine

variable {η : Type}

/-! ### What a macro owns -/

namespace Definition

/-- The tags that a macro with the definition owns under a name. -/
def ownTags (definition : Definition η) (name : String) : List String :=
  if definition.isContainer then Registry.closingTags name ++ definition.childTags else []

theorem mem_ownTags {definition : Definition η} {name tag : String} :
    tag ∈ definition.ownTags name ↔
      definition.isContainer = true ∧
        (tag = "/" ++ name ∨ tag = "end" ++ name ∨ tag ∈ definition.childTags) := by
  unfold ownTags
  split
  · rename_i hcontainer
    simp [hcontainer, Registry.closingTags]
  · rename_i hcontainer
    simp [hcontainer]

theorem ownTags_of_not_isContainer {definition : Definition η}
    (h : ¬ definition.isContainer = true) (name : String) : definition.ownTags name = [] :=
  if_neg h

end Definition

namespace Registry

variable {r : Registry η} {name parent tag : String} {children : List String}

theorem has_eq_false_iff : r.has name = false ↔ Entries.find? name r.macros = none :=
  Entries.has_eq_false_iff

/-! ### What is checked -/

/-- The parent may own the tag. -/
structure FreeTag (r : Registry η) (parent tag : String) : Prop where
  spelled : isTagName tag = true
  noMacro : r.has tag = false
  other : tag ≠ parent

theorem tagFault?_eq_none_iff {tags : List String} :
    r.tagFault? parent tags = none ↔ ∀ tag ∈ tags, r.FreeTag parent tag := by
  induction tags with
  | nil => simp [tagFault?]
  | cons first rest ih =>
      rw [List.forall_mem_cons, ← ih, tagFault?]
      constructor
      · intro h
        split at h
        · cases h
        · rename_i hspelled
          split at h
          · cases h
          · rename_i hfree
            simp only [Bool.not_eq_true, Bool.not_eq_false'] at hspelled
            simp only [Bool.or_eq_true, decide_eq_true_eq, not_or, Bool.not_eq_true] at hfree
            exact ⟨⟨hspelled, hfree.1, hfree.2⟩, h⟩
      · rintro ⟨⟨hspelled, hmacro, hother⟩, hrest⟩
        simp [hspelled, hmacro, hother, hrest]

theorem checkTags_eq_ok_iff :
    r.checkTags parent children = .ok () ↔
      parent ≠ "" ∧ ∀ tag ∈ closingTags parent ++ children, r.FreeTag parent tag := by
  rw [← tagFault?_eq_none_iff, checkTags]
  by_cases hempty : parent.isEmpty = true
  · simp [String.isEmpty_iff.1 hempty]
  · have hne : parent ≠ "" := fun h => hempty (String.isEmpty_iff.2 h)
    rw [if_neg hempty]
    cases r.tagFault? parent (closingTags parent ++ children) with
    | some e => simp
    | none => simp [hne]

/-- A macro of the definition may have the name. -/
structure FreeName (r : Registry η) (name : String) (definition : Definition η) : Prop where
  spelled : isMacroName name = true
  noMacro : r.has name = false
  noTag : Entries.find? name r.tags = none
  tags : ∀ tag ∈ definition.ownTags name, r.FreeTag name tag

theorem ne_empty_of_isMacroName (h : isMacroName name = true) : name ≠ "" := by
  rintro rfl
  simp [isMacroName] at h

theorem checkName_eq_ok_iff {definition : Definition η} :
    r.checkName name definition = .ok () ↔ r.FreeName name definition := by
  have htags : (∀ tag ∈ definition.ownTags name, r.FreeTag name tag) ↔
      (definition.isContainer = true →
        ∀ tag ∈ closingTags name ++ definition.childTags, r.FreeTag name tag) := by
    unfold Definition.ownTags
    split <;> simp_all
  constructor
  · intro h
    rw [checkName] at h
    split at h
    · cases h
    · rename_i hspelled
      split at h
      · cases h
      · rename_i hmacro
        split at h
        · cases h
        · rename_i htag
          refine ⟨by simpa using hspelled, by simpa using hmacro, htag, htags.2 ?_⟩
          intro hcontainer
          rw [if_pos hcontainer] at h
          exact (checkTags_eq_ok_iff.1 h).2
  · rintro ⟨hspelled, hmacro, htag, hown⟩
    rw [checkName, hspelled, hmacro, htag]
    by_cases hcontainer : definition.isContainer = true
    · have hcheck := checkTags_eq_ok_iff.2
        ⟨ne_empty_of_isMacroName hspelled, htags.1 hown hcontainer⟩
      simp [hcontainer, hcheck]
    · simp [hcontainer]

/-! ### A name enters or leaves -/

/-- The registry with a macro and the tags that it owns. -/
def enter (r : Registry η) (name : String) (entry : MacroEntry η) : Registry η :=
  { r with
    macros := Entries.put name entry r.macros
    tags := TagTable.addOwners name (entry.definition.ownTags name) r.tags }

/-- The registry without a macro and, if it has a body, without its share in any tags. -/
def leave (r : Registry η) (name : String) (entry : MacroEntry η) : Registry η :=
  { r with
    macros := Entries.remove name r.macros
    tags := if entry.definition.isContainer then TagTable.dropOwner name r.tags else r.tags }

/-- A name enters if its checks pass. Its tags are checked once more then, which changes nothing:
of the macros only the new one has come, and its name is none of them. -/
theorem addEntry_eq (r : Registry η) (name : String) (entry : MacroEntry η) :
    r.addEntry name entry =
      (r.checkName name entry.definition).map fun _ => r.enter name entry := by
  rw [addEntry]
  cases hcheck : r.checkName name entry.definition with
  | error e => rfl
  | ok u =>
      have hfree := checkName_eq_ok_iff.1 hcheck
      by_cases hcontainer : entry.definition.isContainer = true
      · let added : Registry η := { r with macros := Entries.put name entry r.macros }
        have hown : entry.definition.ownTags name =
            closingTags name ++ entry.definition.childTags := if_pos hcontainer
        have hagain : added.checkTags name entry.definition.childTags = .ok () := by
          refine checkTags_eq_ok_iff.2 ⟨ne_empty_of_isMacroName hfree.spelled, ?_⟩
          intro tag htag
          obtain ⟨hspelled, hmacro, hother⟩ := hfree.tags tag (hown ▸ htag)
          refine ⟨hspelled, ?_, hother⟩
          exact (Entries.has_put_of_ne hother entry r.macros).trans hmacro
        simp only [hcontainer, if_true]
        have hadded : Registry.mk (Entries.put name entry r.macros) r.tags r.legacy r.nextIdentity =
            added := rfl
        rw [hadded, registerTags, hagain, Except.map, enter, hown]
        rfl
      · simp only [hcontainer]
        rw [Except.map, enter, Definition.ownTags_of_not_isContainer hcontainer]
        rfl

/-! ### The changes -/

/-- A change that registers or deletes a macro. -/
inductive MacroChange (r : Registry η) : Registry η → Prop
  /-- An identity has been given to a definition. -/
  | identify : MacroChange r { r with nextIdentity := r.nextIdentity + 1 }
  | enter (name : String) (entry : MacroEntry η) (h : r.FreeName name entry.definition) :
    MacroChange r (r.enter name entry)
  | leave (name : String) (entry : MacroEntry η) (h : Entries.find? name r.macros = some entry) :
    MacroChange r (r.leave name entry)

/-- A change of a registry. -/
inductive Change (r : Registry η) : Registry η → Prop
  | macros {r' : Registry η} (h : r.MacroChange r') : Change r r'
  | legacy (name : String) (definition : Definition η) : Change r (r.addLegacy name definition)
  /-- A parent, which need not be a macro, is given its closing tags and others. -/
  | own (parent : String) (children : List String)
    (h : ∀ tag ∈ closingTags parent ++ children, r.FreeTag parent tag) :
    Change r
      { r with tags := TagTable.addOwners parent (closingTags parent ++ children) r.tags }
  /-- All tags are taken from a parent. -/
  | disown (parent : String) : Change r { r with tags := TagTable.dropOwner parent r.tags }

/-- The registry can be changed into the other one, step by step. -/
abbrev MacroChanges (r r' : Registry η) : Prop :=
  Relation.ReflTransGen MacroChange r r'

theorem addEntries_changes (r : Registry η) (entry : MacroEntry η) (names : List String) :
    r.MacroChanges (r.addEntries entry names).2 := by
  induction names generalizing r with
  | nil => exact .refl
  | cons name rest ih =>
      rw [addEntries, addEntry_eq]
      cases hcheck : r.checkName name entry.definition with
      | error e => exact .refl
      | ok u => exact .head (.enter name entry (checkName_eq_ok_iff.1 hcheck)) (ih _)

theorem add_changes (r : Registry η) (names : List String) (definition : Definition η) :
    r.MacroChanges (r.add names definition).2 :=
  .head .identify (addEntries_changes _ _ names)

theorem addAlias_changes (r : Registry η) (names : List String) (target : String) :
    r.MacroChanges (r.addAlias names target).2 := by
  rw [addAlias]
  cases Entries.find? target r.macros with
  | none => exact .refl
  | some entry => exact addEntries_changes r _ names

theorem delete_changes (r : Registry η) (names : List String) :
    r.MacroChanges (r.delete names).2 := by
  induction names generalizing r with
  | nil => exact .refl
  | cons name rest ih =>
      rw [delete]
      cases hmacro : Entries.find? name r.macros with
      | some entry => exact .head (.leave name entry hmacro) (ih _)
      | none =>
          cases Entries.find? name r.tags with
          | some parents => exact .refl
          | none => exact ih r

end Registry

/-! ### Calls -/

/-- A call that may change a registry. -/
inductive RegistryCall (η : Type) where
  /-- Register a definition under names. -/
  | add (names : List String) (definition : Definition η)
  /-- Register names as aliases of a registered one. -/
  | addAlias (names : List String) (target : String)
  /-- Delete macros. -/
  | delete (names : List String)
  /-- Put a definition into the legacy table. -/
  | addLegacy (name : String) (definition : Definition η)
  /-- Make a parent an owner of its closing tags and others. -/
  | registerTags (parent : String) (children : List String)
  /-- Make a parent an owner of no tag. -/
  | unregisterTags (parent : String)

namespace RegistryCall

/-- What the call leaves of the registry, be it that it succeeds or that it fails. -/
def run (r : Registry η) : RegistryCall η → Registry η
  | add names definition => (r.add names definition).2
  | addAlias names target => (r.addAlias names target).2
  | delete names => (r.delete names).2
  | addLegacy name definition => r.addLegacy name definition
  | registerTags parent children => (r.registerTags parent children).toOption.getD r
  | unregisterTags parent => (r.unregisterTags parent).toOption.getD r

/-- The call registers or deletes macros. -/
def IsOnMacros : RegistryCall η → Prop
  | add _ _ | addAlias _ _ | delete _ => True
  | addLegacy _ _ | registerTags _ _ | unregisterTags _ => False

theorem macroChanges {call : RegistryCall η} (h : call.IsOnMacros) (r : Registry η) :
    r.MacroChanges (call.run r) := by
  cases call with
  | add names definition => exact r.add_changes names definition
  | addAlias names target => exact r.addAlias_changes names target
  | delete names => exact r.delete_changes names
  | addLegacy name definition => exact h.elim
  | registerTags parent children => exact h.elim
  | unregisterTags parent => exact h.elim

theorem changes (call : RegistryCall η) (r : Registry η) :
    Relation.ReflTransGen Registry.Change r (call.run r) := by
  have hmacros (h : call.IsOnMacros) : Relation.ReflTransGen Registry.Change r (call.run r) :=
    (macroChanges h r).lift id fun _ _ => .macros
  cases call with
  | add names definition => exact hmacros trivial
  | addAlias names target => exact hmacros trivial
  | delete names => exact hmacros trivial
  | addLegacy name definition => exact .single (.legacy name definition)
  | registerTags parent children =>
      rw [run, Registry.registerTags]
      cases hcheck : r.checkTags parent children with
      | error e => exact .refl
      | ok u => exact .single (.own parent children (Registry.checkTags_eq_ok_iff.1 hcheck).2)
  | unregisterTags parent =>
      rw [run, Registry.unregisterTags]
      split
      · exact .refl
      · exact .single (.disown parent)

end RegistryCall

namespace Registry

/-- The registry after calls on an empty one. -/
def after (calls : List (RegistryCall η)) : Registry η :=
  calls.foldl RegistryCall.run {}

theorem after_concat (calls : List (RegistryCall η)) (call : RegistryCall η) :
    after (calls ++ [call]) = call.run (after calls) := by
  simp [after]

section Induction

variable {motive : Registry η → Prop} (empty : motive {})

include empty

theorem run_induction {step : Registry η → Registry η → Prop} {calls : List (RegistryCall η)}
    (hcalls : ∀ call ∈ calls, ∀ r, Relation.ReflTransGen step r (call.run r))
    (keeps : ∀ r r', motive r → step r r' → motive r') : motive (after calls) := by
  have hsteps {r r'} (hr : motive r) (h : Relation.ReflTransGen step r r') : motive r' := by
    induction h with
    | refl => exact hr
    | tail _ hstep ih => exact keeps _ _ ih hstep
  suffices h : ∀ r, motive r → motive (calls.foldl RegistryCall.run r) from h {} empty
  induction calls with
  | nil => exact fun _ hr => hr
  | cons call rest ih =>
      obtain ⟨hcall, hrest⟩ := List.forall_mem_cons.1 hcalls
      exact fun r hr => ih hrest _ (hsteps hr (hcall r))

/-- What holds of an empty registry and survives every change holds whatever has been called. -/
theorem after_induction (change : ∀ r r', motive r → r.Change r' → motive r')
    (calls : List (RegistryCall η)) : motive (after calls) :=
  run_induction empty (fun call _ => call.changes) change

/-- If macros have only been registered and deleted, this is all that it need survive. -/
theorem after_induction_onMacros {calls : List (RegistryCall η)}
    (hcalls : ∀ call ∈ calls, call.IsOnMacros)
    (change : ∀ r r', motive r → r.MacroChange r' → motive r') : motive (after calls) :=
  run_induction empty (fun call hcall => RegistryCall.macroChanges (hcalls call hcall)) change

end Induction

end Registry

end StoryEngine
