import Mathlib.Data.List.Induction
import StoryEngine.Engine.Context
import StoryEngine.Proofs.Passage.Written
import StoryEngine.Proofs.Registry.Consistent
/-!
# StoryEngine.Proofs.Registry.Aliases

What an alias stands for. A name that is registered as an alias keeps two things: the definition
that its target had, and the name of the target. The definition is always the right one, since
macros that are only ever added to a registry stay as they are. The name is that of a macro with a
definition of its own, unless the target was an alias itself: then it is the name of that alias,
and not of what it stands for. So the names of aliases are canonical if and only if nothing that can
be called was registered as an alias of an alias (`Registry.aliases_canonical_iff`).
-/

namespace StoryEngine

variable {η : Type}

/-- The call registers names. -/
def RegistryCall.IsAdd : RegistryCall η → Prop
  | add _ _ | addAlias _ _ => True
  | delete _ | addLegacy _ _ | registerTags _ _ | unregisterTags _ => False

/-- The context of the same call, written with another name. -/
def Context.calledAs (context : Context η) (name : String) : Context η :=
  { context with call := { context.call with displayName := name } }

namespace Registry

variable {r r' : Registry η} {entry : MacroEntry η} {names : List String} {name target : String}

/-- What is found under an alias is the definition that its target is registered with, and the
target is no alias. -/
def Canonical (r : Registry η) : Prop :=
  ∀ name entry target, r.get? name = some entry → entry.aliasOf = some target →
    Entries.find? target r.macros = some { entry with aliasOf := none }

/-- What is found under an alias is the definition that its target is registered with. -/
def Resolved (r : Registry η) : Prop :=
  ∀ name entry target, Entries.find? name r.macros = some entry → entry.aliasOf = some target →
    ∃ other, Entries.find? target r.macros = some { entry with aliasOf := other }

/-- An alias of an alias has not been registered, unless nothing can be found under it: a call that
would do so changes nothing. -/
def AliasesDirect (calls : List (RegistryCall η)) : Prop :=
  ∀ before names target rest, calls = before ++ .addAlias names target :: rest →
    ∀ entry, (after before).get? target = some entry → entry.aliasOf ≠ none →
      ((after before).addAlias names target).2 = after before

/-! ### Names that get an entry -/

/-- The names, none of which was registered before, have got the entry, and the other ones are as
they were. -/
structure Gains (r : Registry η) (entry : MacroEntry η) (names : List String) (r' : Registry η) :
    Prop where
  free : ∀ name ∈ names, Entries.find? name r.macros = none
  found : ∀ name, Entries.find? name r'.macros =
    if name ∈ names then some entry else Entries.find? name r.macros
  legacy : r'.legacy = r.legacy

theorem Gains.refl (r : Registry η) (entry : MacroEntry η) : r.Gains entry [] r :=
  ⟨by simp, by simp, rfl⟩

/-- What was registered stays as it was. -/
theorem Gains.persists (h : r.Gains entry names r') {old : MacroEntry η}
    (hold : Entries.find? name r.macros = some old) : Entries.find? name r'.macros = some old := by
  have hnot : name ∉ names := by
    intro hmem
    simp [h.free name hmem] at hold
  rw [h.found name, if_neg hnot, hold]

/-- The names up to the first that is refused get the entry. If there are none, nothing happens. -/
theorem addEntries_gains (r : Registry η) (entry : MacroEntry η) (names : List String) :
    ∃ gained, r.Gains entry gained (r.addEntries entry names).2 ∧
      (gained = [] → (r.addEntries entry names).2 = r) := by
  induction names generalizing r with
  | nil => exact ⟨[], .refl r entry, fun _ => rfl⟩
  | cons name rest ih =>
      rw [addEntries, addEntry_eq]
      cases hcheck : r.checkName name entry.definition with
      | error e => exact ⟨[], .refl r entry, fun _ => rfl⟩
      | ok u =>
          have hnew := has_eq_false_iff.1 (checkName_eq_ok_iff.1 hcheck).noMacro
          obtain ⟨gained, hgains, -⟩ := ih (r.enter name entry)
          -- a name behind this one may be the same, which is refused then
          have hfirst : name ∉ gained := by
            intro hmem
            have hnone := hgains.free name hmem
            simp [enter] at hnone
          have hother {other : String} (hne : other ≠ name) :
              Entries.find? other (r.enter name entry).macros = Entries.find? other r.macros :=
            Entries.find?_put_of_ne hne entry r.macros
          refine ⟨name :: gained, ⟨?_, ?_, hgains.legacy⟩,
            fun hnone => (List.cons_ne_nil name gained hnone).elim⟩
          · intro other hmem
            rcases List.mem_cons.1 hmem with rfl | hmem
            · exact hnew
            · have hne : other ≠ name := fun heq => hfirst (heq ▸ hmem)
              rw [← hother hne]
              exact hgains.free other hmem
          · intro other
            show Entries.find? other ((r.enter name entry).addEntries entry rest).2.macros = _
            rw [hgains.found other]
            by_cases heq : other = name
            · subst heq
              simp [hfirst, enter]
            · simp [heq, hother heq]

/-- A call that registers names gives them an entry: a definition of its own, or that of the target
under the target's name. -/
theorem gains_run {call : RegistryCall η} (hcall : call.IsAdd) (r : Registry η) :
    ∃ entry gained, r.Gains entry gained (call.run r) ∧
      (entry.aliasOf = none ∨ ∃ names target old, call = .addAlias names target ∧
        Entries.find? target r.macros = some old ∧ entry = { old with aliasOf := some target } ∧
        (gained = [] → call.run r = r)) := by
  cases call with
  | add names definition =>
      obtain ⟨gained, hgains, -⟩ := addEntries_gains { r with nextIdentity := r.nextIdentity + 1 }
        ⟨definition, r.nextIdentity, none⟩ names
      exact ⟨_, gained, ⟨hgains.free, hgains.found, hgains.legacy⟩, .inl rfl⟩
  | addAlias names target =>
      cases htarget : Entries.find? target r.macros with
      | none =>
          have hrun : RegistryCall.run r (.addAlias names target) = r := by
            simp [RegistryCall.run, addAlias, htarget]
          rw [hrun]
          exact ⟨⟨{ handler := none }, 0, none⟩, [], .refl r _, .inl rfl⟩
      | some old =>
          have hrun : RegistryCall.run r (.addAlias names target) =
              (r.addEntries { old with aliasOf := some target } names).2 := by
            simp [RegistryCall.run, addAlias, htarget]
          obtain ⟨gained, hgains, hnone⟩ :=
            addEntries_gains r { old with aliasOf := some target } names
          rw [hrun]
          exact ⟨_, gained, hgains, .inr ⟨names, target, old, rfl, htarget, rfl, hnone⟩⟩
  | delete names => exact hcall.elim
  | addLegacy name definition => exact hcall.elim
  | registerTags parent children => exact hcall.elim
  | unregisterTags parent => exact hcall.elim

/-! ### Registries to which names are added -/

theorem get?_eq_some_iff (hlegacy : r.legacy = []) :
    r.get? name = some entry ↔
      Entries.find? name r.macros = some entry ∧ entry.definition.handler.isSome = true := by
  have hget : r.get? name =
      (Entries.find? name r.macros).filter fun entry => entry.definition.handler.isSome := by
    simp only [get?, hlegacy, Entries.find?, Option.filter_none]
    split
    · rename_i found hfound
      rw [hfound]
    · rename_i hnone
      rw [hnone]
  rw [hget, Option.filter_eq_some_iff]

theorem legacy_after {calls : List (RegistryCall η)} (hcalls : ∀ call ∈ calls, call.IsAdd) :
    (after calls).legacy = [] := by
  induction calls using List.reverseRecOn with
  | nil => rfl
  | append_singleton init call ih =>
      obtain ⟨_, _, hgains, -⟩ := gains_run (hcalls call (by simp)) (after init)
      rw [after_concat, hgains.legacy]
      exact ih fun call hcall => hcalls call (by simp [hcall])

/-- What was registered stays as it was. -/
theorem persists_after {before rest : List (RegistryCall η)} (hrest : ∀ call ∈ rest, call.IsAdd)
    (h : Entries.find? name (after before).macros = some entry) :
    Entries.find? name (after (before ++ rest)).macros = some entry := by
  induction rest using List.reverseRecOn with
  | nil => simpa using h
  | append_singleton init call ih =>
      obtain ⟨_, _, hgains, -⟩ := gains_run (hrest call (by simp)) (after (before ++ init))
      rw [← List.append_assoc, after_concat]
      exact hgains.persists (ih fun call hcall => hrest call (by simp [hcall]))

theorem Resolved.gains (h : r.Resolved) (hgains : r.Gains entry names r')
    (hentry : ∀ target, entry.aliasOf = some target →
      ∃ other, Entries.find? target r.macros = some { entry with aliasOf := other }) :
    r'.Resolved := by
  intro name found target hfound halias
  -- the target was registered before the name was
  have hbefore : ∃ other, Entries.find? target r.macros = some { found with aliasOf := other } := by
    rw [hgains.found name] at hfound
    split at hfound
    · cases hfound
      exact hentry target halias
    · exact h name found target hfound halias
  obtain ⟨other, hother⟩ := hbefore
  exact ⟨other, hgains.persists hother⟩

theorem resolved_after {calls : List (RegistryCall η)} (hcalls : ∀ call ∈ calls, call.IsAdd) :
    (after calls).Resolved := by
  induction calls using List.reverseRecOn with
  | nil => exact fun _ _ _ h => by simp [after, Entries.find?] at h
  | append_singleton init call ih =>
      have hinit := ih fun call hcall => hcalls call (by simp [hcall])
      obtain ⟨entry, gained, hgains, hentry⟩ := gains_run (hcalls call (by simp)) (after init)
      rw [after_concat]
      refine hinit.gains hgains fun target halias => ?_
      rcases hentry with hnone | ⟨names, aliased, old, -, hold, rfl, -⟩
      · simp [hnone] at halias
      · cases halias
        exact ⟨old.aliasOf, hold⟩

theorem Canonical.gains (h : r.Canonical) (hlegacy : r.legacy = [])
    (hgains : r.Gains entry names r') (hentry : entry.definition.handler.isSome = true →
      ∀ target, entry.aliasOf = some target →
        Entries.find? target r.macros = some { entry with aliasOf := none }) :
    r'.Canonical := by
  intro name found target hget halias
  rw [get?_eq_some_iff (hgains.legacy.trans hlegacy), hgains.found name] at hget
  obtain ⟨hfound, hhandler⟩ := hget
  apply hgains.persists
  split at hfound
  · cases hfound
    exact hentry hhandler target halias
  · exact h name found target ((get?_eq_some_iff hlegacy).2 ⟨hfound, hhandler⟩) halias

theorem canonical_of_aliasesDirect {calls : List (RegistryCall η)}
    (hcalls : ∀ call ∈ calls, call.IsAdd) (hdirect : AliasesDirect calls) :
    (after calls).Canonical := by
  induction calls using List.reverseRecOn with
  | nil => exact fun _ _ _ h => by simp [after, get?, Entries.find?] at h
  | append_singleton init call ih =>
      have hadds : ∀ call ∈ init, call.IsAdd := fun call hcall => hcalls call (by simp [hcall])
      have hinit : (after init).Canonical := by
        refine ih hadds fun before names target rest hsplit => ?_
        exact hdirect before names target (rest ++ [call]) (by simp [hsplit])
      have hlegacy := legacy_after hadds
      obtain ⟨entry, gained, hgains, hentry⟩ := gains_run (hcalls call (by simp)) (after init)
      rw [after_concat]
      rcases hentry with hnone | ⟨names, aliased, old, rfl, hold, rfl, -⟩
      · exact hinit.gains hlegacy hgains fun _ target halias => by simp [hnone] at halias
      · by_cases hchain : old.aliasOf = none ∨ old.definition.handler.isSome = false
        · refine hinit.gains hlegacy hgains fun hhandler target halias => ?_
          cases halias
          rcases hchain with hchain | hchain
          · simpa [← hchain] using hold
          · simp [hchain] at hhandler
        · -- an alias of an alias: the call has changed nothing
          simp only [not_or, Bool.not_eq_false] at hchain
          have hget := (get?_eq_some_iff hlegacy).2 ⟨hold, hchain.2⟩
          have hsame := hdirect init names aliased [] rfl old hget hchain.1
          rw [RegistryCall.run, hsame]
          exact hinit

theorem aliasesDirect_of_canonical {calls : List (RegistryCall η)}
    (hcalls : ∀ call ∈ calls, call.IsAdd) (h : (after calls).Canonical) :
    AliasesDirect calls := by
  intro before names target rest hsplit old hget hchain
  have hadds : ∀ call ∈ rest, call.IsAdd := fun call hcall => hcalls call (by simp [hsplit, hcall])
  have hlegacy : (after before).legacy = [] := legacy_after fun call hcall =>
    hcalls call (by simp [hsplit, hcall])
  obtain ⟨hold, hhandler⟩ := (get?_eq_some_iff hlegacy).1 hget
  by_contra hchanged
  obtain ⟨gained, hgains, hnone⟩ :=
    addEntries_gains (after before) { old with aliasOf := some target } names
  have hrun : (after before).addAlias names target =
      (after before).addEntries { old with aliasOf := some target } names := by
    simp [addAlias, hold]
  -- a name has become an alias of the alias, and both have stayed so
  obtain ⟨name, hname⟩ := List.exists_mem_of_ne_nil gained fun hnil => by
    rw [hrun] at hchanged
    exact hchanged (hnone hnil)
  have hnow : after (before ++ [.addAlias names target]) =
      ((after before).addEntries { old with aliasOf := some target } names).2 := by
    rw [after_concat, RegistryCall.run, hrun]
  have hall : calls = (before ++ [.addAlias names target]) ++ rest := by simp [hsplit]
  have hnew : Entries.find? name (after calls).macros = some { old with aliasOf := some target } := by
    rw [hall]
    apply persists_after hadds
    rw [hnow, hgains.found name, if_pos hname]
  have htarget : Entries.find? target (after calls).macros = some old := by
    rw [hall]
    apply persists_after hadds
    rw [hnow]
    exact hgains.persists hold
  have hdirect := h name _ target
    ((get?_eq_some_iff (legacy_after hcalls)).2 ⟨hnew, hhandler⟩) rfl
  rw [htarget] at hdirect
  exact hchain (congrArg MacroEntry.aliasOf (Option.some.inj hdirect))

/-! ### Contexts -/

/-- A call of an alias gets the context of a call of what the alias stands for, except that it is
written with another name. -/
theorem make_calledAs {σ : Type} {entry : MacroEntry (Handler η)} (halias : entry.aliasOf = some target)
    (hname : name.isEmpty = false) (htarget : target.isEmpty = false) (data : ContextData η) :
    (Context.make { data with entry := some entry, name := name } : Run η σ (Context η)) =
      (·.calledAs name) <$>
        Context.make { data with entry := some { entry with aliasOf := none }, name := target } := by
  funext e
  cases houtput : data.output with
  | none => simp [Context.make, hname, htarget]; rfl
  | some out => simp [Context.make, hname, htarget, halias]; rfl

/-- However names are added to a registry, the target of an alias is registered, and it is found with
the definition that is found under the alias. The target is a macro with a definition of its own, for
every alias, if and only if nothing that can be called was registered as an alias of an alias. Then a
call of an alias has the context that a call of its target would have, with the name of the target,
except for the name as written. -/
theorem aliases_canonical_iff {calls : List (RegistryCall (Handler η))}
    (hcalls : ∀ call ∈ calls, call.IsAdd) :
    (∀ name entry target, (after calls).get? name = some entry → entry.aliasOf = some target →
      ∃ other, (after calls).get? target = some { entry with aliasOf := other }) ∧
    ((after calls).Canonical ↔ AliasesDirect calls) ∧
    ((after calls).Canonical → ∀ name entry target, (after calls).get? name = some entry →
      entry.aliasOf = some target → ∀ (σ : Type) (data : ContextData η),
        (Context.make { data with entry := some entry, name := name } : Run η σ (Context η)) =
          (·.calledAs name) <$>
            Context.make { data with entry := (after calls).get? target, name := target }) := by
  have hlegacy := legacy_after hcalls
  refine ⟨?_, ⟨aliasesDirect_of_canonical hcalls, canonical_of_aliasesDirect hcalls⟩, ?_⟩
  · intro name entry target hget halias
    obtain ⟨hfound, hhandler⟩ := (get?_eq_some_iff hlegacy).1 hget
    obtain ⟨other, hother⟩ := resolved_after hcalls name entry target hfound halias
    exact ⟨other, (get?_eq_some_iff hlegacy).2 ⟨hother, hhandler⟩⟩
  · intro hcanonical name entry target hget halias σ data
    obtain ⟨hfound, hhandler⟩ := (get?_eq_some_iff hlegacy).1 hget
    have htarget := hcanonical name entry target hget halias
    have hspelled {other : String} {found : MacroEntry (Handler η)}
        (h : Entries.find? other (after calls).macros = some found) : other.isEmpty = false := by
      refine ((Consistent.after calls).macros other ?_).isEmpty
      simp [has, Entries.has, h]
    rw [(get?_eq_some_iff hlegacy).2 ⟨htarget, hhandler⟩]
    exact make_calledAs halias (hspelled hfound) (hspelled htarget) data

/-- The loop under a second name. -/
def renamed : List (RegistryCall (Handler Empty)) :=
  [.add ["for"] (Builtin.loop.definition (.builtin .loop)), .addAlias ["loop"] "for"]

/-- A loop under its second name is called as the loop. -/
theorem loop_called_as_for :
    (∀ call ∈ renamed, call.IsAdd) ∧ ∃ entry, (after renamed).get? "loop" = some entry ∧
      ∀ (σ : Type) (data : ContextData Empty),
        (Context.make { data with entry := some entry, name := "loop" } : Run Empty σ _) =
          (·.calledAs "loop") <$>
            Context.make { data with entry := (after renamed).get? "for", name := "for" } := by
  have hcalls : ∀ call ∈ renamed, call.IsAdd := by
    simp [renamed, RegistryCall.IsAdd]
  obtain ⟨-, hiff, hcontexts⟩ := aliases_canonical_iff hcalls
  have hdirect : AliasesDirect renamed := by
    intro before names target rest hsplit entry hget hchain
    -- the one call of the kind is the second
    rcases before with _ | ⟨first, _ | ⟨second, behind⟩⟩
    · simp [renamed] at hsplit
    · simp only [renamed, List.cons_append, List.nil_append, List.cons.injEq] at hsplit
      obtain ⟨rfl, hcall, -⟩ := hsplit
      cases hcall
      cases hget
      exact (hchain rfl).elim
    · simp [renamed] at hsplit
  exact ⟨hcalls, _, rfl, hcontexts (hiff.2 hdirect) "loop" _ "for" rfl rfl⟩

/-- The loop under a third name, which is registered as an alias of the second one. -/
def renamedAgain : List (RegistryCall (Handler Empty)) :=
  renamed ++ [.addAlias ["each"] "loop"]

/-- The target of the third name is an alias, so in a call of it the loop is not named as one. -/
theorem alias_of_alias_not_canonical :
    (∀ call ∈ renamedAgain, call.IsAdd) ∧ ¬ (after renamedAgain).Canonical ∧
      ∃ entry other, (after renamedAgain).get? "each" = some entry ∧
        entry.aliasOf = some "loop" ∧ (after renamedAgain).get? "loop" = some other ∧
          other.aliasOf = some "for" := by
  refine ⟨by simp [renamedAgain, renamed, RegistryCall.IsAdd], fun h => ?_, _, _, rfl, rfl, rfl, rfl⟩
  have hdirect := h "each" _ "loop" rfl rfl
  cases hdirect

end Registry

end StoryEngine
