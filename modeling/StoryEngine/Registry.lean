import StoryEngine.Entries
import StoryEngine.Name
import StoryEngine.Names
/-!
# StoryEngine.Registry

The macros that passages can call. A macro is registered under names, each of which is either
the direct name of a definition or an alias of another name. A container macro owns tags: its two
closing tags and the child tags of its definition; several macros can share a tag. No name is at
once a macro and a tag. Beside the registered macros there is a legacy table, which is looked up
last and takes part in nothing else.
-/

namespace StoryEngine

/-- Which tags a macro owns. -/
inductive Tags where
  /-- None: it is no container. -/
  | none
  /-- Its closing tags. -/
  | closing
  /-- Its closing tags and child tags. -/
  | children (tags : List String)
deriving Repr, DecidableEq

/-- What a macro does, by its handler, and how it is called. -/
structure Definition (η : Type) where
  /-- What runs when the macro is called; a definition without one is never found. -/
  handler : Option η
  tags : Tags := .none
  /-- The arguments are left as they are written. -/
  skipArgs : Bool := false
  /-- What the macro starts goes on after the call. -/
  isAsync : Bool := false
  /-- The names of the hooks that the definition takes part in. -/
  hooks : List String := []

namespace Definition

variable {η : Type}

/-- The macro has a body. -/
def isContainer (d : Definition η) : Bool :=
  d.tags != .none

/-- The tags that divide its body into clauses. -/
def childTags (d : Definition η) : List String :=
  match d.tags with
  | .children tags => tags
  | _ => []

end Definition

/-- A registered name. Entries with the same identity share one definition. -/
structure MacroEntry (η : Type) where
  definition : Definition η
  /-- Tells definitions apart. -/
  identity : Nat
  /-- The name that this one is an alias of. -/
  aliasOf : Option String

/-- Why a registry refuses a change. -/
inductive RegistryError where
  | invalidName (name : String)
  /-- The name is a macro already. -/
  | macroExists (name : String)
  /-- The name is a child or closing tag already. -/
  | tagExists (name : String) (parents : List String)
  | missingAliasTarget (name : String)
  | invalidTagName (parent tag : String)
  /-- The tag is a macro already. -/
  | tagIsMacro (tag : String)
  | noParent
  /-- Only a macro can be deleted. -/
  | notDeletable (name : String) (parents : List String)
deriving Repr, DecidableEq

/-- The macros of a list in a message. -/
def parentList (parents : List String) : String :=
  "parent macro" ++ (if parents.length = 1 then "" else "s") ++ " <<" ++
    String.intercalate ">>, <<" parents ++ ">>"

/-- The wording of the error. -/
def RegistryError.message : RegistryError → String
  | invalidName name => "invalid macro name \"" ++ name ++ "\""
  | macroExists name => "cannot clobber existing macro <<" ++ name ++ ">>"
  | tagExists name parents =>
    "cannot clobber child tag <<" ++ name ++ ">> of " ++ parentList parents
  | missingAliasTarget name => "cannot create alias of nonexistent macro <<" ++ name ++ ">>"
  | invalidTagName parent tag =>
    "invalid child tag name \"" ++ tag ++ "\" for macro <<" ++ parent ++ ">>"
  | tagIsMacro tag => "cannot register tag <<" ++ tag ++ ">> for an existing macro"
  | noParent => "no parent specified"
  | notDeletable name parents =>
    "cannot remove child tag <<" ++ name ++ ">> of " ++ parentList parents

/-- The owners of each tag, in ascending order. -/
abbrev TagTable := Entries (List String)

namespace TagTable

/-- Make the parent an owner of the tag. -/
def addOwner (tag parent : String) (table : TagTable) : TagTable :=
  Entries.put tag (Names.insert parent ((Entries.find? tag table).getD [])) table

/-- Make the parent an owner of no tag. Tags without an owner are dropped. -/
def dropOwner (parent : String) : TagTable → TagTable
  | [] => []
  | (tag, parents) :: rest =>
    match Names.erase parent parents with
    | [] => dropOwner parent rest
    | owners => (tag, owners) :: dropOwner parent rest

end TagTable

/-- The registered macros and their tags. -/
structure Registry (η : Type) where
  macros : Entries (MacroEntry η) := []
  tags : TagTable := []
  legacy : Entries (MacroEntry η) := []
  /-- The identity of the next definition. -/
  nextIdentity : Nat := 0

namespace Registry

variable {η : Type}

/-- The name is a registered macro. -/
def has (r : Registry η) (name : String) : Bool :=
  Entries.has name r.macros

/-- The entry of the name, if its definition has a handler: the registered one, or else the
legacy one. -/
def get? (r : Registry η) (name : String) : Option (MacroEntry η) :=
  let usable (entry : MacroEntry η) : Bool := entry.definition.handler.isSome
  match (Entries.find? name r.macros).filter usable with
  | some entry => some entry
  | none => (Entries.find? name r.legacy).filter usable

/-- The closing tags of a macro. -/
def closingTags (name : String) : List String :=
  ["/" ++ name, "end" ++ name]

/-- The tag is spelled like one: a macro name, or anything behind a slash. -/
def isTagName (tag : String) : Bool :=
  isMacroName tag || tag.toList.head? == some '/'

/-- The first reason why the parent cannot own the tags. -/
def tagFault? (r : Registry η) (parent : String) : List String → Option RegistryError
  | [] => none
  | tag :: rest =>
    if !isTagName tag then some (.invalidTagName parent tag)
    else if r.has tag || tag = parent then some (.tagIsMacro tag)
    else tagFault? r parent rest

/-- The parent may own its closing tags and the children. -/
def checkTags (r : Registry η) (parent : String) (children : List String) :
    Except RegistryError Unit :=
  if parent.isEmpty then .error .noParent
  else
    match r.tagFault? parent (closingTags parent ++ children) with
    | some e => .error e
    | none => .ok ()

/-- Make the parent an owner of its closing tags and the children. -/
def registerTags (r : Registry η) (parent : String) (children : List String) :
    Except RegistryError (Registry η) :=
  match r.checkTags parent children with
  | .error e => .error e
  | .ok () =>
    let tags := (closingTags parent ++ children).foldl
      (fun table tag => TagTable.addOwner tag parent table) r.tags
    .ok { r with tags := tags }

/-- Make the parent an owner of no tag. -/
def unregisterTags (r : Registry η) (parent : String) : Except RegistryError (Registry η) :=
  if parent.isEmpty then .error .noParent
  else .ok { r with tags := TagTable.dropOwner parent r.tags }

/-- The name is free for a macro with the tags. -/
def checkName (r : Registry η) (name : String) (definition : Definition η) :
    Except RegistryError Unit :=
  if !isMacroName name then .error (.invalidName name)
  else if r.has name then .error (.macroExists name)
  else
    match Entries.find? name r.tags with
    | some parents => .error (.tagExists name parents)
    | none => if definition.isContainer then r.checkTags name definition.childTags else .ok ()

/-- Register one name. -/
def addEntry (r : Registry η) (name : String) (entry : MacroEntry η) :
    Except RegistryError (Registry η) :=
  match r.checkName name entry.definition with
  | .error e => .error e
  | .ok () =>
    let added := { r with macros := Entries.put name entry r.macros }
    if entry.definition.isContainer then added.registerTags name entry.definition.childTags
    else .ok added

/-- Register names in order, up to the first that is refused. -/
def addEntries (r : Registry η) (entry : MacroEntry η) :
    List String → Option RegistryError × Registry η
  | [] => (none, r)
  | name :: rest =>
    match r.addEntry name entry with
    | .error e => (some e, r)
    | .ok added => added.addEntries entry rest

/-- Register a definition under names. The names before a refused one stay registered. -/
def add (r : Registry η) (names : List String) (definition : Definition η) :
    Option RegistryError × Registry η :=
  { r with nextIdentity := r.nextIdentity + 1 }.addEntries ⟨definition, r.nextIdentity, none⟩ names

/-- Register names as aliases of a registered one. -/
def addAlias (r : Registry η) (names : List String) (target : String) :
    Option RegistryError × Registry η :=
  match Entries.find? target r.macros with
  | none => (some (.missingAliasTarget target), r)
  | some entry => r.addEntries { entry with aliasOf := some target } names

/-- Delete macros in order, with their share in their tags. Unknown names are passed over; at a
name that is only a tag the deletion stops. -/
def delete (r : Registry η) : List String → Option RegistryError × Registry η
  | [] => (none, r)
  | name :: rest =>
    match Entries.find? name r.macros with
    | some entry =>
      let tags :=
        if entry.definition.isContainer then TagTable.dropOwner name r.tags else r.tags
      delete { r with macros := Entries.remove name r.macros, tags := tags } rest
    | none =>
      match Entries.find? name r.tags with
      | some parents => (some (.notDeletable name parents), r)
      | none => delete r rest

/-- Put a definition into the legacy table. -/
def addLegacy (r : Registry η) (name : String) (definition : Definition η) : Registry η :=
  { r with
    legacy := Entries.put name ⟨definition, r.nextIdentity, none⟩ r.legacy
    nextIdentity := r.nextIdentity + 1 }

/-- The names whose definitions take part in a hook, in the order in which they run it: the
registered ones, then the legacy ones. -/
def hooked (r : Registry η) (hook : String) : List String :=
  let takesPart (entry : String × MacroEntry η) : Bool := entry.2.definition.hooks.contains hook
  (r.macros.filter takesPart ++ r.legacy.filter takesPart).map (·.1)

end Registry

end StoryEngine
