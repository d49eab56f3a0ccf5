import LazyGL.Ordered.Map
import LazyGL.Ordered.Set
import LazyGL.Registry.Availability

/-!
The registry: named values, groups of such names, and commands with the
versions and extensions that have them.
-/

namespace LazyGL

inductive ValueKind
  | plain
  | bitmask
deriving DecidableEq

/-- A named value. Names declared for one interface only carry its name at
their end. -/
structure Enumerant where
  name : String
  value : String
  kind : ValueKind
deriving DecidableEq

/-- A parameter. Its shape is the text around type and name, without blanks,
with `!` for the type and `?` for the name. -/
structure Param where
  name : String := ""
  /-- The type, `void` where the declaration names none. -/
  base : String := ""
  shape : String := ""
  group : Option String := none
  length : Option String := none
deriving DecidableEq

/-- A command. Its return type is the text around its name, with single spaces
between words. -/
structure Command where
  name : String
  returnType : String
  params : List Param
deriving DecidableEq

structure Registry where
  groups : OrderedMap String (OrderedSet String) := .empty
  enums : List Enumerant := []
  bitfields : List Enumerant := []
  commands : List Command := []
  /-- The version tags of each command, in document order. -/
  versions : OrderedMap String (List VersionTag) := .empty
  /-- The extension tags of each command, in document order. -/
  extensions : OrderedMap String (List ExtensionTag) := .empty
deriving DecidableEq

namespace Registry

/-- Adds a member to a group, which is created at the end if it is new. -/
def addMember (r : Registry) (group member : String) : Registry :=
  { r with groups := r.groups.update group fun members => (members.getD .empty).insert member }

def addGroup (r : Registry) (group : String) : Registry :=
  { r with groups := r.groups.update group fun members => members.getD .empty }

def addEnumerant (r : Registry) (enumerant : Enumerant) : Registry :=
  match enumerant.kind with
  | .plain => { r with enums := r.enums ++ [enumerant] }
  | .bitmask => { r with bitfields := r.bitfields ++ [enumerant] }

def addCommand (r : Registry) (command : Command) : Registry :=
  { r with commands := r.commands ++ [command] }

def addVersion (r : Registry) (command : String) (tag : VersionTag) : Registry :=
  { r with versions := r.versions.update command fun tags => tags.getD [] ++ [tag] }

def addExtension (r : Registry) (command : String) (tag : ExtensionTag) : Registry :=
  { r with extensions := r.extensions.update command fun tags => tags.getD [] ++ [tag] }

def versionTags (r : Registry) (command : String) : List VersionTag :=
  (r.versions.get? command).getD []

def extensionTags (r : Registry) (command : String) : List ExtensionTag :=
  (r.extensions.get? command).getD []

/-- The texts of a command's tags: first the versions, then the extensions,
each in document order. -/
def candidateTags (r : Registry) (command : String) : List String :=
  (r.versionTags command).map VersionTag.text ++ (r.extensionTags command).map ExtensionTag.name

end Registry

end LazyGL
