import Std.Data.HashSet
import LazyGL.Log
import LazyGL.Registry.Basic
import LazyGL.Registry.Identifier
import LazyGL.Registry.Literal

/-!
The normal form of a registry: groups have only members that exist, and at
least one; parameters have usable names; values are in canonical form and in
ascending order; commands are in the order of their names; and a command that
the first embedded version has does not mention the second one.
-/

namespace LazyGL.Registry

def valueNames (r : Registry) : List String :=
  (r.enums ++ r.bitfields).map Enumerant.name

structure GroupRepair where
  groups : OrderedMap String (OrderedSet String)
  droppedMembers : Nat
  droppedGroups : Nat
deriving DecidableEq

/-- Drops the members that name no value, and then the groups without members. -/
def repairGroups (r : Registry) : GroupRepair :=
  let names := Std.HashSet.ofList r.valueNames
  let kept := r.groups.mapValues fun members => members.filter names.contains
  let inhabited := kept.filterValues fun members => !members.toList.isEmpty
  { groups := inhabited
    droppedMembers :=
      r.groups.values.foldl (fun dropped members =>
        dropped + (members.size - (members.filter names.contains).size)) 0
    droppedGroups := r.groups.size - inhabited.size }

def GroupRepair.log (repair : GroupRepair) : List Log.Entry :=
  if 0 < repair.droppedMembers ∨ 0 < repair.droppedGroups then
    [⟨.warn, "dropped " ++ toString repair.droppedMembers ++ " unknown group members and " ++
      toString repair.droppedGroups ++ " empty groups"⟩]
  else []

def renameParams (command : Command) : Command :=
  { command with
    params := command.params.map fun param =>
      { param with name := Identifier.usable param.name } }

def canonicalize (canonical : Int64 → String) (enumerant : Enumerant) : Enumerant :=
  match Literal.value? enumerant.value with
  | some n => { enumerant with value := canonical n }
  | none => enumerant

/-- The number that decides the place of a value; what is no numeral comes
last. -/
def sortKey (enumerant : Enumerant) : Int :=
  match Literal.value? enumerant.value with
  | some n => n.toInt
  | none => Int64.maxValue.toInt

/-- Values in ascending order; equal ones keep their order. -/
def sortByValue (enumerants : List Enumerant) : List Enumerant :=
  enumerants.mergeSort fun a b => sortKey a ≤ sortKey b

def sortByName (commands : List Command) : List Command :=
  commands.mergeSort fun a b => a.name ≤ b.name

/-- Version tags without the second embedded version if the first one is among
them. -/
def dropRedundant (tags : List VersionTag) : List VersionTag :=
  if .added .es 1 0 ∈ tags then tags.filter fun tag => tag ≠ .added .es 2 0 else tags

def normalize (r : Registry) : Registry :=
  { groups := r.repairGroups.groups
    enums := sortByValue (r.enums.map (canonicalize Literal.canonicalPlain))
    bitfields := sortByValue (r.bitfields.map (canonicalize Literal.canonicalMask))
    commands := sortByName (r.commands.map renameParams)
    versions := r.versions.mapValues dropRedundant
    extensions := r.extensions }

def normalizeLog (r : Registry) : List Log.Entry :=
  r.repairGroups.log

end LazyGL.Registry
