import LazyGL.Proofs.Binding.Emission
import LazyGL.Proofs.Registry.Conservation
import Mathlib.Data.List.Nodup

/-!
The order in which a registry lists its commands and its values. A normal form
sorts them, so that order is seen in it only where values have the same number,
which may be written in several ways. Main statement: registries that differ in
it elsewhere have one normal form, and so the same artifacts.
-/

namespace LazyGL

namespace Registry

def canonicalKey (canonical : Int64 → String) (e : Enumerant) : Int :=
  sortKey (canonicalize canonical e)

/-- A registry whose commands are listed in any order, and whose values are
listed so that those with the same number keep their order. -/
structure Shuffled (r r' : Registry) : Prop where
  groups : r'.groups = r.groups
  commands : r'.commands.Perm r.commands
  enums : Rearranged (canonicalKey Literal.canonicalPlain) r.enums r'.enums
  bitfields : Rearranged (canonicalKey Literal.canonicalMask) r.bitfields r'.bitfields
  versions : r'.versions = r.versions
  extensions : r'.extensions = r.extensions

theorem sortByValue_of_rearranged {canonical : Int64 → String} {es es' : List Enumerant}
    (h : Rearranged (canonicalKey canonical) es es') :
    sortByValue (es'.map (canonicalize canonical)) =
      sortByValue (es.map (canonicalize canonical)) := by
  have hmap : Rearranged sortKey (es.map (canonicalize canonical))
      (es'.map (canonicalize canonical)) := .map h
  exact StablySorted.unique Int.le_antisymm hmap (stablySorted_sortByValue _)
    (stablySorted_sortByValue _)

/-- Commands that differ in their names have one order. -/
theorem sortByName_of_perm {commands commands' : List Command} (h : commands'.Perm commands)
    (hnames : (commands.map Command.name).Nodup) : sortByName commands' = sortByName commands := by
  have hbytes : (commands.map fun c => Utf8.ofString c.name).Nodup := by
    have hmap := List.Nodup.map Utf8.ofString_injective hnames
    rwa [List.map_map] at hmap
  exact StablySorted.unique List.le_antisymm (.of_nodup h hbytes) (stablySorted_sortByName _)
    (stablySorted_sortByName _)

variable {r r' : Registry}

/-- What is dropped from groups depends on which names there are. -/
theorem repairGroups_of_perm (hgroups : r'.groups = r.groups)
    (hnames : r'.valueNames.Perm r.valueNames) : r'.repairGroups = r.repairGroups := by
  have hcontains : (Std.HashSet.ofList r'.valueNames).contains =
      (Std.HashSet.ofList r.valueNames).contains := by
    funext name
    rw [Std.HashSet.contains_ofList, Std.HashSet.contains_ofList, hnames.contains_eq]
  simp only [repairGroups, hgroups, hcontains]

theorem Shuffled.valueNames (h : r.Shuffled r') : r'.valueNames.Perm r.valueNames :=
  (h.enums.perm.append h.bitfields.perm).map _

end Registry

open Registry in
/-- Registries that list the same commands, with different names, and the same
values, in an order that differs for values with different numbers only, have
the same normal form and the same artifacts. -/
theorem Binding.artifacts_of_shuffled {r r' : Registry} (h : r.Shuffled r')
    (hnames : (r.commands.map Command.name).Nodup) :
    r'.normalize = r.normalize ∧
      ∀ artifact : Artifact, artifact.text r'.normalize = artifact.text r.normalize := by
  have hrenamed : (r'.commands.map renameParams).Perm (r.commands.map renameParams) :=
    h.commands.map _
  have hrenamedNames : ((r.commands.map renameParams).map Command.name).Nodup := by
    rwa [List.map_map]
  have hnormalize : r'.normalize = r.normalize := by
    simp only [Registry.normalize, repairGroups_of_perm h.groups h.valueNames,
      sortByValue_of_rearranged h.enums, sortByValue_of_rearranged h.bitfields,
      sortByName_of_perm hrenamed hrenamedNames, h.versions, h.extensions]
  exact ⟨hnormalize, fun artifact => congrArg artifact.text hnormalize⟩

/-- Two ways to write one number between another one. -/
def Binding.someOrder : Registry where
  enums := [⟨"A", "0x10", .plain⟩, ⟨"C", "1", .plain⟩, ⟨"B", "16", .plain⟩]
  commands := [⟨"g", "void", []⟩, ⟨"f", "void", [{ name := "type" }]⟩]

def Binding.otherOrder : Registry where
  enums := [⟨"C", "1", .plain⟩, ⟨"A", "0x10", .plain⟩, ⟨"B", "16", .plain⟩]
  commands := [⟨"f", "void", [{ name := "type" }]⟩, ⟨"g", "void", []⟩]

open Registry in
theorem Binding.artifacts_of_shuffled_someOrder :
    someOrder.Shuffled otherOrder ∧ (someOrder.commands.map Command.name).Nodup ∧
      otherOrder.normalize = someOrder.normalize ∧
      ∀ artifact : Artifact,
        artifact.text otherOrder.normalize = artifact.text someOrder.normalize := by
  have hkeys : canonicalKey Literal.canonicalPlain ⟨"A", "0x10", .plain⟩ = 16 ∧
      canonicalKey Literal.canonicalPlain ⟨"B", "16", .plain⟩ = 16 ∧
      canonicalKey Literal.canonicalPlain ⟨"C", "1", .plain⟩ = 1 := by decide +kernel
  obtain ⟨hA, hB, hC⟩ := hkeys
  have henums : Rearranged (canonicalKey Literal.canonicalPlain) someOrder.enums
      otherOrder.enums := by
    refine ⟨by decide, fun k => ?_⟩
    simp only [someOrder, otherOrder, List.filter_cons, hA, hB, hC]
    by_cases hk : 1 = k
    · subst hk
      rfl
    · simp [hk]
  have hshuffled : someOrder.Shuffled otherOrder :=
    ⟨rfl, by decide, henums, ⟨.refl _, fun _ => rfl⟩, rfl, rfl⟩
  have hnames : (someOrder.commands.map Command.name).Nodup := by decide
  exact ⟨hshuffled, hnames, artifacts_of_shuffled hshuffled hnames⟩

end LazyGL
