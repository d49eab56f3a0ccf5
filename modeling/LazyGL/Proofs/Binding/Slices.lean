import LazyGL.Proofs.Binding.Emission
import LazyGL.Proofs.Registry.Normal

/-!
What each artifact reads of a registry. The call surfaces and the resolvers are
made of the commands and of the tags under their names; tags under other names
are kept in the same maps, but they get neither into the table nor before it.
The constants are made of the values and of the groups.

Main statement: two registries that agree on what an artifact reads have the
same artifact, and the same log, once they are in normal form.
-/

namespace LazyGL

namespace Registry

/-- Registries with the same commands, and with the same tags for each of them. -/
structure SameGating (r r' : Registry) : Prop where
  commands : r'.commands = r.commands
  versions : ∀ name ∈ r.commands.map Command.name, r'.versionTags name = r.versionTags name
  extensions : ∀ name ∈ r.commands.map Command.name, r'.extensionTags name = r.extensionTags name

/-- Registries with the same values and with the same groups. -/
structure SameValues (r r' : Registry) : Prop where
  groups : r'.groups = r.groups
  enums : r'.enums = r.enums
  bitfields : r'.bitfields = r.bitfields

variable {r r' : Registry}

/-! ### Normal forms -/

theorem versionTags_normalize (r : Registry) (name : String) :
    r.normalize.versionTags name = dropRedundant (r.versionTags name) := by
  rw [versionTags, versionTags, normalize, OrderedMap.get?_mapValues]
  -- a command without tags has none to drop
  cases r.versions.get? name with
  | none => rfl
  | some tags => rfl

theorem extensionTags_normalize (r : Registry) (name : String) :
    r.normalize.extensionTags name = r.extensionTags name := rfl

/-- The tags of each command are changed on their own. -/
theorem SameGating.normalize (h : r.SameGating r') : r.normalize.SameGating r'.normalize where
  commands := by
    simp only [Registry.normalize, h.commands]
  versions name hname := by
    rw [(normalize_commandNames_perm r).mem_iff] at hname
    rw [versionTags_normalize, versionTags_normalize, h.versions name hname]
  extensions name hname := by
    rw [(normalize_commandNames_perm r).mem_iff] at hname
    rw [extensionTags_normalize, extensionTags_normalize, h.extensions name hname]

theorem SameValues.normalize (h : r.SameValues r') : r.normalize.SameValues r'.normalize where
  groups := by
    simp only [Registry.normalize, repairGroups, valueNames, h.groups, h.enums, h.bitfields]
  enums := by
    simp only [Registry.normalize, h.enums]
  bitfields := by
    simp only [Registry.normalize, h.bitfields]

theorem SameGating.candidateTags (h : r.SameGating r') {command : Command}
    (hcommand : command ∈ r.commands) :
    r'.candidateTags command.name = r.candidateTags command.name := by
  have hname : command.name ∈ r.commands.map Command.name := List.mem_map_of_mem hcommand
  rw [Registry.candidateTags, h.versions _ hname, h.extensions _ hname, ← Registry.candidateTags]

end Registry

namespace Binding

open Registry

variable {r r' : Registry}

/-! ### Scripts -/

theorem Resolver.tagTable_of_sameGating (h : r.SameGating r') : tagTable r' = tagTable r := by
  have htags : (r.commands.flatMap fun command => r'.candidateTags command.name) =
      r.commands.flatMap fun command => r.candidateTags command.name :=
    List.flatMap_congr fun _ => h.candidateTags
  rw [tagTable, tagTable, h.commands, htags]

theorem Resolver.script_of_sameGating (h : r.SameGating r') : script r' = script r := by
  have hresolvers : r.commands.flatMap (resolver r' (tagTable r)) =
      r.commands.flatMap (resolver r (tagTable r)) := by
    refine List.flatMap_congr fun command hcommand => ?_
    rw [resolver, resolver, h.candidateTags hcommand]
  rw [script, script, tagTable_of_sameGating h, h.commands, hresolvers]

theorem CallSurface.script_of_sameGating (h : r.SameGating r') : script r' = script r := by
  rw [script, script, h.commands]

theorem Constant.script_of_sameValues (h : r.SameValues r') : script r' = script r := by
  rw [script, script, h.groups, h.enums, h.bitfields]

/-- Neither the values nor the tags of what is no command are seen in the call
surfaces and the resolvers, and neither commands nor tags are in the constants. -/
theorem artifacts_of_slices (r r' : Registry) :
    (r.SameGating r' → ∀ artifact ∈ [Artifact.commands, .loaders],
      artifact.text r'.normalize = artifact.text r.normalize ∧
        artifact.log r'.normalize = artifact.log r.normalize) ∧
    (r.SameValues r' →
      Artifact.constants.text r'.normalize = Artifact.constants.text r.normalize ∧
        Artifact.constants.log r'.normalize = Artifact.constants.log r.normalize) := by
  have hsame {artifact : Artifact}
      (hscript : artifact.script r'.normalize = artifact.script r.normalize) :
      artifact.text r'.normalize = artifact.text r.normalize ∧
        artifact.log r'.normalize = artifact.log r.normalize := by
    simp only [Artifact.text_eq, Artifact.log_eq, hscript, and_self]
  constructor
  · intro hgating artifact hartifact
    apply hsame
    simp only [List.mem_cons, List.not_mem_nil, or_false] at hartifact
    rcases hartifact with rfl | rfl
    · exact CallSurface.script_of_sameGating hgating.normalize
    · exact Resolver.script_of_sameGating hgating.normalize
  · intro hvalues
    exact hsame (Constant.script_of_sameValues hvalues.normalize)

def plainSlice : Registry where
  enums := [⟨"A", "0x10", .plain⟩]
  commands := [⟨"glB", "void", []⟩]
  versions := ⟨[("glB", [.added .es 1 0, .added .es 2 0])], by decide⟩

/-- The same command between tags of what is no command. -/
def strayTags : Registry where
  groups := ⟨[("G", OrderedSet.empty.insert "A")], by decide⟩
  bitfields := [⟨"C", "1", .bitmask⟩]
  commands := [⟨"glB", "void", []⟩]
  versions := ⟨[("glA", [.added .core 1 1]), ("glB", [.added .es 1 0, .added .es 2 0])], by decide⟩
  extensions := ⟨[("glC", [⟨"EXT_a"⟩]), ("glB", [])], by decide⟩

def otherCommand : Registry where
  enums := [⟨"A", "0x10", .plain⟩]
  commands := [⟨"glD", "GLint", []⟩]
  extensions := ⟨[("glD", [⟨"EXT_d"⟩])], by decide⟩

theorem artifacts_of_slices_strayTags :
    plainSlice.SameGating strayTags ∧
      (∀ artifact ∈ [Artifact.commands, .loaders],
        artifact.text strayTags.normalize = artifact.text plainSlice.normalize ∧
          artifact.log strayTags.normalize = artifact.log plainSlice.normalize) ∧
      plainSlice.SameValues otherCommand ∧
      Artifact.constants.text otherCommand.normalize =
        Artifact.constants.text plainSlice.normalize := by
  have hgating : plainSlice.SameGating strayTags := ⟨rfl, by decide, by decide⟩
  have hvalues : plainSlice.SameValues otherCommand := ⟨rfl, rfl, rfl⟩
  exact ⟨hgating, (artifacts_of_slices _ _).1 hgating, hvalues,
    ((artifacts_of_slices _ _).2 hvalues).1⟩

end Binding

end LazyGL
