import LazyGL.Binding.Target
import LazyGL.Proofs.Registry.Normal
import Mathlib.Data.List.Nodup

/-!
Parameters that are told apart by their names. A reserved name gets a substitute
for which the other names are not looked at, and it can be one of them. Main
statement: that is the only way for two parameters with different names to end
up under one name.
-/

namespace LazyGL

namespace Identifier

variable {a b : String}

theorem substitute?_eq_some_iff : substitute? a = some b ↔ a ∈ reserved ∧ usable a = b := by
  by_cases h : a ∈ reserved
  · have hsome : (substitute? a).isSome := by
      unfold substitute?
      split <;> rfl
    obtain ⟨substitute, hsubstitute⟩ := Option.isSome_iff_exists.mp hsome
    simp [usable, hsubstitute, h]
  · have hmark : a ∉ unmarkable := fun hmem => h (mem_reserved_of_unmarkable a hmem)
    simp [substitute?, hmark, h]

/-- Reserved names have different substitutes, though they are made in two ways. -/
theorem nodup_map_usable_reserved : (reserved.map usable).Nodup := by
  decide +kernel

/-- Two names become the same one if one of them is the substitute of the other. -/
theorem usable_eq_usable_iff :
    usable a = usable b ↔ a = b ∨ substitute? a = some b ∨ substitute? b = some a := by
  simp only [substitute?_eq_some_iff]
  by_cases ha : a ∈ reserved
  · by_cases hb : b ∈ reserved
    · -- a substitute is not reserved, so neither name is the other one's
      have hab : usable a ≠ b := fun h => usable_not_reserved a ha (h ▸ hb)
      have hba : usable b ≠ a := fun h => usable_not_reserved b hb (h ▸ ha)
      simp only [hab, hba, and_false, or_false]
      exact ⟨List.inj_on_of_nodup_map nodup_map_usable_reserved ha hb, congrArg usable⟩
    · have hne : a ≠ b := fun h => hb (h ▸ ha)
      simp [usable_of_not_reserved hb, ha, hb, hne]
  · by_cases hb : b ∈ reserved
    · have hne : a ≠ b := fun h => ha (h ▸ hb)
      simp [usable_of_not_reserved ha, ha, hb, hne, eq_comm]
    · simp [usable_of_not_reserved ha, usable_of_not_reserved hb, ha, hb]

theorem nodup_map_usable_iff {names : List String} (h : names.Nodup) :
    (names.map usable).Nodup ↔ ∀ a ∈ names, ∀ b ∈ names, substitute? a ≠ some b := by
  rw [List.nodup_map_iff_inj_on h]
  constructor
  · intro hinj a ha b hb hsubstitute
    obtain rfl : a = b := hinj a ha b hb (usable_eq_usable_iff.mpr (.inr (.inl hsubstitute)))
    obtain ⟨hreserved, husable⟩ := substitute?_eq_some_iff.mp hsubstitute
    exact usable_not_reserved a hreserved (husable.symm ▸ hreserved)
  · intro hfree a ha b hb husable
    rcases usable_eq_usable_iff.mp husable with rfl | hsubstitute | hsubstitute
    · rfl
    · exact absurd hsubstitute (hfree a ha b hb)
    · exact absurd hsubstitute (hfree b hb a ha)

end Identifier

def Command.paramNames (command : Command) : List String :=
  command.params.map Param.name

namespace Binding

def Signature.names (s : Signature) : List String :=
  s.params.map fun (param, _) => param.name

theorem Signature.names_ofCommand (command : Command) :
    (Signature.ofCommand command).names = command.paramNames := by
  rw [Signature.names, Signature.ofCommand, List.map_map]
  rfl

theorem paramNames_renameParams (command : Command) :
    (Registry.renameParams command).paramNames = command.paramNames.map Identifier.usable := by
  simp only [Command.paramNames, Registry.renameParams, List.map_map]
  rfl

variable {r : Registry} {command : Command}

/-- A command whose parameters have different names is declared with different
names if no substitute of a name is the name of another parameter, and only then. -/
theorem names_nodup_iff (h : command ∈ r.commands) (hnames : command.paramNames.Nodup) :
    Registry.renameParams command ∈ r.normalize.commands ∧
      ((Signature.ofCommand (Registry.renameParams command)).names.Nodup ↔
        ∀ a ∈ command.paramNames, ∀ b ∈ command.paramNames,
          Identifier.substitute? a ≠ some b) := by
  refine ⟨(List.mergeSort_perm _ _).mem_iff.mpr (List.mem_map_of_mem h), ?_⟩
  rw [Signature.names_ofCommand, paramNames_renameParams]
  exact Identifier.nodup_map_usable_iff hnames

/-- A command with two reserved names, and with a name that looks like a substitute. -/
def marked : Command :=
  ⟨"glCopy", "void", [{ name := "type" }, { name := "type_" }, { name := "self" }]⟩

theorem names_nodup_iff_marked :
    marked ∈ Registry.commands { commands := [marked] } ∧ marked.paramNames.Nodup ∧
      Registry.renameParams marked ∈ (Registry.normalize { commands := [marked] }).commands ∧
      (Signature.ofCommand (Registry.renameParams marked)).names.Nodup := by
  have hmem : marked ∈ Registry.commands { commands := [marked] } := List.mem_singleton_self _
  have hnames : marked.paramNames.Nodup := by decide
  obtain ⟨hnormal, hiff⟩ := names_nodup_iff hmem hnames
  exact ⟨hmem, hnames, hnormal, hiff.mpr (by decide)⟩

/-- A name and its substitute are told apart in a registry, but no longer in its
normal form. -/
theorem paramNames_not_nodup :
    ¬∀ (r : Registry), (∀ command ∈ r.commands, command.paramNames.Nodup) →
      ∀ command ∈ r.normalize.commands, command.paramNames.Nodup := by
  intro h
  let command : Command := ⟨"glCopy", "void", [{ name := "self" }, { name := "self_" }]⟩
  let r : Registry := { commands := [command] }
  have hapart : ∀ command ∈ r.commands, command.paramNames.Nodup := by decide
  have hnormal : Registry.renameParams command ∈ r.normalize.commands :=
    (List.mergeSort_perm _ _).mem_iff.mpr (List.mem_singleton_self _)
  have hsame : (Registry.renameParams command).paramNames = ["self_", "self_"] := by decide
  have htogether := h r hapart _ hnormal
  rw [hsame] at htogether
  exact absurd htogether (by decide)

end Binding

end LazyGL
