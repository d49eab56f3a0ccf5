import LazyGL.Registry.Normal
import LazyGL.Proofs.Ordered
import LazyGL.Proofs.Registry.Literal
import Std.Data.HashSet.Lemmas

/-!
What the normal form of a registry is. Each repair has a property that it
brings about and that the other repairs keep: together these are what it means
for a registry to be normal. A normal registry is its own normal form, and
nothing is dropped from it.
-/

namespace LazyGL

/-! ### Names -/

theorem Identifier.mem_reserved_of_unmarkable : ∀ name ∈ unmarkable, name ∈ reserved := by
  decide

theorem Identifier.usable_of_not_reserved {name : String} (h : name ∉ reserved) :
    usable name = name := by
  have hmark : name ∉ unmarkable := fun hmem => h (mem_reserved_of_unmarkable name hmem)
  rw [usable, substitute?, if_neg hmark, if_neg h]
  rfl

/-- No substitute is reserved in its turn. -/
theorem Identifier.usable_not_reserved : ∀ name ∈ reserved, usable name ∉ reserved := by
  decide +kernel

theorem Identifier.usable_usable (name : String) : usable (usable name) = usable name := by
  by_cases h : name ∈ reserved
  · exact usable_of_not_reserved (usable_not_reserved name h)
  · rw [usable_of_not_reserved h, usable_of_not_reserved h]

namespace Registry

theorem renameParams_renameParams (command : Command) :
    renameParams (renameParams command) = renameParams command := by
  simp [renameParams, Identifier.usable_usable, Function.comp_def]

/-! ### Values -/

theorem canonicalize_canonicalize {canonical : Int64 → String}
    (h : Literal.ReadsBack canonical) (e : Enumerant) :
    canonicalize canonical (canonicalize canonical e) = canonicalize canonical e := by
  cases hvalue : Literal.value? e.value with
  | none =>
      have hsame : canonicalize canonical e = e := by
        simp only [canonicalize, hvalue]
      rw [hsame, hsame]
  | some value =>
      obtain ⟨reading, hread, htext⟩ := h value
      simp only [canonicalize, hvalue, hread, htext]

theorem name_canonicalize (canonical : Int64 → String) (e : Enumerant) :
    (canonicalize canonical e).name = e.name := by
  unfold canonicalize
  split <;> rfl

/-- What holds of each value in canonical form holds of them in ascending order. -/
theorem forall_mem_sortByValue {canonical : Int64 → String} {es : List Enumerant}
    {P : Enumerant → Prop} (h : ∀ e ∈ es, P (canonicalize canonical e)) :
    ∀ e ∈ sortByValue (es.map (canonicalize canonical)), P e := by
  intro e he
  obtain ⟨e, hmem, rfl⟩ := List.mem_map.mp ((List.mergeSort_perm _ _).mem_iff.mp he)
  exact h e hmem

theorem pairwise_sortByValue (es : List Enumerant) :
    (sortByValue es).Pairwise fun a b => sortKey a ≤ sortKey b :=
  pairwise_mergeSort_key sortKey Int.le_trans Int.le_total es

theorem pairwise_sortByName (commands : List Command) :
    (sortByName commands).Pairwise fun a b => a.name ≤ b.name :=
  pairwise_mergeSort_key Command.name String.le_trans String.le_total commands

/-! ### Tags -/

theorem dropRedundant_dropRedundant (tags : List VersionTag) :
    dropRedundant (dropRedundant tags) = dropRedundant tags := by
  by_cases h : .added .es 1 0 ∈ tags
  · -- what makes the other tag redundant is not dropped itself
    have hkept : .added .es 1 0 ∈ tags.filter fun tag => tag ≠ .added .es 2 0 :=
      List.mem_filter.mpr ⟨h, by decide⟩
    rw [dropRedundant, dropRedundant, if_pos h, if_pos hkept, List.filter_filter]
    simp
  · rw [dropRedundant, dropRedundant, if_neg h, if_neg h]

/-! ### Normal registries -/

/-- What every normal form has, and all that it takes to be one. -/
structure Normal (r : Registry) : Prop where
  known : ∀ members ∈ r.groups.values, ∀ member ∈ members.toList, member ∈ r.valueNames
  inhabited : ∀ members ∈ r.groups.values, members.toList ≠ []
  plain : ∀ e ∈ r.enums, canonicalize Literal.canonicalPlain e = e
  plainSorted : r.enums.Pairwise fun a b => sortKey a ≤ sortKey b
  masks : ∀ e ∈ r.bitfields, canonicalize Literal.canonicalMask e = e
  masksSorted : r.bitfields.Pairwise fun a b => sortKey a ≤ sortKey b
  params : ∀ command ∈ r.commands, renameParams command = command
  commandsSorted : r.commands.Pairwise fun a b => a.name ≤ b.name
  irredundant : ∀ tags ∈ r.versions.values, dropRedundant tags = tags

variable {r : Registry}

theorem normalize_values_perm (r : Registry) : r.normalize.valueNames.Perm r.valueNames := by
  have hname (canonical : Int64 → String) (es : List Enumerant) :
      ((sortByValue (es.map (canonicalize canonical))).map Enumerant.name).Perm
        (es.map Enumerant.name) := by
    refine ((List.mergeSort_perm _ _).map _).trans (.of_eq ?_)
    rw [List.map_map]
    exact List.map_congr_left fun e _ => name_canonicalize canonical e
  rw [valueNames, valueNames, List.map_append, List.map_append]
  exact (hname _ r.enums).append (hname _ r.bitfields)

theorem normalize_commandNames_perm (r : Registry) :
    (r.normalize.commands.map Command.name).Perm (r.commands.map Command.name) := by
  refine ((List.mergeSort_perm _ _).map _).trans (.of_eq ?_)
  rw [List.map_map]
  rfl

/-- The members of a group of the normal form are members of a group of the
registry that name a value. -/
theorem exists_of_mem_normalize_groups {members : OrderedSet String}
    (h : members ∈ r.normalize.groups.values) :
    members.toList ≠ [] ∧ ∃ before ∈ r.groups.values,
      before.filter (Std.HashSet.ofList r.valueNames).contains = members := by
  -- empty groups go last, after their members have been dropped
  obtain ⟨hkept, hne⟩ := OrderedMap.mem_values_filterValues.mp h
  exact ⟨by simpa using hne, OrderedMap.mem_values_mapValues.mp hkept⟩

/-- Whatever its order was, and whatever it holds, a registry has a normal form
that is normal. -/
theorem normal_normalize (r : Registry) : Normal r.normalize where
  known := by
    intro members hmembers member hmember
    obtain ⟨-, before, -, rfl⟩ := exists_of_mem_normalize_groups hmembers
    rw [OrderedSet.toList_filter, List.mem_filter, Std.HashSet.contains_ofList] at hmember
    -- the values have been sorted since, under the same names
    exact (normalize_values_perm r).mem_iff.mpr (List.contains_iff_mem.mp hmember.2)
  inhabited members hmembers := (exists_of_mem_normalize_groups hmembers).1
  plain := forall_mem_sortByValue fun e _ =>
    canonicalize_canonicalize Literal.readsBack_canonicalPlain e
  plainSorted := pairwise_sortByValue _
  masks := forall_mem_sortByValue fun e _ =>
    canonicalize_canonicalize Literal.readsBack_canonicalMask e
  masksSorted := pairwise_sortByValue _
  params := by
    intro command hcommand
    obtain ⟨command, -, rfl⟩ := List.mem_map.mp ((List.mergeSort_perm _ _).mem_iff.mp hcommand)
    exact renameParams_renameParams command
  commandsSorted := pairwise_sortByName _
  irredundant := by
    intro tags htags
    obtain ⟨before, -, rfl⟩ := OrderedMap.mem_values_mapValues.mp htags
    exact dropRedundant_dropRedundant before

theorem dropped_eq_zero {names : Std.HashSet String} {groups : List (OrderedSet String)}
    (h : ∀ members ∈ groups, members.filter names.contains = members) :
    groups.foldl (fun dropped members =>
      dropped + (members.size - (members.filter names.contains).size)) 0 = 0 := by
  induction groups with
  | nil => rfl
  | cons members groups ih =>
      obtain ⟨hmembers, hgroups⟩ := List.forall_mem_cons.mp h
      rw [List.foldl_cons, hmembers, Nat.sub_self]
      exact ih hgroups

/-- Nothing is dropped from a normal registry. -/
theorem Normal.repairGroups_eq (h : Normal r) : r.repairGroups = ⟨r.groups, 0, 0⟩ := by
  have hfilter : ∀ members ∈ r.groups.values,
      members.filter (Std.HashSet.ofList r.valueNames).contains = members := by
    intro members hmembers
    apply OrderedSet.filter_eq_self
    intro member hmember
    rw [Std.HashSet.contains_ofList]
    exact List.contains_iff_mem.mpr (h.known members hmembers member hmember)
  have hkept := OrderedMap.mapValues_eq_self hfilter
  have hinhabited : r.groups.filterValues (fun members => !members.toList.isEmpty) = r.groups := by
    apply OrderedMap.filterValues_eq_self
    intro members hmembers
    simpa using h.inhabited members hmembers
  simp only [repairGroups, hkept, hinhabited, dropped_eq_zero hfilter, Nat.sub_self]

theorem Normal.normalize_eq (h : Normal r) : r.normalize = r := by
  have hplain : r.enums.map (canonicalize Literal.canonicalPlain) = r.enums :=
    (List.map_congr_left h.plain).trans r.enums.map_id
  have hmasks : r.bitfields.map (canonicalize Literal.canonicalMask) = r.bitfields :=
    (List.map_congr_left h.masks).trans r.bitfields.map_id
  have hparams : r.commands.map renameParams = r.commands :=
    (List.map_congr_left h.params).trans r.commands.map_id
  have hversions := OrderedMap.mapValues_eq_self h.irredundant
  rw [normalize, h.repairGroups_eq, hplain, hmasks, hparams, hversions,
    sortByValue, List.mergeSort_of_pairwise (h.plainSorted.imp decide_eq_true),
    sortByValue, List.mergeSort_of_pairwise (h.masksSorted.imp decide_eq_true),
    sortByName, List.mergeSort_of_pairwise (h.commandsSorted.imp decide_eq_true)]

theorem Normal.normalizeLog_eq (h : Normal r) : r.normalizeLog = [] := by
  rw [normalizeLog, h.repairGroups_eq]
  rfl

/-- Normalizing a normal form changes nothing and logs nothing. -/
theorem normalize_normalize (r : Registry) :
    r.normalize.normalize = r.normalize ∧ r.normalize.normalizeLog = [] :=
  ⟨(normal_normalize r).normalize_eq, (normal_normalize r).normalizeLog_eq⟩

end Registry

end LazyGL
