import LazyGL.Proofs.Registry.Normal
import Mathlib.Algebra.BigOperators.Group.List.Basic
import Mathlib.Algebra.Order.BigOperators.Group.List

/-!
What the repair of groups drops. A member is counted in every group that lists
it, so it does not matter for the members whether a group goes: by then it has
none, be it that it has lost them or that it never had any. Main statement: the
warning tells by how much both counts have gone down, it is given if and only if
the groups have changed, and the members that are kept are those that name a
value.
-/

namespace LazyGL.Registry

/-- The members of all groups, each counted in every group that lists it. -/
def memberCount (groups : OrderedMap String (OrderedSet String)) : Nat :=
  (groups.values.map OrderedSet.size).sum

def Lists (groups : OrderedMap String (OrderedSet String)) (group member : String) : Prop :=
  ∃ members, (group, members) ∈ groups.entries ∧ member ∈ members.toList

def repairMembers (r : Registry) (members : OrderedSet String) : OrderedSet String :=
  members.filter (Std.HashSet.ofList r.valueNames).contains

/-- The groups as they are before those without members go. -/
def keptMembers (r : Registry) : OrderedMap String (OrderedSet String) :=
  r.groups.mapValues r.repairMembers

variable {r : Registry}

/-! ### Members -/

theorem mem_repairMembers {members : OrderedSet String} {member : String} :
    member ∈ (r.repairMembers members).toList ↔
      member ∈ members.toList ∧ ∃ e ∈ r.enums ++ r.bitfields, e.name = member := by
  rw [repairMembers, OrderedSet.toList_filter, List.mem_filter, Std.HashSet.contains_ofList,
    List.contains_iff_mem, valueNames, List.mem_map]

theorem size_repairMembers_le (members : OrderedSet String) :
    (r.repairMembers members).size ≤ members.size :=
  List.length_filter_le _ _

/-- A group that has as many members as before has lost none. -/
theorem repairMembers_eq_self {members : OrderedSet String}
    (h : members.size - (r.repairMembers members).size = 0) :
    r.repairMembers members = members := by
  have hsize : (r.repairMembers members).size = members.size :=
    Nat.le_antisymm (size_repairMembers_le members) (Nat.sub_eq_zero_iff_le.mp h)
  exact OrderedSet.filter_eq_self (List.length_filter_eq_length_iff.mp hsize)

/-- What the repair counts is what each group has lost. -/
theorem droppedMembers_eq_sum (r : Registry) :
    r.repairGroups.droppedMembers =
      (r.groups.values.map fun members => members.size - (r.repairMembers members).size).sum := by
  have hfold (start : Nat) (groups : List (OrderedSet String)) :
      groups.foldl (fun dropped members =>
        dropped + (members.size - (r.repairMembers members).size)) start =
      start + (groups.map fun members => members.size - (r.repairMembers members).size).sum := by
    induction groups generalizing start with
    | nil => rfl
    | cons members groups ih =>
        rw [List.foldl_cons, ih, List.map_cons, List.sum_cons, Nat.add_assoc]
  exact (hfold 0 r.groups.values).trans (Nat.zero_add _)

theorem memberCount_keptMembers (r : Registry) :
    memberCount r.keptMembers =
      (r.groups.values.map fun members => (r.repairMembers members).size).sum := by
  simp [memberCount, keptMembers, OrderedMap.values, Function.comp_def]

/-! ### Groups -/

theorem groups_normalize (r : Registry) :
    r.normalize.groups = r.keptMembers.filterValues fun members => !members.toList.isEmpty :=
  rfl

/-- A group without members adds nothing to their number. -/
theorem memberCount_filterValues (groups : OrderedMap String (OrderedSet String)) :
    memberCount (groups.filterValues fun members => !members.toList.isEmpty) =
      memberCount groups := by
  rw [memberCount, memberCount, OrderedMap.values, OrderedMap.values,
    OrderedMap.entries_filterValues]
  induction groups.entries with
  | nil => rfl
  | cons entry entries ih =>
      obtain ⟨group, members⟩ := entry
      cases hmembers : members.toList with
      | nil => simpa [hmembers, OrderedSet.size] using ih
      | cons member rest => simpa [hmembers] using ih

theorem memberCount_normalize (r : Registry) :
    memberCount r.normalize.groups + r.repairGroups.droppedMembers = memberCount r.groups := by
  have hgroup (members : OrderedSet String) :
      (r.repairMembers members).size + (members.size - (r.repairMembers members).size) =
        members.size :=
    Nat.add_sub_of_le (size_repairMembers_le members)
  calc memberCount r.normalize.groups + r.repairGroups.droppedMembers
      = (r.groups.values.map fun members => (r.repairMembers members).size).sum +
          (r.groups.values.map fun members =>
            members.size - (r.repairMembers members).size).sum := by
        rw [groups_normalize, memberCount_filterValues, memberCount_keptMembers,
          droppedMembers_eq_sum]
    _ = (r.groups.values.map fun members => (r.repairMembers members).size +
          (members.size - (r.repairMembers members).size)).sum := List.sum_map_add.symm
    _ = memberCount r.groups := by simp only [hgroup, memberCount]

theorem size_normalize_groups (r : Registry) :
    r.normalize.groups.size + r.repairGroups.droppedGroups = r.groups.size := by
  have hle : r.normalize.groups.size ≤ r.groups.size := by
    rw [groups_normalize, OrderedMap.size, OrderedMap.entries_filterValues]
    refine (List.length_filter_le _ _).trans (Nat.le_of_eq ?_)
    rw [keptMembers, OrderedMap.entries_mapValues, List.length_map, OrderedMap.size]
  exact Nat.add_sub_of_le hle

/-- Groups from which nothing is dropped stay as they are. -/
theorem groups_normalize_eq_iff :
    r.normalize.groups = r.groups ↔
      r.repairGroups.droppedMembers = 0 ∧ r.repairGroups.droppedGroups = 0 := by
  constructor
  · intro hsame
    have hmembers := memberCount_normalize r
    have hgroups := size_normalize_groups r
    rw [hsame] at hmembers hgroups
    omega
  · rintro ⟨hmembers, hgroups⟩
    have hkept : r.keptMembers = r.groups := by
      rw [droppedMembers_eq_sum, List.sum_eq_zero_iff, List.forall_mem_map] at hmembers
      exact OrderedMap.mapValues_eq_self fun members hmem =>
        repairMembers_eq_self (hmembers members hmem)
    have hsize := size_normalize_groups r
    rw [groups_normalize, hkept, hgroups, Nat.add_zero] at hsize
    rw [groups_normalize, hkept]
    exact OrderedMap.ext (List.filter_eq_self.mpr (List.length_filter_eq_length_iff.mp hsize))

/-- The members that a group keeps are those that name a value. -/
theorem lists_normalize_iff {group member : String} :
    Lists r.normalize.groups group member ↔
      Lists r.groups group member ∧ ∃ e ∈ r.enums ++ r.bitfields, e.name = member := by
  simp only [Lists, groups_normalize, keptMembers, OrderedMap.entries_filterValues,
    OrderedMap.entries_mapValues, List.mem_filter, List.mem_map]
  constructor
  · rintro ⟨_, ⟨⟨⟨_, members⟩, hentry, ⟨⟩⟩, -⟩, hmember⟩
    obtain ⟨hmember, hvalue⟩ := mem_repairMembers.mp hmember
    exact ⟨⟨members, hentry, hmember⟩, hvalue⟩
  · rintro ⟨⟨members, hentry, hmember⟩, hvalue⟩
    have hkept := mem_repairMembers.mpr ⟨hmember, hvalue⟩
    exact ⟨_, ⟨⟨_, hentry, rfl⟩, by simpa using List.ne_nil_of_mem hkept⟩, hkept⟩

/-- The normal form is logged with a warning if and only if it has other groups
than the registry. The warning is the only one, and its numbers are the
differences of the members, wherever they were listed, and of the groups, with
members or without. A member is kept if it names a value and dropped if not. -/
theorem normalizeLog_accounts (r : Registry) :
    ∃ members groups,
      memberCount r.normalize.groups + members = memberCount r.groups ∧
      r.normalize.groups.size + groups = r.groups.size ∧
      r.normalizeLog = (if r.normalize.groups = r.groups then [] else
        [⟨.warn, "dropped " ++ toString members ++ " unknown group members and " ++
          toString groups ++ " empty groups"⟩]) ∧
      ∀ group member, Lists r.normalize.groups group member ↔
        Lists r.groups group member ∧ ∃ e ∈ r.enums ++ r.bitfields, e.name = member := by
  refine ⟨_, _, memberCount_normalize r, size_normalize_groups r, ?_,
    fun _ _ => lists_normalize_iff⟩
  have hdropped : r.normalize.groups = r.groups ↔
      ¬(0 < r.repairGroups.droppedMembers ∨ 0 < r.repairGroups.droppedGroups) := by
    rw [groups_normalize_eq_iff]
    omega
  rw [normalizeLog, GroupRepair.log]
  by_cases hchanged : 0 < r.repairGroups.droppedMembers ∨ 0 < r.repairGroups.droppedGroups
  · rw [if_pos hchanged, if_neg fun hsame => hdropped.mp hsame hchanged]
  · rw [if_neg hchanged, if_pos (hdropped.mpr hchanged)]

end LazyGL.Registry
