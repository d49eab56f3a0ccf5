import LazyGL.Proofs.Registry.Normal
import LazyGL.Proofs.Sorting
import LazyGL.Proofs.Text.ByteOrder
import Mathlib.Data.List.Forall2

/-!
What the normal form keeps of a registry. Each command and each value is changed
where it stands, in its name for a parameter or in the text of its number and
nowhere else, and then the lists are sorted so that what ties keeps its order.
Tags and groups only lose what is redundant, and what is left of them keeps its
order too. Main statement: this fixes the normal form, list by list.
-/

namespace LazyGL

structure Param.Renamed (before after : Param) : Prop where
  /-- Nothing but the name may change. -/
  rest : after = { before with name := after.name }
  usable : before.name ∉ Identifier.reserved → after.name = before.name
  reserved : before.name ∈ Identifier.reserved →
    Identifier.substitute? before.name = some after.name
  free : after.name ∉ Identifier.reserved

structure Command.Renamed (before after : Command) : Prop where
  name : after.name = before.name
  returnType : after.returnType = before.returnType
  params : List.Forall₂ Param.Renamed before.params after.params

structure Enumerant.Rewritten (canonical : Int64 → String) (before after : Enumerant) : Prop where
  name : after.name = before.name
  kind : after.kind = before.kind
  numeral : ∀ n, Literal.value? before.value = some n → after.value = canonical n
  other : Literal.value? before.value = none → after.value = before.value

namespace Registry

/-! ### Entries -/

theorem renamed_usable (p : Param) : p.Renamed { p with name := Identifier.usable p.name } where
  rest := rfl
  usable := Identifier.usable_of_not_reserved
  reserved hname := by
    -- a reserved word has a substitute
    have hsome : (Identifier.substitute? p.name).isSome := by
      unfold Identifier.substitute?
      split
      · rfl
      · rfl
    obtain ⟨substitute, hsubstitute⟩ := Option.isSome_iff_exists.mp hsome
    simp only [Identifier.usable, hsubstitute, Option.getD_some]
  free := by
    by_cases hname : p.name ∈ Identifier.reserved
    · exact Identifier.usable_not_reserved p.name hname
    · rwa [Identifier.usable_of_not_reserved hname]

theorem renamed_renameParams (c : Command) : c.Renamed (renameParams c) where
  name := rfl
  returnType := rfl
  params := by
    rw [renameParams, List.forall₂_map_right_iff, List.forall₂_same]
    exact fun p _ => renamed_usable p

theorem rewritten_canonicalize (canonical : Int64 → String) (e : Enumerant) :
    e.Rewritten canonical (canonicalize canonical e) := by
  unfold canonicalize
  split
  · next n hn =>
      refine ⟨rfl, rfl, fun m hm => ?_, fun hnone => ?_⟩
      · rw [hn, Option.some.injEq] at hm
        rw [hm]
      · rw [hn] at hnone
        cases hnone
  · next hnone =>
      refine ⟨rfl, rfl, fun n hn => ?_, fun _ => rfl⟩
      rw [hnone] at hn
      cases hn

/-! ### Lists -/

theorem stablySorted_sortByValue (es : List Enumerant) :
    StablySorted sortKey es (sortByValue es) :=
  stablySorted_mergeSort sortKey Int.le_trans Int.le_total es

/-- What is no numeral counts as the greatest number of 64 bits. -/
theorem sortKey_eq :
    sortKey = fun e => ((Literal.value? e.value).getD Int64.maxValue).toInt := by
  funext e
  unfold sortKey
  cases Literal.value? e.value <;> rfl

/-- Commands are in the order of the bytes of their names. -/
theorem stablySorted_sortByName (commands : List Command) :
    StablySorted (fun c : Command => Utf8.ofString c.name) commands (sortByName commands) := by
  have hbytes : sortByName commands =
      commands.mergeSort fun a b => Utf8.ofString a.name ≤ Utf8.ofString b.name := by
    simp only [sortByName, Utf8.ofString_le_iff]
  rw [hbytes]
  exact stablySorted_mergeSort _ List.le_trans List.le_total commands

/-! ### Groups -/

def groupLists (r : Registry) : List (String × List String) :=
  r.groups.entries.map fun (group, members) => (group, members.toList)

theorem groupLists_normalize (r : Registry) :
    r.normalize.groupLists =
      (r.groupLists.map fun (group, members) =>
        (group, members.filter fun member => member ∈ r.valueNames)).filter
          fun (_, members) => members ≠ [] := by
  have hnames : (Std.HashSet.ofList r.valueNames).contains =
      fun member => decide (member ∈ r.valueNames) := by
    funext member
    rw [Std.HashSet.contains_ofList, Bool.eq_iff_iff, List.contains_iff_mem, decide_eq_true_eq]
  simp only [groupLists, normalize, repairGroups, hnames, OrderedMap.entries_filterValues,
    OrderedMap.entries_mapValues, List.filter_map, List.map_map]
  refine congrArg _ (List.filter_congr fun entry _ => ?_)
  rw [Bool.eq_iff_iff]
  simp only [Function.comp_apply, OrderedSet.toList_filter, Bool.not_eq_true',
    List.isEmpty_eq_false_iff, decide_eq_true_eq]

/-! ### Whole registries -/

/-- The commands of a normal form are those of the registry with usable names of
parameters, and its values are those of the registry with canonical numbers,
stably sorted by the bytes of the names and by the numbers, where a value that is
no numeral counts as the greatest number of 64 bits. A command loses the second
embedded version if it has the first one, it keeps its other tags, and the groups
keep their order and the members that name a value, unless there are none. -/
theorem normalize_conserves (r : Registry) :
    (∃ renamed, List.Forall₂ Command.Renamed r.commands renamed ∧
      StablySorted (fun c : Command => Utf8.ofString c.name) renamed r.normalize.commands) ∧
    (∃ plain, List.Forall₂ (Enumerant.Rewritten Literal.canonicalPlain) r.enums plain ∧
      StablySorted (fun e : Enumerant => ((Literal.value? e.value).getD Int64.maxValue).toInt)
        plain r.normalize.enums) ∧
    (∃ masks, List.Forall₂ (Enumerant.Rewritten Literal.canonicalMask) r.bitfields masks ∧
      StablySorted (fun e : Enumerant => ((Literal.value? e.value).getD Int64.maxValue).toInt)
        masks r.normalize.bitfields) ∧
    (∀ command, r.normalize.versions.get? command = (r.versions.get? command).map fun tags =>
      if .added .es 1 0 ∈ tags then tags.filter fun tag => tag ≠ .added .es 2 0 else tags) ∧
    r.normalize.extensions = r.extensions ∧
    r.normalize.groupLists =
      (r.groupLists.map fun (group, members) =>
        (group, members.filter fun member => member ∈ r.valueNames)).filter
          fun (_, members) => members ≠ [] := by
  have hrewritten (canonical : Int64 → String) (es : List Enumerant) :
      List.Forall₂ (Enumerant.Rewritten canonical) es (es.map (canonicalize canonical)) := by
    rw [List.forall₂_map_right_iff, List.forall₂_same]
    exact fun e _ => rewritten_canonicalize canonical e
  have hrenamed : List.Forall₂ Command.Renamed r.commands (r.commands.map renameParams) := by
    rw [List.forall₂_map_right_iff, List.forall₂_same]
    exact fun c _ => renamed_renameParams c
  rw [← sortKey_eq]
  exact ⟨⟨_, hrenamed, stablySorted_sortByName _⟩,
    ⟨_, hrewritten _ r.enums, stablySorted_sortByValue _⟩,
    ⟨_, hrewritten _ r.bitfields, stablySorted_sortByValue _⟩,
    OrderedMap.get?_mapValues dropRedundant r.versions, rfl, groupLists_normalize r⟩

end Registry

end LazyGL
