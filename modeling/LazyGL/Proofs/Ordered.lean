import LazyGL.Ordered.Map
import LazyGL.Ordered.Set

/-!
Collections that keep an order. A map or a set is unchanged by a step that
changes none of its values or drops none of its members, and a list sorted by a
key is in ascending order of that key.
-/

namespace LazyGL

namespace OrderedMap

variable {α β : Type}

theorem mapValues_eq_self {f : β → β} {m : OrderedMap α β} (h : ∀ v ∈ m.values, f v = v) :
    m.mapValues f = m := by
  apply ext
  rw [entries_mapValues]
  have hentry : ∀ entry ∈ m.entries, (entry.1, f entry.2) = entry := by
    rintro ⟨k, v⟩ hentry
    rw [h v (List.mem_map_of_mem hentry)]
  exact (List.map_congr_left hentry).trans m.entries.map_id

theorem filterValues_eq_self {p : β → Bool} {m : OrderedMap α β} (h : ∀ v ∈ m.values, p v) :
    m.filterValues p = m := by
  apply ext
  rw [entries_filterValues, List.filter_eq_self]
  rintro ⟨k, v⟩ hentry
  exact h v (List.mem_map_of_mem hentry)

theorem mem_values_mapValues {f : β → β} {m : OrderedMap α β} {w : β} :
    w ∈ (m.mapValues f).values ↔ ∃ v ∈ m.values, f v = w := by
  have hvalues : (m.mapValues f).values = m.values.map f := by
    simp [values]
  rw [hvalues, List.mem_map]

theorem get?_mapValues [DecidableEq α] {γ : Type} (f : β → γ) (m : OrderedMap α β) (key : α) :
    (m.mapValues f).get? key = (m.get? key).map f := by
  rw [get?, get?, entries_mapValues]
  induction m.entries with
  | nil => rfl
  | cons entry entries ih =>
      rw [List.map_cons, List.lookup_cons, List.lookup_cons, ih]
      cases key == entry.1 <;> rfl

/-- Each entry is found under its key. -/
theorem get?_of_mem [DecidableEq α] {m : OrderedMap α β} {key : α} {v : β}
    (h : (key, v) ∈ m.entries) : m.get? key = some v := by
  have hkeys := m.nodup_keys
  rw [get?]
  generalize m.entries = entries at h hkeys
  induction entries with
  | nil => cases h
  | cons entry entries ih =>
      obtain ⟨hnew, hkeys⟩ := List.nodup_cons.mp hkeys
      rcases List.mem_cons.mp h with rfl | h
      · exact List.lookup_cons_self
      · have hne : key ≠ entry.1 := by
          rintro rfl
          exact hnew (List.mem_map.mpr ⟨_, h, rfl⟩)
        rw [List.lookup_cons, beq_eq_false_iff_ne.mpr hne]
        exact ih h hkeys

theorem mem_values_filterValues {p : β → Bool} {m : OrderedMap α β} {v : β} :
    v ∈ (m.filterValues p).values ↔ v ∈ m.values ∧ p v := by
  simp [values]

end OrderedMap

theorem OrderedSet.filter_eq_self {α : Type} {p : α → Bool} {s : OrderedSet α}
    (h : ∀ a ∈ s.toList, p a) : s.filter p = s := by
  apply OrderedSet.ext
  rwa [OrderedSet.toList_filter, List.filter_eq_self]

/-- The order of the keys need not be that of their type's instances: a
transitive and total one will do. -/
theorem pairwise_mergeSort_key {α β : Type} [LE β] [DecidableLE β] (key : α → β)
    (htrans : ∀ {a b c : β}, a ≤ b → b ≤ c → a ≤ c) (htotal : ∀ a b : β, a ≤ b ∨ b ≤ a)
    (l : List α) :
    (l.mergeSort fun a b => key a ≤ key b).Pairwise fun a b => key a ≤ key b := by
  have h := @List.pairwise_mergeSort α (fun a b => decide (key a ≤ key b)) ?_ ?_ l
  · exact h.imp of_decide_eq_true
  · intro a b c hab hbc
    exact decide_eq_true (htrans (of_decide_eq_true hab) (of_decide_eq_true hbc))
  · intro a b
    simpa only [Bool.or_eq_true, decide_eq_true_eq] using htotal (key a) (key b)

end LazyGL
