/-!
Maps that remember the order in which their keys were first mentioned.
-/

namespace LazyGL

/-- Values under distinct keys, in the order of the keys' first mention. -/
structure OrderedMap (α β : Type) where
  entries : List (α × β)
  nodup_keys : (entries.map Prod.fst).Nodup
deriving DecidableEq

namespace OrderedMap

variable {α β γ : Type}

theorem ext {m n : OrderedMap α β} (h : m.entries = n.entries) : m = n := by
  cases m
  cases n
  simp_all

def empty : OrderedMap α β := ⟨[], List.nodup_nil⟩

def values (m : OrderedMap α β) : List β := m.entries.map Prod.snd

def size (m : OrderedMap α β) : Nat := m.entries.length

def get? [DecidableEq α] (m : OrderedMap α β) (key : α) : Option β :=
  m.entries.lookup key

/-- Replaces the value under a key, or adds the key at the end. -/
def updateEntries [DecidableEq α] (key : α) (f : Option β → β) : List (α × β) → List (α × β)
  | [] => [(key, f none)]
  | (k, v) :: rest =>
    if k = key then (k, f (some v)) :: rest else (k, v) :: updateEntries key f rest

theorem keys_updateEntries [DecidableEq α] (key : α) (f : Option β → β)
    (entries : List (α × β)) :
    (updateEntries key f entries).map Prod.fst =
      if key ∈ entries.map Prod.fst then entries.map Prod.fst
      else entries.map Prod.fst ++ [key] := by
  induction entries with
  | nil => simp [updateEntries]
  | cons entry entries ih =>
      obtain ⟨k, v⟩ := entry
      by_cases h : k = key
      · simp [updateEntries, h]
      · have hne : ¬key = k := fun e => h e.symm
        rw [updateEntries, if_neg h, List.map_cons, ih]
        by_cases hmem : key ∈ entries.map Prod.fst
        · simp only [List.map_cons, List.mem_cons, hmem, or_true, if_true]
        · simp only [List.map_cons, List.mem_cons, hmem, hne, or_self, if_false,
            List.cons_append]

/-- Gives the key the value that `f` makes of its present one. -/
def update [DecidableEq α] (m : OrderedMap α β) (key : α) (f : Option β → β) :
    OrderedMap α β :=
  ⟨updateEntries key f m.entries, by
    rw [keys_updateEntries]
    split
    · exact m.nodup_keys
    · next h =>
        rw [List.nodup_append]
        refine ⟨m.nodup_keys, by simp, ?_⟩
        intro x hx y hy
        simp only [List.mem_singleton] at hy
        exact fun hxy => h (hy ▸ hxy ▸ hx)⟩

def mapValues (f : β → γ) (m : OrderedMap α β) : OrderedMap α γ :=
  ⟨m.entries.map fun (k, v) => (k, f v), by
    have : (m.entries.map fun (k, v) => (k, f v)).map Prod.fst = m.entries.map Prod.fst := by
      rw [List.map_map]
      rfl
    exact this ▸ m.nodup_keys⟩

def filterValues (p : β → Bool) (m : OrderedMap α β) : OrderedMap α β :=
  ⟨m.entries.filter fun (_, v) => p v,
    m.nodup_keys.sublist (List.Sublist.map Prod.fst List.filter_sublist)⟩

theorem lookup_updateEntries [DecidableEq α] (key other : α) (f : Option β → β)
    (entries : List (α × β)) :
    (updateEntries key f entries).lookup other =
      if other = key then some (f (entries.lookup key)) else entries.lookup other := by
  have hcons (a k : α) (v : β) (rest : List (α × β)) :
      ((k, v) :: rest).lookup a = if a = k then some v else rest.lookup a := by
    by_cases h : a = k
    · simp [h]
    · simp [List.lookup_cons, beq_eq_false_iff_ne.mpr h, h]
  induction entries with
  | nil => rw [updateEntries, hcons, List.lookup_nil, List.lookup_nil]
  | cons entry entries ih =>
      obtain ⟨k, v⟩ := entry
      by_cases hk : k = key
      · subst hk
        rw [updateEntries, if_pos rfl, hcons, hcons, hcons, if_pos rfl]
        split <;> rfl
      · have hkey : ¬key = k := fun e => hk e.symm
        rw [updateEntries, if_neg hk, hcons, hcons, hcons, if_neg hkey, ih]
        by_cases h : other = k
        · rw [if_pos h, if_pos h, if_neg (h ▸ hk)]
        · rw [if_neg h, if_neg h]

/-- An update is seen under its key and nowhere else. -/
theorem get?_update [DecidableEq α] (m : OrderedMap α β) (key other : α)
    (f : Option β → β) :
    (m.update key f).get? other = if other = key then some (f (m.get? key)) else m.get? other :=
  lookup_updateEntries key other f m.entries

@[simp] theorem entries_empty : (empty : OrderedMap α β).entries = [] := rfl

@[simp] theorem entries_update [DecidableEq α] (m : OrderedMap α β) (key : α)
    (f : Option β → β) : (m.update key f).entries = updateEntries key f m.entries := rfl

@[simp] theorem entries_mapValues (f : β → γ) (m : OrderedMap α β) :
    (m.mapValues f).entries = m.entries.map fun (k, v) => (k, f v) := rfl

@[simp] theorem entries_filterValues (p : β → Bool) (m : OrderedMap α β) :
    (m.filterValues p).entries = m.entries.filter fun (_, v) => p v := rfl

end OrderedMap

end LazyGL
