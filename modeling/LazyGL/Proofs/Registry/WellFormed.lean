import LazyGL.Proofs.Registry.Normal
import LazyGL.Proofs.Text.Blank

/-!
Well-formed registries. No name is used twice, every value can be read, and
every command has a name, a return type in single spacing and parameters that
are complete. Each way of adding to a registry keeps it well formed if what is
added is, and so does bringing it to normal form.
-/

namespace LazyGL

/-- A parameter with a name and a type, whose shape says where the name stands,
and where the type stands unless it is `void`. -/
structure Param.WellFormed (p : Param) : Prop where
  name : p.name ≠ ""
  base : p.base ≠ ""
  shape : ∀ c ∈ p.shape.toList, Blank.isBlank c = false
  nameMark : '?' ∈ p.shape.toList
  typeMark : p.base ≠ "void" → '!' ∈ p.shape.toList

structure Command.WellFormed (c : Command) : Prop where
  name : c.name ≠ ""
  returnType : Blank.SingleSpaced c.returnType.toList
  params : ∀ p ∈ c.params, p.WellFormed

/-- A value of a list for one kind of values, which can be read. -/
structure Enumerant.WellFormed (kind : ValueKind) (e : Enumerant) : Prop where
  value : (Literal.value? e.value).isSome
  kind : e.kind = kind

structure Registry.WellFormed (r : Registry) : Prop where
  valueNames : r.valueNames.Nodup
  plain : ∀ e ∈ r.enums, e.WellFormed .plain
  masks : ∀ e ∈ r.bitfields, e.WellFormed .bitmask
  commandNames : (r.commands.map Command.name).Nodup
  commands : ∀ c ∈ r.commands, c.WellFormed
  versions : ∀ tags ∈ r.versions.values, tags ≠ []
  extensions : ∀ tags ∈ r.extensions.values, tags ≠ []

theorem OrderedMap.mem_values_update {α β : Type} [DecidableEq α] {m : OrderedMap α β} {key : α}
    {f : Option β → β} {v : β} (h : v ∈ (m.update key f).values) :
    v ∈ m.values ∨ ∃ present, v = f present := by
  rw [values, entries_update] at h
  rw [values]
  generalize m.entries = entries at h
  induction entries with
  | nil => exact .inr ⟨none, by simpa [updateEntries] using h⟩
  | cons entry entries ih =>
      obtain ⟨k, w⟩ := entry
      rw [updateEntries] at h
      split at h
      · rcases List.mem_cons.mp h with h | h
        · exact .inr ⟨some w, h⟩
        · exact .inl (List.mem_cons_of_mem _ h)
      · rcases List.mem_cons.mp h with h | h
        · exact .inl (h ▸ List.mem_cons_self)
        · exact (ih h).imp_left (List.mem_cons_of_mem _)

theorem Identifier.usable_ne_empty {name : String} (h : name ≠ "") : usable name ≠ "" := by
  unfold usable substitute?
  split
  · simp
  · split
    · simp
    · exact h

namespace Registry

variable {r : Registry}

theorem wellFormed_empty : WellFormed { } where
  valueNames := List.nodup_nil
  plain := by simp
  masks := by simp
  commandNames := List.nodup_nil
  commands := by simp
  versions := by simp [OrderedMap.values]
  extensions := by simp [OrderedMap.values]

/-! ### Additions -/

/-- The groups of a registry are free. -/
theorem WellFormed.withGroups (h : r.WellFormed)
    (groups : OrderedMap String (OrderedSet String)) : { r with groups := groups }.WellFormed :=
  { h with }

theorem valueNames_addEnumerant (r : Registry) (e : Enumerant) :
    (r.addEnumerant e).valueNames.Perm (e.name :: r.valueNames) := by
  simp only [addEnumerant, valueNames]
  cases e.kind with
  | plain => simp
  | bitmask =>
      simp only [List.map_append, List.map_cons, List.map_nil, ← List.append_assoc]
      exact List.perm_append_singleton e.name _

theorem WellFormed.addEnumerant (h : r.WellFormed) {e : Enumerant} (hnew : e.name ∉ r.valueNames)
    (hvalue : (Literal.value? e.value).isSome) : (r.addEnumerant e).WellFormed := by
  have hnodup := (valueNames_addEnumerant r e).nodup_iff.mpr
    (List.nodup_cons.mpr ⟨hnew, h.valueNames⟩)
  revert hnodup
  unfold Registry.addEnumerant
  cases hkind : e.kind with
  | plain =>
      intro hnodup
      have hplain : ∀ e' ∈ r.enums ++ [e], e'.WellFormed .plain := by
        rw [List.forall_mem_append, List.forall_mem_singleton]
        exact ⟨h.plain, hvalue, hkind⟩
      exact { h with valueNames := hnodup, plain := hplain }
  | bitmask =>
      intro hnodup
      have hmasks : ∀ e' ∈ r.bitfields ++ [e], e'.WellFormed .bitmask := by
        rw [List.forall_mem_append, List.forall_mem_singleton]
        exact ⟨h.masks, hvalue, hkind⟩
      exact { h with valueNames := hnodup, masks := hmasks }

theorem WellFormed.addCommand (h : r.WellFormed) {c : Command}
    (hnew : c.name ∉ r.commands.map Command.name) (hc : c.WellFormed) :
    (r.addCommand c).WellFormed := by
  have hnames : ((r.commands ++ [c]).map Command.name).Nodup := by
    rw [List.map_append, List.map_singleton]
    exact (List.perm_append_singleton _ _).nodup_iff.mpr
      (List.nodup_cons.mpr ⟨hnew, h.commandNames⟩)
  have hcommands : ∀ c' ∈ r.commands ++ [c], c'.WellFormed := by
    rw [List.forall_mem_append, List.forall_mem_singleton]
    exact ⟨h.commands, hc⟩
  exact { h with commandNames := hnames, commands := hcommands }

/-- A list of tags that has just got one more is not empty. -/
theorem values_update_ne_nil {τ : Type} {m : OrderedMap String (List τ)}
    (h : ∀ tags ∈ m.values, tags ≠ []) (command : String) (tag : τ) :
    ∀ tags ∈ (m.update command fun tags => tags.getD [] ++ [tag]).values, tags ≠ [] := by
  intro tags htags
  rcases OrderedMap.mem_values_update htags with htags | ⟨present, rfl⟩
  · exact h tags htags
  · simp

theorem WellFormed.addVersion (h : r.WellFormed) (command : String) (tag : VersionTag) :
    (r.addVersion command tag).WellFormed :=
  { h with versions := values_update_ne_nil h.versions command tag }

theorem WellFormed.addExtension (h : r.WellFormed) (command : String) (tag : ExtensionTag) :
    (r.addExtension command tag).WellFormed :=
  { h with extensions := values_update_ne_nil h.extensions command tag }

/-! ### Normal forms -/

theorem wellFormed_canonicalize {canonical : Int64 → String}
    (hcanonical : Literal.ReadsBack canonical) {kind : ValueKind} {e : Enumerant}
    (h : e.WellFormed kind) : (canonicalize canonical e).WellFormed kind := by
  obtain ⟨value, hvalue⟩ := Option.isSome_iff_exists.mp h.value
  obtain ⟨reading, hread, -⟩ := hcanonical value
  simp only [canonicalize, hvalue]
  exact ⟨Option.isSome_iff_exists.mpr ⟨reading, hread⟩, h.kind⟩

theorem wellFormed_renameParams {c : Command} (h : c.WellFormed) : (renameParams c).WellFormed := by
  refine ⟨h.name, h.returnType, ?_⟩
  intro p hp
  obtain ⟨p, hmem, rfl⟩ := List.mem_map.mp hp
  exact { h.params p hmem with name := Identifier.usable_ne_empty (h.params p hmem).name }

/-- Some tags are left when the redundant ones have been dropped. -/
theorem dropRedundant_ne_nil {tags : List VersionTag} (h : tags ≠ []) :
    dropRedundant tags ≠ [] := by
  unfold dropRedundant
  split
  · next hfirst =>
      refine List.ne_nil_of_mem (a := .added .es 1 0) (List.mem_filter.mpr ⟨hfirst, ?_⟩)
      decide
  · exact h

theorem WellFormed.normalize (h : r.WellFormed) : r.normalize.WellFormed where
  valueNames := (normalize_values_perm r).nodup_iff.mpr h.valueNames
  plain := forall_mem_sortByValue fun e he =>
    wellFormed_canonicalize Literal.readsBack_canonicalPlain (h.plain e he)
  masks := forall_mem_sortByValue fun e he =>
    wellFormed_canonicalize Literal.readsBack_canonicalMask (h.masks e he)
  commandNames := (normalize_commandNames_perm r).nodup_iff.mpr h.commandNames
  commands := by
    intro c hc
    obtain ⟨c, hmem, rfl⟩ := List.mem_map.mp ((List.mergeSort_perm _ _).mem_iff.mp hc)
    exact wellFormed_renameParams (h.commands c hmem)
  versions := by
    intro tags htags
    obtain ⟨before, hmem, rfl⟩ := OrderedMap.mem_values_mapValues.mp htags
    exact dropRedundant_ne_nil (h.versions before hmem)
  extensions := h.extensions

end Registry

end LazyGL
