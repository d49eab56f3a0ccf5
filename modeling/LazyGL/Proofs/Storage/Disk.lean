import LazyGL.Storage.Disk

/-!
What the operations on a disk do. Each of them changes one place at most, and
the way to a directory stays as it is while no directory on it is replaced. So
below a directory that has been found the operations are given by what stands at
the places there.
-/

namespace LazyGL

/-! ### Paths -/

namespace Path

def front (base : Path) : String :=
  if base.text.toList.isEmpty || base.text.toList.getLast? == some '/' then base.text
  else base.text ++ "/"

theorem join_eq (base : Path) (below : String) (h : below.toList.head? ≠ some '/') :
    base.join below = ⟨base.front ++ below⟩ := by
  unfold join front
  rw [if_neg h]
  split <;> simp_all

theorem exists_front (base : Path) : ∃ slash, base.front = base.text ++ slash := by
  unfold front
  split
  · exact ⟨"", String.append_empty.symm⟩
  · exact ⟨"/", rfl⟩

theorem names_append_slash (first second : String) :
    names ⟨first ++ "/" ++ second⟩ = names ⟨first⟩ ++ names ⟨second⟩ := by
  have hslash : "/".toList = ['/'] := rfl
  simp only [names, String.toList_append, hslash, List.append_assoc, List.singleton_append]
  rw [List.splitOn_append_cons_self, List.map_append, List.filter_append]

/-- The names of a path below another one go on from those of that one. -/
theorem names_join (base : Path) {below : String} (h : below.toList.head? ≠ some '/') :
    (base.join below).names = base.names ++ names ⟨below⟩ := by
  obtain ⟨text⟩ := base
  rw [join_eq _ _ h]
  unfold front
  split
  · next hclosed =>
      rw [Bool.or_eq_true, List.isEmpty_iff, String.toList_eq_nil_iff, beq_iff_eq] at hclosed
      rcases hclosed with rfl | hlast
      · rw [String.empty_append]
        rfl
      · -- the slash at the end is the one between the two
        obtain ⟨chars, hchars⟩ := List.getLast?_eq_some_iff.mp hlast
        obtain rfl : text = String.ofList chars ++ "/" := by
          rw [← String.toList_inj, hchars]
          simp
        have hbase := names_append_slash (String.ofList chars) ""
        rw [String.append_empty] at hbase
        rw [names_append_slash, hbase]
        exact congrArg (· ++ _) (List.append_nil _).symm
  · exact names_append_slash text below

end Path

namespace Disk

variable {d d' : Disk} {place other : List String}

/-! ### Places -/

theorem lookup_map_of_ne (nodes : List (List String × Node)) (h : other ≠ place) (node : Node) :
    (nodes.map fun (p, n) => if p = place then (p, node) else (p, n)).lookup other =
      nodes.lookup other := by
  induction nodes with
  | nil => rfl
  | cons entry nodes ih =>
      obtain ⟨p, n⟩ := entry
      rw [List.map_cons, List.lookup_cons]
      by_cases hp : p = place
      · subst hp
        simp only [if_pos, List.lookup_cons, beq_false_of_ne h, ih]
      · simp only [if_neg hp, List.lookup_cons, ih]

theorem lookup_map_self (nodes : List (List String × Node)) (h : (nodes.lookup place).isSome)
    (node : Node) :
    (nodes.map fun (p, n) => if p = place then (p, node) else (p, n)).lookup place = some node := by
  induction nodes with
  | nil => cases h
  | cons entry nodes ih =>
      obtain ⟨p, n⟩ := entry
      rw [List.map_cons]
      by_cases hp : p = place
      · subst hp
        simp
      · have hne : (place == p) = false := beq_false_of_ne (Ne.symm hp)
        simp only [List.lookup_cons, hne] at h
        simp only [if_neg hp, List.lookup_cons, hne]
        exact ih h

/-- What is put at a place is there, and nothing else changes. -/
theorem node?_put (d : Disk) (hplace : place ≠ []) (node : Node) (other : List String) :
    (d.put place node).node? other = if other = place then some node else d.node? other := by
  have hlookup : (d.put place node).nodes.lookup other =
      if other = place then some node else d.nodes.lookup other := by
    unfold put
    by_cases hthere : (d.nodes.lookup place).isSome
    · rw [if_pos hthere]
      split
      · next hother => rw [hother]; exact lookup_map_self _ hthere node
      · next hother => exact lookup_map_of_ne _ hother node
    · rw [if_neg hthere, List.lookup_append]
      split
      · next hother =>
          have hnone := Option.not_isSome_iff_eq_none.mp hthere
          rw [hother, hnone]
          simp
      · next hother => simp [List.lookup_cons, beq_false_of_ne hother]
  cases other with
  | nil => rw [if_neg (Ne.symm hplace)]; rfl
  | cons name rest => exact hlookup

/-- A path that ends in something shorter is not too long either. -/
theorem checkPath_append (front long short : String) (h : checkPath ⟨front ++ long⟩ = .ok ())
    (hsize : short.utf8ByteSize ≤ long.utf8ByteSize) (hnul : '\x00' ∉ short.toList) :
    checkPath ⟨front ++ short⟩ = .ok () := by
  unfold checkPath at h ⊢
  split at h
  · cases h
  next hfree =>
  split at h
  · cases h
  next hbound =>
  rw [List.contains_iff_mem, String.toList_append, List.mem_append, not_or] at hfree
  rw [String.utf8ByteSize_append] at hbound
  rw [if_neg, if_neg]
  · rw [String.utf8ByteSize_append]
    omega
  · rw [List.contains_iff_mem, String.toList_append, List.mem_append, not_or]
    exact ⟨hfree.1, hnul⟩

/-! ### The way to a directory -/

theorem descend_append (d : Disk) (here : List String) (names rest : List String) :
    d.descend here (names ++ rest) =
      d.descend here names >>= fun there => d.descend there rest := by
  induction names generalizing here with
  | nil => rfl
  | cons name names ih =>
      rw [List.cons_append, descend, descend]
      split
      · exact ih _
      split
      · rfl
      split
      · exact ih _
      · rfl
      · rfl

/-- A way stays open as long as directories stay directories. -/
theorem descend_mono (hkeep : ∀ place, d.node? place = some .directory →
      d'.node? place = some .directory) {here there names : List String}
    (h : d.descend here names = .ok there) : d'.descend here names = .ok there := by
  induction names generalizing here with
  | nil => exact h
  | cons name names ih =>
      rw [descend] at h ⊢
      split
      · next hup =>
          rw [if_pos hup] at h
          exact ih h
      next hup =>
      rw [if_neg hup] at h
      split
      · next hlong =>
          rw [if_pos hlong] at h
          cases h
      next hlong =>
      rw [if_neg hlong] at h
      split at h
      · next hnode =>
          rw [hkeep _ hnode]
          exact ih h
      · cases h
      · cases h

/-- A path leads to the same place as long as directories stay directories. -/
theorem locate_mono (hkeep : ∀ place, d.node? place = some .directory →
      d'.node? place = some .directory) {path : Path} (h : d.locate path = .ok place) :
    d'.locate path = .ok place := by
  unfold locate at h ⊢
  split at h
  · cases h
  next htext =>
  rw [if_neg htext]
  cases hcheck : checkPath path with
  | error fault =>
      rw [hcheck] at h
      cases h
  | ok _ =>
      rw [hcheck] at h
      cases hlast : path.names.getLast? with
      | none =>
          rw [hlast] at h
          exact h
      | some last =>
          rw [hlast] at h
          cases hway : d.descend [] path.names.dropLast with
          | error fault =>
              simp only [hway, bind, Except.bind] at h
              cases h
          | ok here =>
              simp only [hway, bind, Except.bind] at h
              simp only [descend_mono hkeep hway, bind, Except.bind]
              exact h

/-- Directories on a way that are there need not be made. -/
theorem makeFrom_append {here there names : List String} (h : d.descend here names = .ok there)
    (rest : List String) : d.makeFrom here (names ++ rest) = d.makeFrom there rest := by
  induction names generalizing here with
  | nil =>
      cases h
      rfl
  | cons name names ih =>
      rw [descend] at h
      rw [List.cons_append, makeFrom]
      split
      · next hup =>
          rw [if_pos hup] at h
          exact ih h
      next hup =>
      rw [if_neg hup] at h
      split
      · next hlong =>
          rw [if_pos hlong] at h
          cases h
      next hlong =>
      rw [if_neg hlong] at h
      split at h
      · exact ih h
      · cases h
      · cases h

/-! ### Operations below a directory -/

/-- A name that leads to the place right below. -/
structure Plain (name : String) : Prop where
  up : name ≠ ".."
  short : name.utf8ByteSize ≤ Path.longestName

structure Below (d : Disk) (path : Path) (here : List String) (name : String) : Prop where
  check : checkPath path = .ok ()
  way : ∃ names, path.names = names ++ [name] ∧ d.descend [] names = .ok here
  plain : Plain name

section Below

variable {path : Path} {here : List String} {name : String}

theorem Below.locate (h : d.Below path here name) : d.locate path = .ok (here ++ [name]) := by
  obtain ⟨names, hnames, hway⟩ := h.way
  have htext : path.text ≠ "" := by
    intro hempty
    have hnone : path.names = [] := by
      rw [Path.names, hempty]
      rfl
    rw [hnone] at hnames
    simp at hnames
  unfold Disk.locate
  rw [if_neg htext, h.check, hnames, List.getLast?_append, List.dropLast_concat, hway]
  simp [h.plain.up, h.plain.short, bind, Except.bind]

theorem Below.makeDirectories (h : d.Below path here name) :
    d.makeDirectories path =
      match d.node? (here ++ [name]) with
      | some .directory => .ok d
      | some (.file _) => .error .alreadyExists
      | none => .ok (d.put (here ++ [name]) .directory) := by
  obtain ⟨names, hnames, hway⟩ := h.way
  unfold Disk.makeDirectories
  rw [h.check, hnames]
  change d.makeFrom [] (names ++ [name]) = _
  rw [makeFrom_append hway, makeFrom, if_neg h.plain.up, if_neg (Nat.not_lt.mpr h.plain.short)]
  rcases d.node? (here ++ [name]) with - | (content | -) <;> rfl

theorem descend_plain (hname : Plain name) (h : d.node? (here ++ [name]) = some .directory) :
    d.descend here [name] = .ok (here ++ [name]) := by
  rw [descend, if_neg hname.up, if_neg (Nat.not_lt.mpr hname.short), h]
  rfl

end Below

section Located

variable {path : Path}

theorem create_directory (hplace : d.locate path = .ok place)
    (h : d.node? place = some .directory) : d.create path = .error .isDirectory := by
  simp only [create, hplace, bind, Except.bind, h]

theorem create_file (hplace : d.locate path = .ok place) (h : d.node? place ≠ some .directory) :
    d.create path = .ok (d.put place (.file .empty)) := by
  simp only [create, hplace, bind, Except.bind]

theorem append_file (hplace : d.locate path = .ok place) {content : ByteArray}
    (h : d.node? place = some (.file content)) (bytes : ByteArray) :
    d.append path bytes = .ok (d.put place (.file (content ++ bytes))) := by
  simp only [append, hplace, bind, Except.bind, h]

end Located

end Disk

end LazyGL
