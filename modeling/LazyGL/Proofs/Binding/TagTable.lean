import LazyGL.Binding.Resolver
import LazyGL.Proofs.Ordered
import LazyGL.Proofs.Text.ByteOrder

/-!
The table of the tags. It has the tags of the commands and no others, each of
them once and in ascending order, so the place of a tag in it leads back to the
tag.
-/

namespace LazyGL.Binding.Resolver

theorem mem_dropRepeats {text : String} {texts : List String} :
    text ∈ dropRepeats texts ↔ text ∈ texts := by
  induction texts using dropRepeats.induct with
  | case1 => rfl
  | case2 first => rfl
  | case3 first rest ih =>
      rw [dropRepeats, if_pos rfl, ih]
      simp
  | case4 first second rest hne ih =>
      rw [dropRepeats, if_neg hne, List.mem_cons, ih, ← List.mem_cons]

theorem pairwise_dropRepeats {texts : List String} (h : texts.Pairwise (· ≤ ·)) :
    (dropRepeats texts).Pairwise (· < ·) := by
  induction texts using dropRepeats.induct with
  | case1 => exact List.Pairwise.nil
  | case2 first => exact List.pairwise_singleton _ _
  | case3 first rest ih =>
      rw [dropRepeats, if_pos rfl]
      exact ih (List.pairwise_cons.mp h).2
  | case4 first second rest hne ih =>
      obtain ⟨hfirst, hrest⟩ := List.pairwise_cons.mp h
      rw [dropRepeats, if_neg hne, List.pairwise_cons]
      refine ⟨fun text htext => ?_, ih hrest⟩
      have hsecond : second ≤ text := by
        rcases List.mem_cons.mp (mem_dropRepeats.mp htext) with rfl | hmem
        · exact String.le_refl text
        · exact (List.pairwise_cons.mp hrest).1 text hmem
      -- were it not strict, the second text would repeat the first one
      rw [← String.not_le]
      intro hback
      have hle := hfirst second List.mem_cons_self
      exact hne (String.le_antisymm hle (String.le_trans hsecond hback))

/-- The table is in ascending order of the bytes, which leaves no room for a
tag that is there twice. -/
theorem pairwise_tagTable (r : Registry) :
    (tagTable r).Pairwise fun a b => Utf8.ofString a < Utf8.ofString b := by
  have hsorted := pairwise_mergeSort_key id String.le_trans String.le_total
    (r.commands.flatMap fun command => r.candidateTags command.name)
  exact (pairwise_dropRepeats hsorted).imp Utf8.ofString_lt

theorem mem_tagTable {r : Registry} {tag : String} :
    tag ∈ tagTable r ↔ ∃ command ∈ r.commands, tag ∈ r.candidateTags command.name := by
  rw [tagTable, mem_dropRepeats, (List.mergeSort_perm _ _).mem_iff, List.mem_flatMap]

theorem getElem?_idxOf {table : List String} {tag : String} (h : tag ∈ table) :
    table[table.idxOf tag]? = some tag := by
  have hlt := List.idxOf_lt_length_iff.mpr h
  rw [List.getElem?_eq_getElem hlt, List.getElem_idxOf hlt]

end LazyGL.Binding.Resolver
