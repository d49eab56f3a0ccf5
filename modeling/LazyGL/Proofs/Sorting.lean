import LazyGL.Proofs.Ordered
import Mathlib.Data.List.Perm.Basic

/-!
Stable sorting by a key. A rearrangement keeps the entries of each key in their
order, and a sorted list is a rearrangement whose keys ascend. Main statement:
there is one such list only, so what sorting makes of a list is fixed by what a
rearrangement keeps.
-/

namespace LazyGL

section Rearranged

variable {α β κ : Type} [DecidableEq κ] {key : α → κ} {before after : List α}

/-- The same entries, where those that share a key have kept their order. -/
structure Rearranged (key : α → κ) (before after : List α) : Prop where
  perm : after.Perm before
  ties : ∀ k, after.filter (key · = k) = before.filter (key · = k)

/-- Where no two entries share a key, every order will do. -/
theorem Rearranged.of_nodup (hperm : after.Perm before) (hkeys : (before.map key).Nodup) :
    Rearranged key before after where
  perm := hperm
  ties k := by
    have hfilter := hperm.filter (key · = k)
    -- at most one entry has the key
    have hsingle : (before.filter (key · = k)).length ≤ 1 := by
      rw [← List.length_map key, ← List.nodup_replicate (a := k), ← List.eq_replicate_of_mem]
      · exact hkeys.sublist (List.filter_sublist.map key)
      · rw [List.forall_mem_map]
        intro a ha
        exact of_decide_eq_true (List.mem_filter.mp ha).2
    generalize before.filter (key · = k) = kept at hfilter hsingle
    match kept with
    | [] => exact hfilter.eq_nil
    | [a] => exact List.perm_singleton.mp hfilter
    | a :: b :: rest => simp at hsingle

theorem Rearranged.map {f : β → α} {before after : List β}
    (h : Rearranged (fun b => key (f b)) before after) :
    Rearranged key (before.map f) (after.map f) where
  perm := h.perm.map f
  ties k := by
    rw [List.filter_map, List.filter_map]
    exact congrArg _ (h.ties k)

end Rearranged

section Sorted

variable {α κ : Type} [LE κ] [DecidableEq κ] {key : α → κ}

/-- The same entries in ascending order of their keys, where those that share a
key have kept their order. -/
structure StablySorted (key : α → κ) (before after : List α) : Prop
    extends Rearranged key before after where
  ascending : after.Pairwise fun a b => key a ≤ key b

theorem stablySorted_mergeSort [DecidableLE κ] (key : α → κ)
    (htrans : ∀ {a b c : κ}, a ≤ b → b ≤ c → a ≤ c)
    (htotal : ∀ a b : κ, a ≤ b ∨ b ≤ a) (l : List α) :
    StablySorted key l (l.mergeSort fun a b => key a ≤ key b) where
  perm := List.mergeSort_perm _ _
  ascending := pairwise_mergeSort_key key htrans htotal l
  ties k := by
    have htrans' (a b c : α) (hab : decide (key a ≤ key b)) (hbc : decide (key b ≤ key c)) :
        decide (key a ≤ key c) :=
      decide_eq_true (htrans (of_decide_eq_true hab) (of_decide_eq_true hbc))
    have htotal' (a b : α) : decide (key a ≤ key b) || decide (key b ≤ key a) := by
      simpa only [Bool.or_eq_true, decide_eq_true_eq] using htotal (key a) (key b)
    -- the entries of one key are in ascending order as they are
    have hkept : (l.filter (key · = k)).Pairwise fun a b => decide (key a ≤ key b) := by
      refine List.pairwise_of_forall_mem_list fun a ha b hb => decide_eq_true ?_
      rw [of_decide_eq_true (List.mem_filter.mp ha).2, of_decide_eq_true (List.mem_filter.mp hb).2]
      exact (htotal k k).elim id id
    have hsublist := (List.sublist_mergeSort htrans' htotal' hkept List.filter_sublist).filter
      (key · = k)
    rw [List.filter_filter] at hsublist
    simp only [Bool.and_self] at hsublist
    have hlength := ((List.mergeSort_perm l fun a b => decide (key a ≤ key b)).filter
      (key · = k)).length_eq
    exact (hsublist.eq_of_length hlength.symm).symm

/-- Of all rearrangements of a list one is in ascending order. -/
theorem Rearranged.eq_of_ascending (hantisymm : ∀ {a b : κ}, a ≤ b → b ≤ a → a = b)
    {first second : List α} (h : Rearranged key first second)
    (hfirst : first.Pairwise fun a b => key a ≤ key b)
    (hsecond : second.Pairwise fun a b => key a ≤ key b) : second = first := by
  induction first generalizing second with
  | nil => exact h.perm.eq_nil
  | cons a first ih =>
      cases second with
      | nil => exact h.perm.nil_eq
      | cons b second =>
          rw [List.pairwise_cons] at hfirst hsecond
          -- each of the two heads is in the other list, so neither key is the greater one
          have hkey : key b = key a := by
            rcases List.mem_cons.mp (h.perm.mem_iff.mp List.mem_cons_self) with rfl | hb
            · rfl
            rcases List.mem_cons.mp (h.perm.mem_iff.mpr List.mem_cons_self) with rfl | ha
            · rfl
            exact hantisymm (hsecond.1 a ha) (hfirst.1 b hb)
          have hhead := h.ties (key a)
          simp only [List.filter_cons, hkey, decide_true, if_true] at hhead
          obtain ⟨rfl, -⟩ := List.cons_eq_cons.mp hhead
          have htail : Rearranged key first second := by
            refine ⟨h.perm.cons_inv, fun k => ?_⟩
            have hties := h.ties k
            rw [List.filter_cons, List.filter_cons] at hties
            split at hties
            · exact (List.cons_eq_cons.mp hties).2
            · exact hties
          rw [ih htail hfirst.2 hsecond.2]

/-- Sorting forgets how a list was arranged before, up to the order of entries
that share a key. -/
theorem StablySorted.unique (hantisymm : ∀ {a b : κ}, a ≤ b → b ≤ a → a = b)
    {before before' after after' : List α} (h : Rearranged key before before')
    (hafter : StablySorted key before after) (hafter' : StablySorted key before' after') :
    after' = after := by
  have hall : Rearranged key after after' :=
    ⟨hafter'.perm.trans (h.perm.trans hafter.perm.symm),
      fun k => (hafter'.ties k).trans ((h.ties k).trans (hafter.ties k).symm)⟩
  exact hall.eq_of_ascending hantisymm hafter.ascending hafter'.ascending

end Sorted

end LazyGL
