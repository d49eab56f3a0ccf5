import LazyGL.Text.Blank
import Mathlib.Data.List.Chain
import Mathlib.Data.List.TakeWhile

/-!
Trimmed and collapsed texts. Trimming takes blanks away at both ends and nothing
else. The words of a text are not empty and have no blanks in them, so joining
them with single spaces leaves a blank only between two words.
-/

namespace LazyGL.Blank

/-! ### Trimming -/

theorem exists_trimChars (chars : List Char) :
    ∃ front back, chars = front ++ trimChars chars ++ back ∧
      ∀ c ∈ front ++ back, isBlank c = true := by
  let rest := chars.dropWhile isBlank
  refine ⟨chars.takeWhile isBlank, (rest.reverse.takeWhile isBlank).reverse, ?_, ?_⟩
  · have hrest : trimChars chars ++ (rest.reverse.takeWhile isBlank).reverse = rest := by
      rw [trimChars, ← List.reverse_append, List.takeWhile_append_dropWhile, List.reverse_reverse]
    rw [List.append_assoc, hrest, List.takeWhile_append_dropWhile]
  · rw [List.forall_mem_append]
    refine ⟨fun c => List.mem_takeWhile_imp, fun c hc => ?_⟩
    exact List.mem_takeWhile_imp (List.mem_reverse.mp hc)

theorem dropWhile_isBlank_eq {chars : List Char} (h : ∀ c ∈ chars, isBlank c = false) :
    chars.dropWhile isBlank = chars := by
  cases chars with
  | nil => rfl
  | cons c chars => simp [h c List.mem_cons_self]

/-- The blanks at both ends go. -/
theorem trimChars_append {front chars back : List Char}
    (hblank : ∀ c ∈ front ++ back, isBlank c = true) (h : ∀ c ∈ chars, isBlank c = false) :
    trimChars (front ++ chars ++ back) = chars := by
  obtain ⟨hfront, hback⟩ := List.forall_mem_append.mp hblank
  have hreverse : ∀ c ∈ back.reverse, isBlank c = true :=
    fun c hc => hback c (List.mem_reverse.mp hc)
  rw [trimChars, List.append_assoc, List.dropWhile_append_of_pos hfront]
  cases chars with
  | nil =>
      have hnone : back.dropWhile isBlank = [] := List.dropWhile_eq_nil_iff.mpr hback
      rw [List.nil_append, hnone]
      rfl
  | cons c chars =>
      -- the first character keeps the back from being dropped from the front
      have hc : isBlank c = false := h c List.mem_cons_self
      have hchars : ∀ a ∈ (c :: chars).reverse, isBlank a = false :=
        fun a ha => h a (List.mem_reverse.mp ha)
      rw [List.cons_append, List.dropWhile_cons_of_neg (by simp [hc]), ← List.cons_append,
        List.reverse_append, List.dropWhile_append_of_pos hreverse, dropWhile_isBlank_eq hchars,
        List.reverse_reverse]

theorem trimChars_eq {chars : List Char} (h : ∀ c ∈ chars, isBlank c = false) :
    trimChars chars = chars := by
  have hblank : ∀ c ∈ ([] : List Char) ++ [], isBlank c = true := nofun
  simpa using trimChars_append hblank h

/-! ### Collapsing -/

theorem mem_splitOnP {p : Char → Bool} {chars part : List Char} (h : part ∈ chars.splitOnP p) :
    ∀ c ∈ part, p c = false := by
  induction chars generalizing part with
  | nil =>
      rw [List.splitOnP_nil, List.mem_singleton] at h
      simp [h]
  | cons c chars ih =>
      rw [List.splitOnP_cons_eq_if_modifyHead] at h
      obtain ⟨first, rest, hparts⟩ := List.exists_cons_of_ne_nil (List.splitOnP_ne_nil p chars)
      rw [hparts] at h ih
      split at h
      · rcases List.mem_cons.mp h with rfl | h
        · simp
        · exact ih h
      · next hc =>
          -- the character goes to the front of the first part
          rcases List.mem_cons.mp h with rfl | h
          · have hc : p c = false := by simpa using hc
            exact List.forall_mem_cons.mpr ⟨hc, ih List.mem_cons_self⟩
          · exact ih (List.mem_cons_of_mem _ h)

theorem mem_words {chars word : List Char} (h : word ∈ words chars) :
    word ≠ [] ∧ ∀ c ∈ word, isBlank c = false := by
  obtain ⟨hpart, hne⟩ := List.mem_filter.mp h
  exact ⟨by simpa using hne, mem_splitOnP hpart⟩

theorem isBlank_strip {text : String} {c : Char} (h : c ∈ (strip text).toList) :
    isBlank c = false := by
  rw [strip, String.toList_ofList] at h
  simpa using (List.mem_filter.mp h).2

theorem strip_append (text more : String) : strip (text ++ more) = strip text ++ strip more := by
  rw [strip, String.toList_append, List.filter_append, String.ofList_append]
  rfl

/-! ### Words -/

theorem words_append_cons (front back : List Char) {c : Char} (hc : isBlank c = true) :
    words (front ++ c :: back) = words front ++ words back := by
  rw [words, List.splitOnP_append_cons _ _ hc, List.filter_append]
  rfl

/-- A run of blanks ends a word, whatever its length is. -/
theorem words_append_blanks (front back : List Char) {blanks : List Char} (hne : blanks ≠ [])
    (h : ∀ c ∈ blanks, isBlank c = true) :
    words (front ++ (blanks ++ back)) = words front ++ words back := by
  induction blanks generalizing front with
  | nil => exact absurd rfl hne
  | cons c blanks ih =>
      obtain ⟨hc, hblanks⟩ := List.forall_mem_cons.mp h
      rw [List.cons_append, words_append_cons _ _ hc]
      by_cases hlast : blanks = []
      · rw [hlast, List.nil_append]
      · -- there is no word in front of the rest of the run
        exact congrArg _ (ih [] hlast hblanks)

/-- Some characters with no blank at either end, no blank but the space, and no
two of these in a row. -/
structure SingleSpaced (chars : List Char) : Prop where
  first : ∀ c ∈ chars.head?, isBlank c = false
  last : ∀ c ∈ chars.getLast?, isBlank c = false
  spaces : ∀ c ∈ chars, isBlank c = true → c = ' '
  single : chars.IsChain fun a b => isBlank a = false ∨ isBlank b = false

theorem singleSpaced_of_forall {chars : List Char} (h : ∀ c ∈ chars, isBlank c = false) :
    SingleSpaced chars where
  first c hc := h c (List.mem_of_mem_head? hc)
  last c hc := h c (List.mem_of_mem_getLast? hc)
  spaces c hc hblank := by
    rw [h c hc] at hblank
    cases hblank
  single := List.Pairwise.isChain (List.pairwise_of_forall_mem_list fun c hc _ _ => .inl (h c hc))

/-- A word goes in front of a text with a space between the two. -/
theorem SingleSpaced.cons {word rest : List Char} (hword : ∀ c ∈ word, isBlank c = false)
    (hne : word ≠ []) (hrest : rest ≠ []) (h : SingleSpaced rest) :
    SingleSpaced (word ++ ' ' :: rest) := by
  have hfront := singleSpaced_of_forall hword
  refine ⟨?_, ?_, ?_, ?_⟩
  · rw [List.head?_append_of_ne_nil _ hne]
    exact hfront.first
  · rw [List.getLast?_append_of_ne_nil _ (List.cons_ne_nil _ _), List.getLast?_cons_of_ne_nil hrest]
    exact h.last
  · intro c hc hblank
    rcases List.mem_append.mp hc with hc | hc
    · exact hfront.spaces c hc hblank
    · rcases List.mem_cons.mp hc with rfl | hc
      · rfl
      · exact h.spaces c hc hblank
  · rw [List.isChain_append]
    refine ⟨hfront.single, ?_, fun c hc _ _ => .inl (hfront.last c hc)⟩
    rw [List.isChain_cons]
    exact ⟨fun c hc => .inr (h.first c hc), h.single⟩

theorem singleSpaced_intercalate {parts : List (List Char)}
    (h : ∀ word ∈ parts, word ≠ [] ∧ ∀ c ∈ word, isBlank c = false) :
    SingleSpaced ([' '].intercalate parts) := by
  induction parts with
  | nil => exact singleSpaced_of_forall (by simp)
  | cons word parts ih =>
      obtain ⟨⟨hne, hword⟩, hparts⟩ := List.forall_mem_cons.mp h
      cases parts with
      | nil => simpa using singleSpaced_of_forall hword
      | cons next parts =>
          rw [List.intercalate_cons_cons]
          have hnext : [' '].intercalate (next :: parts) ≠ [] := by
            cases parts <;> simp [List.intercalate_cons_cons, (hparts next List.mem_cons_self).1]
          simpa using SingleSpaced.cons hword hne hnext (ih hparts)

theorem singleSpaced_collapse (text : String) : SingleSpaced (collapse text).toList := by
  rw [collapse, String.toList_ofList]
  exact singleSpaced_intercalate fun _ => mem_words

end LazyGL.Blank
