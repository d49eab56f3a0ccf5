import LazyGL.Text.Encoding

/-!
The order of texts is the order of their bytes. A character with a greater code
point is written with a greater byte at the first place where the two differ,
and neither is written as the beginning of the other.
-/

namespace LazyGL.Utf8

theorem cons_lt_cons_byte {n m : Nat} (hn : n < 256) (hm : m < 256) (rest more : Bytes) :
    UInt8.ofNat n :: rest < UInt8.ofNat m :: more ↔ n < m ∨ n = m ∧ rest < more := by
  rw [List.cons_lt_cons_iff, byte_lt hn hm, byte_eq hn hm]

theorem encodeChar_lt {c d : Char} (h : c < d) (rest more : Bytes) :
    String.utf8EncodeChar c ++ rest < String.utf8EncodeChar d ++ more := by
  have hlt : c.val.toNat < d.val.toNat := h
  have hmax : d.val.toNat < 0x110000 := by
    have hvalid : d.val.toNat < 0xD800 ∨ (0xDFFF < d.val.toNat ∧ d.val.toNat < 0x110000) := d.valid
    omega
  unfold String.utf8EncodeChar
  generalize c.val.toNat = v at hlt
  generalize d.val.toNat = w at hlt hmax
  dsimp only
  have hmiddle (n : Nat) : n / 4096 = n / 64 / 64 := by omega
  have hlead (n : Nat) (h : n < 0x110000) : n / 262144 % 8 = n / 64 / 64 / 64 := by omega
  -- one case for each pair of widths: the numbers of the bytes decide
  repeat' split
  all_goals
    simp (disch := omega) only [List.cons_append, List.nil_append, cons_lt_cons_byte, hmiddle,
      hlead]
    omega

/-- A text before another one has its bytes before the bytes of the other. -/
theorem ofString_lt {s t : String} (h : s < t) : ofString s < ofString t := by
  -- the two texts are compared up to their first difference
  have hencode (chars others : List Char) (h : chars < others) : encode chars < encode others := by
    induction chars generalizing others with
    | nil =>
        cases others with
        | nil => exact absurd h (List.not_lt_nil _)
        | cons d others =>
            obtain ⟨b, bytes, hbytes⟩ :=
              List.exists_cons_of_ne_nil (l := String.utf8EncodeChar d) (by simp)
            rw [encode, encode, List.flatMap_cons, hbytes]
            exact List.nil_lt_cons _ _
    | cons c chars ih =>
        cases others with
        | nil => exact absurd h (List.not_lt_nil _)
        | cons d others =>
            rw [encode, encode, List.flatMap_cons, List.flatMap_cons]
            rcases List.cons_lt_cons_iff.mp h with hlt | ⟨rfl, hlt⟩
            · exact encodeChar_lt hlt _ _
            · exact List.append_left_lt (ih others hlt)
  exact hencode s.toList t.toList (String.lt_iff.mp h)

theorem ofString_le_iff {s t : String} : ofString s ≤ ofString t ↔ s ≤ t := by
  rw [← List.not_lt, ← String.not_lt]
  refine not_congr ⟨fun h => ?_, ofString_lt⟩
  rw [← String.not_le]
  intro hback
  by_cases heq : s = t
  · exact List.lt_irrefl _ (heq ▸ h)
  · have hlt : s < t := by
      rw [← String.not_le]
      exact fun hle => heq (String.le_antisymm hback hle)
    exact List.lt_asymm h (ofString_lt hlt)

end LazyGL.Utf8
