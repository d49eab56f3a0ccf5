import LazyGL.Proofs.Registry.Literal

/-!
The canonical texts, and what they stand for. A canonical text reads back, so
two values share it if and only if they read back alike, which is so for few
values only.

Main statement: what either canonical form of a value reads back as, which
values have the same text, and what the text looks like.
-/

namespace LazyGL.Literal

open Numeral

structure Capital (digits : List Char) (n : Nat) : Prop where
  denotes : Denotes 16 digits n
  capitals : ∀ c ∈ digits, c ∈ upperDigits

/-- The canonical text of a plain value. A negative one is decimal; the others
have four digits or eight if these are enough, else no zero in front. -/
inductive PlainForm : Int → String → Prop
  | negative {n : Nat} {digits : List Char} (hn : 0 < n) (hdigits : Denotes 10 digits n)
      (hfirst : digits.head? ≠ some '0') : PlainForm (-n) ("-" ++ String.ofList digits)
  | four {n : Nat} {digits : List Char} (hn : n < 2 ^ 16) (hdigits : Capital digits n)
      (hlength : digits.length = 4) : PlainForm n ("0x" ++ String.ofList digits)
  | eight {n : Nat} {digits : List Char} (hmin : 2 ^ 16 ≤ n) (hmax : n < 2 ^ 32)
      (hdigits : Capital digits n) (hlength : digits.length = 8) :
      PlainForm n ("0x" ++ String.ofList digits)
  | long {n : Nat} {digits : List Char} (hn : 2 ^ 32 ≤ n) (hdigits : Capital digits n)
      (hfirst : digits.head? ≠ some '0') : PlainForm n ("0x" ++ String.ofList digits)

/-- The canonical text of a mask with these bits: it has eight digits if they are
enough, else no zero in front. -/
inductive MaskForm : Nat → String → Prop
  | eight {bits : Nat} {digits : List Char} (hn : bits < 2 ^ 32) (hdigits : Capital digits bits)
      (hlength : digits.length = 8) : MaskForm bits ("0x" ++ String.ofList digits)
  | long {bits : Nat} {digits : List Char} (hn : 2 ^ 32 ≤ bits) (hdigits : Capital digits bits)
      (hfirst : digits.head? ≠ some '0') : MaskForm bits ("0x" ++ String.ofList digits)

/-! ### Texts -/

theorem capital_padZeros (width n : Nat) : Capital (padZeros width (hex n)) n where
  denotes := denotes_padZeros width (by decide) (by decide) (denotes_hex n)
  capitals _ := mem_upperDigits_of_mem_padZeros

theorem length_padZeros_hex {width n : Nat} (hwidth : 0 < width) (hn : n < 16 ^ width) :
    (padZeros width (hex n)).length = width := by
  rw [length_padZeros]
  exact Nat.max_eq_left ((length_hex_le_iff hwidth).mpr hn)

theorem plainForm_hexLiteral (n : Nat) :
    PlainForm n (hexLiteral (plainWidth (hex n).length) n) := by
  have hbits16 : (hex n).length ≤ 4 ↔ n < 2 ^ 16 := length_hex_le_iff (by decide)
  have hbits32 : (hex n).length ≤ 8 ↔ n < 2 ^ 32 := length_hex_le_iff (by decide)
  unfold plainWidth
  split
  · next hlength =>
      have hn := hbits16.mp hlength
      exact .four hn (capital_padZeros 4 n) (length_padZeros_hex (by decide) hn)
  split
  · next hmin hmax =>
      rw [hbits16] at hmin
      have hn := hbits32.mp hmax
      exact .eight (by omega) hn (capital_padZeros 8 n) (length_padZeros_hex (by decide) hn)
  · next hlength =>
      rw [hbits32] at hlength
      refine .long (by omega) (capital_padZeros _ n) ?_
      rw [padZeros_of_le (Nat.le_refl _)]
      exact head?_hex_ne (by omega)

theorem maskForm_hexLiteral (bits : Nat) : MaskForm bits (hexLiteral 8 bits) := by
  have hbits32 : (hex bits).length ≤ 8 ↔ bits < 2 ^ 32 := length_hex_le_iff (by decide)
  by_cases hbits : bits < 2 ^ 32
  · exact .eight hbits (capital_padZeros 8 bits) (length_padZeros_hex (by decide) hbits)
  · refine .long (by omega) (capital_padZeros 8 bits) ?_
    rw [← hbits32] at hbits
    rw [padZeros_of_le (by omega)]
    apply head?_hex_ne
    omega

theorem plainForm_toString {n : Nat} (hn : 0 < n) : PlainForm (-n) (toString (-(n : Int))) := by
  have htext : toString (-(n : Int)) = "-" ++ String.ofList (Nat.toDigits 10 n) := by
    apply String.toList_inj.mp
    rw [toList_toString_negative hn]
    simp
  rw [htext]
  exact .negative hn (denotes_toDigits n) (head?_toDigits_ne hn)

theorem plainReading_ne (value : Int64) : (plainReading value).toInt ≠ 0xFFFFFFFF := by
  rw [plainReading]
  split
  · decide
  · assumption

theorem plainForm_canonicalPlain (value : Int64) :
    PlainForm (plainReading value).toInt (canonicalPlain value) := by
  rw [← canonicalPlain_plainReading]
  have hne := plainReading_ne value
  generalize plainReading value = reading at hne
  by_cases hneg : reading.toInt < 0
  · obtain ⟨n, hn⟩ := Int.eq_ofNat_of_zero_le (a := -reading.toInt) (by omega)
    have hreading : reading.toInt = -(n : Int) := by omega
    rw [canonicalPlain_negative hneg, hreading]
    exact plainForm_toString (by omega)
  · obtain ⟨n, hn⟩ := Int.eq_ofNat_of_zero_le (a := reading.toInt) (by omega)
    rw [canonicalPlain_nonnegative (by omega) hne, hn]
    exact plainForm_hexLiteral n

/-! ### Readings -/

def maskReading (value : Int64) : Int64 :=
  if -2 ^ 31 ≤ value.toInt ∧ value.toInt < 0 then value + 2 ^ 32 else value

theorem ofNat_maskBits (value : Int64) : Int64.ofNat (maskBits value) = maskReading value := by
  apply Int64.toInt_inj.mp
  rw [toInt_ofNat_maskBits, maskReading]
  by_cases h : -2 ^ 31 ≤ value.toInt ∧ value.toInt < 0
  · have hsum : (value.toInt + 2 ^ 32).bmod (2 ^ 64) = value.toInt + 2 ^ 32 :=
      Int.bmod_eq_of_le (by omega) (by omega)
    rw [if_pos h, if_pos (by omega), Int64.toInt_add]
    exact hsum.symm
  · rw [if_neg h, if_neg (by omega)]

theorem toNat_maskReading (value : Int64) :
    (maskReading value).toUInt64.toNat = maskBits value := by
  rw [← ofNat_maskBits, Int64.toUInt64_ofNat', UInt64.toNat_ofNat_of_lt' (maskBits_lt value)]

theorem value?_canonicalMask_reading (value : Int64) :
    value? (canonicalMask value) = some (maskReading value) := by
  rw [value?_canonicalMask, ofNat_maskBits]

theorem canonicalMask_maskReading (value : Int64) :
    canonicalMask (maskReading value) = canonicalMask value := by
  rw [← ofNat_maskBits, canonicalMask_maskBits]

/-- A text that reads back is shared by the values that read back alike. -/
theorem canonical_eq_iff {canonical : Int64 → String} {reading : Int64 → Int64}
    (hread : ∀ value, value? (canonical value) = some (reading value))
    (hkept : ∀ value, canonical (reading value) = canonical value) (v w : Int64) :
    canonical v = canonical w ↔ reading v = reading w := by
  constructor
  · intro htext
    have hv := hread v
    rw [htext, hread w] at hv
    exact (Option.some.inj hv).symm
  · intro hreading
    rw [← hkept v, hreading, hkept w]

/-- Canonical texts read back. All 32 bits set read back as minus one from the
text of a plain value, and a negative number of 32 bits is read back from the
text of a mask as the number with the same bits; all other values are read back
as they are. -/
theorem canonical_reads_back (v w : Int64) :
    (value? (canonicalPlain v) = some (plainReading v) ∧
      (canonicalPlain v = canonicalPlain w ↔ plainReading v = plainReading w) ∧
      PlainForm (plainReading v).toInt (canonicalPlain v)) ∧
    value? (canonicalMask v) = some (maskReading v) ∧
      (canonicalMask v = canonicalMask w ↔ maskReading v = maskReading w) ∧
      MaskForm (maskReading v).toUInt64.toNat (canonicalMask v) := by
  have hplain := canonical_eq_iff value?_canonicalPlain canonicalPlain_plainReading v w
  have hmask := canonical_eq_iff value?_canonicalMask_reading canonicalMask_maskReading v w
  refine ⟨⟨value?_canonicalPlain v, hplain, plainForm_canonicalPlain v⟩,
    value?_canonicalMask_reading v, hmask, ?_⟩
  rw [toNat_maskReading]
  exact maskForm_hexLiteral (maskBits v)

end LazyGL.Literal
