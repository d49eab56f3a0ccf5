import LazyGL.Proofs.Registry.Grammar

/-!
Canonical forms read back. What a plain value reads back as is the value, except
that all 32 bits set have become minus one; a mask reads back as itself, except
that a negative number of 32 bits has become the number with the same bits.
Either way the lower 32 bits and the canonical form stay.
-/

namespace LazyGL.Literal

open Numeral

def hexLiteral (width n : Nat) : String :=
  "0x" ++ String.ofList (padZeros width (hex n))

theorem toList_hexLiteral (width n : Nat) :
    (hexLiteral width n).toList = '0' :: 'x' :: padZeros width (hex n) := by
  simp [hexLiteral]

theorem value?_hexLiteral (width : Nat) {n : Nat} (hbound : n < UInt64.size) :
    value? (hexLiteral width n) = some (Int64.ofNat n) := by
  have hdigits := denotes_padZeros width (by decide) (by decide) (denotes_hex n)
  have hspelling : Spelling (hexLiteral width n).toList n := by
    rw [toList_hexLiteral]
    exact @Spelling.hexadecimal 'x' [] _ n (.inl rfl) (.inl rfl) hdigits hbound
  rw [value?_of_spelling hspelling, Int64.ofInt_eq_ofNat]

theorem toList_toString_negative {n : Nat} (hpos : 0 < n) :
    (toString (-(n : Int))).toList = '-' :: Nat.toDigits 10 n := by
  rw [Int.toString_eq_repr, Int.repr_eq_if, if_neg (by omega)]
  simp

theorem value?_negative {n : Nat} (hpos : 0 < n) (hbound : n ≤ 0x8000000000000000) :
    value? (toString (-(n : Int))) = some (Int64.ofInt (-(n : Int))) := by
  apply value?_of_spelling
  rw [toList_toString_negative hpos]
  exact .negative (denotes_toDigits n) hbound

/-! ### Plain values -/

theorem canonicalPlain_allBits {value : Int64}
    (h : value.toInt = -1 ∨ value.toInt = 0xFFFFFFFF) :
    canonicalPlain value = toString (-1 : Int) := by
  rw [canonicalPlain, if_pos h]
  decide

theorem canonicalPlain_negative {value : Int64} (h : value.toInt < 0) :
    canonicalPlain value = toString value.toInt := by
  by_cases hone : value.toInt = -1
  · rw [canonicalPlain_allBits (.inl hone), hone]
  · rw [canonicalPlain, if_neg (by omega), if_pos h]

theorem canonicalPlain_nonnegative {value : Int64} (h : 0 ≤ value.toInt)
    (hne : value.toInt ≠ 0xFFFFFFFF) :
    canonicalPlain value =
      hexLiteral (plainWidth (hex value.toInt.toNat).length) value.toInt.toNat := by
  rw [canonicalPlain, if_neg (by omega), if_neg (by omega)]
  rfl

/-- What the canonical form of a plain value reads back as. -/
def plainReading (value : Int64) : Int64 :=
  if value.toInt = 0xFFFFFFFF then -1 else value

theorem value?_canonicalPlain (value : Int64) :
    value? (canonicalPlain value) = some (plainReading value) := by
  have hmin : -2 ^ 63 ≤ value.toInt := Int64.le_toInt value
  have hmax : value.toInt < 2 ^ 63 := Int64.toInt_lt value
  by_cases hbits : value.toInt = 0xFFFFFFFF
  · rw [canonicalPlain_allBits (.inr hbits), plainReading, if_pos hbits]
    exact value?_negative (n := 1) (by decide) (by decide)
  rw [plainReading, if_neg hbits]
  by_cases hneg : value.toInt < 0
  · obtain ⟨n, hn⟩ := Int.eq_ofNat_of_zero_le (a := -value.toInt) (by omega)
    have hvalue : value.toInt = -(n : Int) := by omega
    rw [canonicalPlain_negative hneg, hvalue, value?_negative (by omega) (by omega), ← hvalue,
      Int64.ofInt_toInt]
  · obtain ⟨n, hn⟩ := Int.eq_ofNat_of_zero_le (a := value.toInt) (by omega)
    have hbound : n < UInt64.size := by
      simp only [UInt64.size]
      omega
    rw [canonicalPlain_nonnegative (by omega) hbits, hn, Int.toNat_natCast,
      value?_hexLiteral _ hbound, ← Int64.ofInt_eq_ofNat, ← hn, Int64.ofInt_toInt]

theorem canonicalPlain_plainReading (value : Int64) :
    canonicalPlain (plainReading value) = canonicalPlain value := by
  rw [plainReading]
  split
  · next h => rw [canonicalPlain_allBits (.inr h), canonicalPlain_allBits (.inl (by decide))]
  · rfl

theorem plainReading_emod (value : Int64) :
    (plainReading value).toInt % 0x100000000 = value.toInt % 0x100000000 := by
  rw [plainReading]
  split
  · next h =>
      rw [h]
      decide
  · rfl

/-! ### Masks -/

theorem maskBits_lt (value : Int64) : maskBits value < UInt64.size := by
  simp only [maskBits, UInt64.size]
  split <;> omega

theorem value?_canonicalMask (value : Int64) :
    value? (canonicalMask value) = some (Int64.ofNat (maskBits value)) :=
  value?_hexLiteral 8 (maskBits_lt value)

theorem maskBits_nonnegative {value : Int64} (h : 0 ≤ value.toInt) :
    maskBits value = value.toInt.toNat := by
  have hmax : value.toInt < 2 ^ 63 := Int64.toInt_lt value
  simp only [maskBits]
  rw [if_neg (by omega), Int.emod_eq_of_lt h (by omega)]

theorem toInt_ofNat_maskBits (value : Int64) :
    (Int64.ofNat (maskBits value)).toInt =
      if value.toInt < 0 ∧ -0x80000000 ≤ value.toInt then value.toInt + 0x100000000
      else value.toInt := by
  have hmin : -2 ^ 63 ≤ value.toInt := Int64.le_toInt value
  have hmax : value.toInt < 2 ^ 63 := Int64.toInt_lt value
  rw [← Int64.ofInt_eq_ofNat]
  split
  · next h =>
      have hbits : (maskBits value : Int) = value.toInt + 0x100000000 := by
        simp only [maskBits, if_pos h]
        omega
      rw [hbits, Int64.toInt_ofInt_of_le (by omega) (by omega)]
  · next h =>
      -- all 64 bits are kept, and the signed number with these bits is unique
      have hbits : (maskBits value : Int) = value.toInt % 0x10000000000000000 := by
        simp only [maskBits, if_neg h]
        omega
      rw [hbits, Int64.toInt_ofInt]
      change (value.toInt % ((2 ^ 64 : Nat) : Int)).bmod (2 ^ 64) = value.toInt
      rw [Int.emod_bmod, Int.bmod_eq_of_le (by omega) (by omega)]

theorem maskBits_ofNat_maskBits (value : Int64) :
    maskBits (Int64.ofNat (maskBits value)) = maskBits value := by
  have hread := toInt_ofNat_maskBits value
  split at hread
  · next h =>
      -- read back, a negative number of 32 bits is positive
      rw [maskBits_nonnegative (by omega), hread]
      simp only [maskBits, if_pos h]
  · next h =>
      rw [← Int64.ofInt_toInt (Int64.ofNat (maskBits value)), hread, Int64.ofInt_toInt]

theorem canonicalMask_maskBits (value : Int64) :
    canonicalMask (Int64.ofNat (maskBits value)) = canonicalMask value := by
  rw [canonicalMask, canonicalMask, maskBits_ofNat_maskBits]

theorem maskBits_emod (value : Int64) :
    (maskBits value : Int) % 0x100000000 = value.toInt % 0x100000000 := by
  simp only [maskBits]
  split <;> omega

def ReadsBack (canonical : Int64 → String) : Prop :=
  ∀ value, ∃ reading, value? (canonical value) = some reading ∧
    canonical reading = canonical value

theorem readsBack_canonicalPlain : ReadsBack canonicalPlain :=
  fun value => ⟨_, value?_canonicalPlain value, canonicalPlain_plainReading value⟩

theorem readsBack_canonicalMask : ReadsBack canonicalMask :=
  fun value => ⟨_, value?_canonicalMask value, canonicalMask_maskBits value⟩

end LazyGL.Literal
