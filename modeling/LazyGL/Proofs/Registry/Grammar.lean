import LazyGL.Proofs.Digits
import LazyGL.Proofs.Text.Blank
import LazyGL.Registry.Literal
import Mathlib.Data.Int.ModEq

/-!
The grammar of values as written. A numeral is hexadecimal after `0x` or `0X`,
or it is decimal, and it has an optional sign, but no minus sign before the
hexadecimal digits. It denotes a number of 64 bits, signed or not.

Main statement: a text has a value if and only if it spells a number of this
grammar with blanks around it, and the value is the signed number with the
lower 64 bits of that number.
-/

namespace LazyGL.Literal

open Numeral

variable {base : Nat}

/-- The numerals that may stand for a value, and the numbers that they denote. -/
inductive Spelling : List Char → Int → Prop
  | hexadecimal {mark : Char} {sign digits : List Char} {n : Nat} (hmark : mark = 'x' ∨ mark = 'X')
      (hsign : OptionalPlus sign) (hdigits : Denotes 16 digits n) (hn : n < 2 ^ 64) :
      Spelling ('0' :: mark :: (sign ++ digits)) n
  | decimal {sign digits : List Char} {n : Nat} (hsign : OptionalPlus sign)
      (hdigits : Denotes 10 digits n) (hn : n < 2 ^ 64) : Spelling (sign ++ digits) n
  | negative {digits : List Char} {n : Nat} (hdigits : Denotes 10 digits n) (hn : n ≤ 2 ^ 63) :
      Spelling ('-' :: digits) (-n)

/-- A text that spells a number, with any blanks around the numeral. -/
def Spells (text : String) (n : Int) : Prop :=
  ∃ front chars back, text.toList = front ++ chars ++ back ∧
    (∀ c ∈ front ++ back, Blank.isBlank c = true) ∧ Spelling chars n

theorem toOption_map_eq_some_iff {ε α β : Type} {x : Except ε α} {f : α → β} {b : β} :
    x.toOption.map f = some b ↔ ∃ a, x = .ok a ∧ b = f a := by
  cases x with
  | error fault =>
      refine ⟨nofun, ?_⟩
      rintro ⟨a, ha, -⟩
      cases ha
  | ok a => simp [Except.toOption, eq_comm]

/-- What is read without a minus sign, in 64 bits. -/
theorem readUnsigned_eq_some_iff (hpos : 0 < base) (hbase : base ≤ 16) {chars : List Char}
    {v : Int64} :
    (readUnsigned base UInt64.size chars).toOption.map Int64.ofNat = some v ↔
      ∃ sign digits, ∃ n : Nat, chars = sign ++ digits ∧ OptionalPlus sign ∧
        Denotes base digits n ∧ n < 2 ^ 64 ∧ v = Int64.ofInt n := by
  rw [toOption_map_eq_some_iff]
  constructor
  · rintro ⟨n, hread, rfl⟩
    obtain ⟨sign, digits, hchars, hsign, hdigits, hn⟩ :=
      (readUnsigned_eq_ok_iff hpos hbase (by decide)).mp hread
    exact ⟨sign, digits, n, hchars, hsign, hdigits, hn, Int64.ofInt_eq_ofNat.symm⟩
  · rintro ⟨sign, digits, n, hchars, hsign, hdigits, hn, rfl⟩
    exact ⟨n, (readUnsigned_eq_ok_iff hpos hbase (by decide)).mpr
      ⟨sign, digits, hchars, hsign, hdigits, hn⟩, Int64.ofInt_eq_ofNat⟩

/-- A minus sign is no digit. -/
theorem ne_minus_append {sign digits chars : List Char} {n : Nat} (hbase : base ≤ 16)
    (hsign : OptionalPlus sign) (hdigits : Denotes base digits n) :
    sign ++ digits ≠ '-' :: chars := by
  have hall := ((denotes_iff hbase).mp hdigits).2.1
  rcases hsign with rfl | rfl
  · rintro rfl
    exact not_mem_of_digits hall (by decide) List.mem_cons_self
  · rintro ⟨⟩

theorem decimal?_minus {chars : List Char} {v : Int64} :
    decimal? ('-' :: chars) = some v ↔
      ∃ n : Nat, Denotes 10 chars n ∧ n ≤ 2 ^ 63 ∧ v = Int64.ofInt (-n) := by
  constructor
  · intro h
    unfold decimal? at h
    split at h
    · next z hread =>
        obtain ⟨n, hdigits, hn, rfl⟩ :=
          (readSigned_minus_eq_ok_iff (by decide) (by decide)).mp hread
        cases h
        exact ⟨n, hdigits, hn, rfl⟩
    · obtain ⟨sign, digits, n, hchars, hsign, hdigits, -, -⟩ :=
        (readUnsigned_eq_some_iff (by decide) (by decide)).mp h
      exact absurd hchars.symm (ne_minus_append (by decide) hsign hdigits)
  · rintro ⟨n, hdigits, hn, rfl⟩
    have hread : readSigned 10 0x8000000000000000 ('-' :: chars) = .ok (-(n : Int)) :=
      (readSigned_minus_eq_ok_iff (by decide) (by decide)).mpr ⟨n, hdigits, hn, rfl⟩
    simp only [decimal?, hread]

/-- Without a minus sign the first reading adds nothing to the second one. -/
theorem decimal?_of_ne_minus {chars : List Char} (h : chars.head? ≠ some '-') :
    decimal? chars = (readUnsigned 10 UInt64.size chars).toOption.map Int64.ofNat := by
  rw [decimal?, readSigned_of_ne_minus h]
  cases hread : readUnsigned 10 0x8000000000000000 chars with
  | error fault => rfl
  | ok n =>
      rw [readUnsigned_mono (by decide) (by decide) (by decide) (by decide) hread]
      exact congrArg some Int64.ofInt_eq_ofNat

theorem spelling_decimal_iff {chars : List Char} {v : Int64}
    (hmark : ∀ mark rest, chars = '0' :: mark :: rest → mark ≠ 'x' ∧ mark ≠ 'X') :
    decimal? chars = some v ↔ ∃ n, Spelling chars n ∧ v = Int64.ofInt n := by
  constructor
  · intro h
    by_cases hminus : chars.head? = some '-'
    · obtain ⟨rest, rfl⟩ := List.head?_eq_some_iff.mp hminus
      obtain ⟨n, hdigits, hn, rfl⟩ := decimal?_minus.mp h
      exact ⟨_, .negative hdigits hn, rfl⟩
    · rw [decimal?_of_ne_minus hminus] at h
      obtain ⟨sign, digits, n, rfl, hsign, hdigits, hn, rfl⟩ :=
        (readUnsigned_eq_some_iff (by decide) (by decide)).mp h
      exact ⟨_, .decimal hsign hdigits hn, rfl⟩
  · rintro ⟨n, hspelling, rfl⟩
    cases hspelling with
    | hexadecimal hx =>
        obtain ⟨hsmall, hlarge⟩ := hmark _ _ rfl
        exact absurd hx (by simp [hsmall, hlarge])
    | decimal hsign hdigits hn =>
        rw [decimal?_of_ne_minus]
        · exact (readUnsigned_eq_some_iff (by decide) (by decide)).mpr
            ⟨_, _, _, rfl, hsign, hdigits, hn, rfl⟩
        · intro hhead
          obtain ⟨rest, hrest⟩ := List.head?_eq_some_iff.mp hhead
          exact ne_minus_append (by decide) hsign hdigits hrest
    | negative hdigits hn => exact decimal?_minus.mpr ⟨_, hdigits, hn, rfl⟩

theorem spelling_hexadecimal_iff {mark : Char} {chars : List Char} {v : Int64}
    (hmark : mark = 'x' ∨ mark = 'X') :
    hexadecimal? chars = some v ↔ ∃ n, Spelling ('0' :: mark :: chars) n ∧ v = Int64.ofInt n := by
  rw [hexadecimal?, readUnsigned_eq_some_iff (by decide) (by decide)]
  constructor
  · rintro ⟨sign, digits, n, rfl, hsign, hdigits, hn, rfl⟩
    exact ⟨_, .hexadecimal hmark hsign hdigits hn, rfl⟩
  · rintro ⟨n, hspelling, rfl⟩
    generalize hchars : '0' :: mark :: chars = whole at hspelling
    cases hspelling with
    | hexadecimal _ hsign hdigits hn =>
        obtain ⟨-, hchars⟩ := List.cons_eq_cons.mp hchars
        obtain ⟨-, rfl⟩ := List.cons_eq_cons.mp hchars
        exact ⟨_, _, _, rfl, hsign, hdigits, hn, rfl⟩
    | @decimal sign digits _ hsign hdigits hn =>
        -- the mark is no decimal digit
        have hall := ((denotes_iff (by decide)).mp hdigits).2.1
        rcases hsign with rfl | rfl
        · rw [List.nil_append] at hchars
          rw [← hchars] at hall
          have hdigit := hall mark (by simp)
          rcases hmark with rfl | rfl <;> cases hdigit
        · cases hchars
    | negative hdigits hn => cases hchars

theorem value?_eq_some_iff_spelling {text : String} {v : Int64} :
    value? text = some v ↔
      ∃ n, Spelling (Blank.trimChars text.toList) n ∧ v = Int64.ofInt n := by
  unfold value?
  generalize Blank.trimChars text.toList = chars
  split
  · exact spelling_hexadecimal_iff (.inl rfl)
  · exact spelling_hexadecimal_iff (.inr rfl)
  · next hsmall hlarge =>
      refine spelling_decimal_iff ?_
      rintro mark rest rfl
      constructor
      · rintro rfl
        exact hsmall rest rfl
      · rintro rfl
        exact hlarge rest rfl

theorem isBlank_of_denotes {chars : List Char} {n : Nat} (hbase : base ≤ 16)
    (h : Denotes base chars n) : ∀ c ∈ chars, Blank.isBlank c = false := by
  intro c hc
  obtain ⟨hmin, hmax⟩ := digit_range (((denotes_iff hbase).mp h).2.1 c hc)
  exact isBlank_eq_false (by omega) (by omega)

theorem isBlank_of_spelling {chars : List Char} {n : Int} (h : Spelling chars n) :
    ∀ c ∈ chars, Blank.isBlank c = false := by
  have hsigned {base : Nat} {sign digits : List Char} {n : Nat} (hbase : base ≤ 16)
      (hsign : OptionalPlus sign) (hdigits : Denotes base digits n) :
      ∀ c ∈ sign ++ digits, Blank.isBlank c = false := by
    rw [List.forall_mem_append]
    refine ⟨?_, isBlank_of_denotes hbase hdigits⟩
    rcases hsign with rfl | rfl
    · exact List.forall_mem_nil _
    · exact List.forall_mem_singleton.mpr (by decide)
  cases h with
  | hexadecimal hmark hsign hdigits hn =>
      rw [List.forall_mem_cons, List.forall_mem_cons]
      refine ⟨by decide, ?_, hsigned (by decide) hsign hdigits⟩
      rcases hmark with rfl | rfl <;> decide
  | decimal hsign hdigits hn => exact hsigned (by decide) hsign hdigits
  | negative hdigits hn =>
      rw [List.forall_mem_cons]
      exact ⟨by decide, isBlank_of_denotes (by decide) hdigits⟩

/-- A numeral with no blanks around it has its value. -/
theorem value?_of_spelling {text : String} {n : Int} (h : Spelling text.toList n) :
    value? text = some (Int64.ofInt n) := by
  rw [value?_eq_some_iff_spelling, Blank.trimChars_eq (isBlank_of_spelling h)]
  exact ⟨n, h, rfl⟩

theorem spells_iff {text : String} {n : Int} :
    Spells text n ↔ Spelling (Blank.trimChars text.toList) n := by
  constructor
  · rintro ⟨front, chars, back, htext, hblank, hspelling⟩
    rwa [htext, Blank.trimChars_append hblank (isBlank_of_spelling hspelling)]
  · intro hspelling
    obtain ⟨front, back, htext, hblank⟩ := Blank.exists_trimChars text.toList
    exact ⟨front, _, back, htext, hblank, hspelling⟩

/-- A number of 64 bits is the one with its remainder. -/
theorem eq_ofInt_iff {v : Int64} {n : Int} : v = Int64.ofInt n ↔ v.toInt ≡ n [ZMOD 2 ^ 64] := by
  have hmin : -2 ^ 63 ≤ v.toInt := Int64.le_toInt v
  have hmax : v.toInt < 2 ^ 63 := Int64.toInt_lt v
  rw [eq_comm, Int64.ofInt_eq_iff_bmod_eq_toInt, Int.bmod_def, Int.ModEq]
  split <;> omega

theorem value?_eq_some_iff {text : String} {v : Int64} :
    value? text = some v ↔ ∃ n, Spells text n ∧ v.toInt ≡ n [ZMOD 2 ^ 64] := by
  rw [value?_eq_some_iff_spelling]
  simp only [spells_iff, eq_ofInt_iff]

theorem exists_spells_iff {text : String} : (∃ n, Spells text n) ↔ ¬(value? text).isNone := by
  rw [Option.isNone_iff_eq_none, ← ne_eq, Option.ne_none_iff_exists']
  constructor
  · rintro ⟨n, hspells⟩
    exact ⟨Int64.ofInt n, value?_eq_some_iff.mpr ⟨n, hspells, eq_ofInt_iff.mp rfl⟩⟩
  · rintro ⟨v, hvalue⟩
    obtain ⟨n, hspells, -⟩ := value?_eq_some_iff.mp hvalue
    exact ⟨n, hspells⟩

end LazyGL.Literal
