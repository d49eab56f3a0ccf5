import LazyGL.Numeral
import LazyGL.Text.Blank

/-!
The positional value of a numeral. A reader gives the value of the digits it is
shown as long as that is below its bound, and the digits that a writer makes of
a number have this number as their value, with any zeros in front.
-/

namespace LazyGL.Numeral

def Digits (base : Nat) (chars : List Char) : Prop := ∀ c ∈ chars, (digit? base c).isSome

/-- The value of some digits after digits of the value `value`. -/
def place (base value : Nat) (chars : List Char) : Nat :=
  chars.foldl (fun n c => n * base + (digit? base c).getD 0) value

variable {base : Nat}

theorem digits_nil : Digits base [] := nofun

theorem digits_cons {c : Char} {chars : List Char} :
    Digits base (c :: chars) ↔ (digit? base c).isSome ∧ Digits base chars :=
  List.forall_mem_cons

theorem digits_append {chars more : List Char} :
    Digits base (chars ++ more) ↔ Digits base chars ∧ Digits base more :=
  List.forall_mem_append

theorem place_append (value : Nat) (chars more : List Char) :
    place base value (chars ++ more) = place base (place base value chars) more :=
  List.foldl_append

theorem place_singleton (value : Nat) {c : Char} {d : Nat} (h : digit? base c = some d) :
    place base value [c] = value * base + d := by
  simp [place, h]

theorem le_place (hbase : 0 < base) (value : Nat) (chars : List Char) :
    value ≤ place base value chars := by
  induction chars generalizing value with
  | nil => exact Nat.le_refl value
  | cons c chars ih =>
      have hstep : value ≤ value * base + (digit? base c).getD 0 := by
        have := Nat.le_mul_of_pos_right value hbase
        omega
      exact Nat.le_trans hstep (ih _)

/-! ### Reading -/

theorem digit_range {c : Char} (h : (digit? base c).isSome) : 48 ≤ c.toNat ∧ c.toNat ≤ 122 := by
  have hle (a b : Char) : a ≤ b ↔ a.toNat ≤ b.toNat := Iff.rfl
  by_cases hdigit : '0' ≤ c ∧ c ≤ '9'
  · rw [hle, hle] at hdigit
    exact ⟨hdigit.1, Nat.le_trans hdigit.2 (by decide)⟩
  by_cases hlower : 'a' ≤ c ∧ c ≤ 'z'
  · rw [hle, hle] at hlower
    exact ⟨Nat.le_trans (by decide) hlower.1, hlower.2⟩
  by_cases hupper : 'A' ≤ c ∧ c ≤ 'Z'
  · rw [hle, hle] at hupper
    exact ⟨Nat.le_trans (by decide) hupper.1, Nat.le_trans hupper.2 (by decide)⟩
  simp [digit?, hdigit, hlower, hupper] at h

/-- No sign is among digits. -/
theorem not_mem_of_digits {chars : List Char} (h : Digits base chars) {c : Char}
    (hc : c.toNat < 48) : c ∉ chars := by
  intro hmem
  have hdigit := (digit_range (h c hmem)).1
  omega

/-- Digits are read as their value, and nothing else is read. -/
theorem readDigits_eq_ok_iff (hbase : 0 < base) {bound value n : Nat} {chars : List Char}
    (hvalue : value < bound) :
    readDigits base bound value chars = .ok n ↔
      Digits base chars ∧ place base value chars = n ∧ n < bound := by
  induction chars generalizing value with
  | nil =>
      simp only [readDigits, Except.ok.injEq]
      constructor
      · rintro rfl
        exact ⟨digits_nil, rfl, hvalue⟩
      · rintro ⟨-, hplace, -⟩
        exact hplace
  | cons c chars ih =>
      rw [digits_cons]
      cases hd : digit? base c with
      | none => simp [readDigits, hd]
      | some d =>
          have hstep : place base value (c :: chars) = place base (value * base + d) chars := by
            simp [place, hd]
          rw [hstep, and_assoc]
          simp only [readDigits, hd, Option.isSome_some, true_and]
          by_cases hlt : value * base + d < bound
          · rw [if_pos hlt]
            exact ih hlt
          · -- the value only grows, so a bound that is passed stays passed
            rw [if_neg hlt]
            have hle := le_place hbase (value * base + d) chars
            refine ⟨nofun, fun ⟨_, hplace, hn⟩ => ?_⟩
            omega

theorem readDigits_eq (hbase : 0 < base) {bound value : Nat} {chars : List Char}
    (hdigits : Digits base chars) (hbound : place base value chars < bound) :
    readDigits base bound value chars = .ok (place base value chars) :=
  (readDigits_eq_ok_iff hbase (Nat.lt_of_le_of_lt (le_place hbase value chars) hbound)).mpr
    ⟨hdigits, rfl, hbound⟩

/-- A numeral of digits alone is read as they are. -/
theorem readUnsigned_eq (hbase : 0 < base) {bound : Nat} {chars : List Char} (hne : chars ≠ [])
    (hdigits : Digits base chars) (hbound : place base 0 chars < bound) :
    readUnsigned base bound chars = .ok (place base 0 chars) := by
  have hread : readUnsigned base bound chars = readDigits base bound 0 chars := by
    -- a plus sign is the only character that is treated apart
    unfold readUnsigned
    split
    · exact absurd rfl hne
    · exact absurd List.mem_cons_self (not_mem_of_digits hdigits (by decide))
    · exact absurd List.mem_cons_self (not_mem_of_digits hdigits (by decide))
    · rfl
  rw [hread, readDigits_eq hbase hdigits hbound]

/-- A numeral after a minus sign is read as the number below zero. -/
theorem readSigned_minus (hbase : 0 < base) {bound : Nat} {chars : List Char} (hne : chars ≠ [])
    (hdigits : Digits base chars) (hbound : place base 0 chars ≤ bound) :
    readSigned base bound ('-' :: chars) = .ok (-(place base 0 chars : Int)) := by
  cases chars with
  | nil => exact absurd rfl hne
  | cons c rest =>
      rw [readSigned, readDigits_eq hbase hdigits (Nat.lt_succ_of_le hbound)]
      · rfl
      · simp

/-! ### Writing -/

theorem digits_replicate_zero (hbase : 0 < base) (count : Nat) :
    Digits base (List.replicate count '0') := by
  intro c hc
  rw [List.eq_of_mem_replicate hc]
  simp [digit?, hbase]

theorem place_replicate_zero (count : Nat) (chars : List Char) :
    place base 0 (List.replicate count '0' ++ chars) = place base 0 chars := by
  rw [place_append]
  congr 1
  induction count with
  | zero => rfl
  | succ count ih =>
      rw [List.replicate_succ, ← List.singleton_append, place_append]
      have hzero : place base 0 ['0'] = 0 := by
        simp [place, digit?, Option.filter]
        split <;> rfl
      rw [hzero, ih]

theorem digits_padZeros (width : Nat) (hbase : 0 < base) {chars : List Char}
    (h : Digits base chars) : Digits base (padZeros width chars) :=
  digits_append.mpr ⟨digits_replicate_zero hbase _, h⟩

theorem place_padZeros (width : Nat) (chars : List Char) :
    place base 0 (padZeros width chars) = place base 0 chars :=
  place_replicate_zero _ chars

theorem padZeros_ne_nil {width : Nat} {chars : List Char} (h : chars ≠ []) :
    padZeros width chars ≠ [] := by
  simp [padZeros, h]

/-- What a writer makes of numbers below the base is read as them. -/
theorem toDigits_spec (hbase : 1 < base) (write : Char → Char)
    (hwrite : ∀ d < base, digit? base (write (Nat.digitChar d)) = some d) (n : Nat) :
    Digits base ((Nat.toDigits base n).map write) ∧
      place base 0 ((Nat.toDigits base n).map write) = n := by
  -- all but the last digit are those of the quotient
  induction n using Nat.strongRecOn with
  | ind n ih =>
      by_cases hn : n < base
      · have hd := hwrite n hn
        rw [Nat.toDigits_of_lt_base hn]
        refine ⟨?_, ?_⟩
        · simp [digits_cons, hd, digits_nil]
        · rw [List.map_singleton, place_singleton 0 hd]
          omega
      · have hn' : base ≤ n := Nat.le_of_not_lt hn
        have hd := hwrite (n % base) (Nat.mod_lt n (by omega))
        obtain ⟨hdigits, hplace⟩ := ih (n / base) (Nat.div_lt_self (by omega) hbase)
        rw [Nat.toDigits_of_base_le hbase hn', List.map_append, List.map_singleton]
        refine ⟨?_, ?_⟩
        · simp [digits_append, digits_cons, hdigits, hd, digits_nil]
        · rw [place_append, hplace, place_singleton _ hd]
          exact Nat.div_add_mod' n base

theorem digits_hex (n : Nat) : Digits 16 (hex n) :=
  (toDigits_spec (by decide) Char.toUpper (by decide) n).1

theorem place_hex (n : Nat) : place 16 0 (hex n) = n :=
  (toDigits_spec (by decide) Char.toUpper (by decide) n).2

theorem hex_ne_nil (n : Nat) : hex n ≠ [] := by
  simp [hex]

theorem digits_toDigits (n : Nat) : Digits 10 (Nat.toDigits 10 n) := by
  simpa using (@toDigits_spec 10 (by decide) id (by decide) n).1

theorem place_toDigits (n : Nat) : place 10 0 (Nat.toDigits 10 n) = n := by
  simpa using (@toDigits_spec 10 (by decide) id (by decide) n).2

theorem toList_toString (n : Nat) : (toString n).toList = Nat.toDigits 10 n := by
  rw [Nat.toString_eq_repr, Nat.toList_repr]

/-! ### Blanks -/

theorem isBlank_eq_false {c : Char} (hmin : 33 ≤ c.toNat) (hmax : c.toNat ≤ 126) :
    Blank.isBlank c = false := by
  simp [Blank.isBlank, Blank.ranges]
  omega

end LazyGL.Numeral
