import LazyGL.Proofs.Numeral
import Mathlib.Data.List.Forall2
import Mathlib.Data.Nat.Digits.Defs

/-!
Numerals as they are written down. A digit of a base up to sixteen is listed
with what it counts, and some digits denote a number by their places.

Main statement: an unsigned reader takes digits with an optional plus sign in
front and nothing else, a signed reader takes digits after a minus sign as well,
and what they give is the number that the digits denote, if it is in range.
-/

namespace LazyGL.Numeral

variable {base : Nat}

def lowerDigits : List Char :=
  ['0', '1', '2', '3', '4', '5', '6', '7', '8', '9', 'a', 'b', 'c', 'd', 'e', 'f']

def upperDigits : List Char :=
  ['0', '1', '2', '3', '4', '5', '6', '7', '8', '9', 'A', 'B', 'C', 'D', 'E', 'F']

def IsDigit (base : Nat) (c : Char) (d : Nat) : Prop :=
  d < base ∧ (lowerDigits[d]? = some c ∨ upperDigits[d]? = some c)

/-- One digit or more, the one of the highest place first. -/
def Denotes (base : Nat) (chars : List Char) (n : Nat) : Prop :=
  chars ≠ [] ∧
    ∃ digits, List.Forall₂ (IsDigit base) chars digits ∧ Nat.ofDigits base digits.reverse = n

theorem digit?_eq_some_iff {c : Char} {d : Nat} (hbase : base ≤ 16) :
    digit? base c = some d ↔ d < base ∧ digit? 16 c = some d := by
  simp only [digit?, Option.filter_eq_some_iff, decide_eq_true_eq]
  constructor
  · rintro ⟨hvalue, hd⟩
    exact ⟨hd, hvalue, Nat.lt_of_lt_of_le hd hbase⟩
  · rintro ⟨hd, hvalue, -⟩
    exact ⟨hvalue, hd⟩

theorem digit?_of_listed :
    ∀ d < 16, lowerDigits[d]?.bind (digit? 16) = some d ∧
      upperDigits[d]?.bind (digit? 16) = some d := by
  decide

theorem listed_of_digit? :
    ∀ code < 123, ∀ d < 16, digit? 16 (Char.ofNat code) = some d →
      lowerDigits[d]? = some (Char.ofNat code) ∨ upperDigits[d]? = some (Char.ofNat code) := by
  decide +kernel

theorem isDigit_iff {c : Char} {d : Nat} (hbase : base ≤ 16) :
    IsDigit base c d ↔ digit? base c = some d := by
  rw [digit?_eq_some_iff hbase, IsDigit]
  refine and_congr_right fun hd => ⟨fun hc => ?_, fun hc => ?_⟩
  · obtain ⟨hlower, hupper⟩ := digit?_of_listed d (Nat.lt_of_lt_of_le hd hbase)
    rcases hc with hc | hc
    · rwa [hc, Option.bind_some] at hlower
    · rwa [hc, Option.bind_some] at hupper
  · have hcode := (digit_range (Option.isSome_of_eq_some hc)).2
    rw [← Char.ofNat_toNat c] at hc ⊢
    exact listed_of_digit? c.toNat (Nat.lt_succ_of_le hcode) d (Nat.lt_of_lt_of_le hd hbase) hc

/-- The value of some digits is that of the list of what they count. -/
theorem place_eq_ofDigits {chars : List Char} {digits : List Nat}
    (h : List.Forall₂ (fun c d => digit? base c = some d) chars digits) (value : Nat) :
    place base value chars =
      Nat.ofDigits base digits.reverse + base ^ digits.length * value := by
  induction h generalizing value with
  | nil => simp [place]
  | @cons c d chars digits hd _ ih =>
      have hstep : place base value (c :: chars) = place base (value * base + d) chars := by
        simp [place, hd]
      rw [hstep, ih, Nat.ofDigits_reverse_cons, List.length_cons]
      ring

theorem denotes_iff {chars : List Char} {n : Nat} (hbase : base ≤ 16) :
    Denotes base chars n ↔ chars ≠ [] ∧ Digits base chars ∧ place base 0 chars = n := by
  have hdigit : IsDigit base = fun c d => digit? base c = some d := by
    funext c d
    exact propext (isDigit_iff hbase)
  rw [Denotes, hdigit]
  refine and_congr_right fun _ => ⟨?_, ?_⟩
  · rintro ⟨digits, hdigits, rfl⟩
    refine ⟨fun c hc => ?_, ?_⟩
    · obtain ⟨i, hi, rfl⟩ := List.mem_iff_getElem.mp hc
      have hlength := hdigits.length_eq
      exact Option.isSome_of_eq_some (hdigits.get hi (by omega))
    · rw [place_eq_ofDigits hdigits, Nat.mul_zero, Nat.add_zero]
  · rintro ⟨hdigits, rfl⟩
    have hcounts : List.Forall₂ (fun c d => digit? base c = some d) chars
        (chars.map fun c => (digit? base c).getD 0) := by
      rw [List.forall₂_map_right_iff, List.forall₂_same]
      intro c hc
      obtain ⟨d, hd⟩ := Option.isSome_iff_exists.mp (hdigits c hc)
      rw [hd, Option.getD_some]
    refine ⟨_, hcounts, ?_⟩
    rw [place_eq_ofDigits hcounts, Nat.mul_zero, Nat.add_zero]

/-- A sign that may be left out. -/
def OptionalPlus (sign : List Char) : Prop := sign = [] ∨ sign = ['+']

/-- What is read without a minus sign is digits after an optional plus sign. -/
theorem readUnsigned_eq_ok_iff (hpos : 0 < base) (hbase : base ≤ 16) {bound n : Nat}
    (hbound : 0 < bound) {chars : List Char} :
    readUnsigned base bound chars = .ok n ↔
      ∃ sign digits, chars = sign ++ digits ∧ OptionalPlus sign ∧ Denotes base digits n ∧
        n < bound := by
  have hread (digits : List Char) (hne : digits ≠ []) :
      readDigits base bound 0 digits = .ok n ↔ Denotes base digits n ∧ n < bound := by
    rw [readDigits_eq_ok_iff hpos hbound, denotes_iff hbase, and_assoc, and_assoc,
      and_iff_right hne]
  constructor
  · intro h
    unfold readUnsigned at h
    split at h
    · cases h
    · cases h
    · next rest hrest =>
        exact ⟨['+'], rest, rfl, .inr rfl, (hread rest fun hnil => hrest (by rw [hnil])).mp h⟩
    · next hempty _ _ => exact ⟨[], chars, rfl, .inl rfl, (hread chars hempty).mp h⟩
  · rintro ⟨sign, digits, rfl, hsign, hdigits, hn⟩
    obtain ⟨hne, hall, hplace⟩ := (denotes_iff hbase).mp hdigits
    rcases hsign with rfl | rfl
    · rw [← hplace] at hn ⊢
      exact readUnsigned_eq hpos hne hall hn
    · obtain ⟨c, rest, rfl⟩ := List.exists_cons_of_ne_nil hne
      exact (hread _ hne).mpr ⟨hdigits, hn⟩

/-- What is read with a minus sign is digits after it. -/
theorem readSigned_minus_eq_ok_iff (hpos : 0 < base) (hbase : base ≤ 16) {bound : Nat} {z : Int}
    {chars : List Char} :
    readSigned base bound ('-' :: chars) = .ok z ↔
      ∃ n : Nat, Denotes base chars n ∧ n ≤ bound ∧ z = -(n : Int) := by
  constructor
  · intro h
    unfold readSigned at h
    split at h
    · cases h
    · next rest hrest hchars =>
        obtain ⟨-, rfl⟩ := List.cons_eq_cons.mp hchars
        cases hdigits : readDigits base (bound + 1) 0 chars with
        | error fault =>
            rw [hdigits] at h
            cases h
        | ok n =>
            rw [hdigits] at h
            cases h
            obtain ⟨hall, hplace, hn⟩ := (readDigits_eq_ok_iff hpos bound.succ_pos).mp hdigits
            have hne : chars ≠ [] := fun hnil => hrest (by rw [hnil])
            exact ⟨n, (denotes_iff hbase).mpr ⟨hne, hall, hplace⟩, Nat.le_of_lt_succ hn, rfl⟩
    · next hother => exact absurd rfl (hother chars)
  · rintro ⟨n, hdigits, hn, rfl⟩
    obtain ⟨hne, hall, hplace⟩ := (denotes_iff hbase).mp hdigits
    rw [← hplace] at hn ⊢
    exact readSigned_minus hpos hne hall hn

theorem readSigned_of_ne_minus {bound : Nat} {chars : List Char} (h : chars.head? ≠ some '-') :
    readSigned base bound chars = (readUnsigned base bound chars).map Int.ofNat := by
  unfold readSigned
  split
  · exact absurd rfl h
  · exact absurd rfl h
  · rfl

/-- A greater bound takes nothing away. -/
theorem readUnsigned_mono (hpos : 0 < base) (hbase : base ≤ 16) {bound bound' n : Nat}
    (hbound : 0 < bound) (hle : bound ≤ bound') {chars : List Char}
    (h : readUnsigned base bound chars = .ok n) : readUnsigned base bound' chars = .ok n := by
  obtain ⟨sign, digits, hchars, hsign, hdigits, hn⟩ :=
    (readUnsigned_eq_ok_iff hpos hbase hbound).mp h
  exact (readUnsigned_eq_ok_iff hpos hbase (Nat.lt_of_lt_of_le hbound hle)).mpr
    ⟨sign, digits, hchars, hsign, hdigits, Nat.lt_of_lt_of_le hn hle⟩

/-! ### Writing -/

theorem denotes_padZeros (width : Nat) (hpos : 0 < base) (hbase : base ≤ 16) {chars : List Char}
    {n : Nat} (h : Denotes base chars n) : Denotes base (padZeros width chars) n := by
  rw [denotes_iff hbase] at h ⊢
  obtain ⟨hne, hdigits, hplace⟩ := h
  refine ⟨padZeros_ne_nil hne, digits_padZeros width hpos hdigits, ?_⟩
  rw [place_padZeros, hplace]

theorem denotes_hex (n : Nat) : Denotes 16 (hex n) n :=
  (denotes_iff (by decide)).mpr ⟨hex_ne_nil n, digits_hex n, place_hex n⟩

theorem denotes_toDigits (n : Nat) : Denotes 10 (Nat.toDigits 10 n) n :=
  (denotes_iff (by decide)).mpr ⟨Nat.toDigits_ne_nil, digits_toDigits n, place_toDigits n⟩

/-- The first digit of a number is not zero, unless the number is. -/
theorem exists_toDigits_eq (hbase : 1 < base) (n : Nat) :
    ∃ first rest, Nat.toDigits base n = (first :: rest).map Nat.digitChar ∧
      (∀ d ∈ first :: rest, d < base) ∧ (0 < n → 0 < first) := by
  -- all but the last digit are those of the quotient
  induction n using Nat.strongRecOn with
  | ind n ih =>
      by_cases hn : n < base
      · exact ⟨n, [], Nat.toDigits_of_lt_base hn, List.forall_mem_singleton.mpr hn, id⟩
      · have hle : base ≤ n := Nat.le_of_not_lt hn
        have hquotient : n / base < n := Nat.div_lt_self (by omega) hbase
        obtain ⟨first, rest, hdigits, hlt, hfirst⟩ := ih (n / base) hquotient
        refine ⟨first, rest ++ [n % base], ?_, ?_, fun _ => hfirst (Nat.div_pos hle (by omega))⟩
        · rw [Nat.toDigits_of_base_le hbase hle, hdigits]
          simp
        · rw [← List.cons_append, List.forall_mem_append, List.forall_mem_singleton]
          exact ⟨hlt, Nat.mod_lt n (by omega)⟩

theorem head?_map_toDigits_ne (hbase : 1 < base) (write : Char → Char)
    (hwrite : ∀ d < base, 0 < d → write (Nat.digitChar d) ≠ '0') {n : Nat} (hn : 0 < n) :
    ((Nat.toDigits base n).map write).head? ≠ some '0' := by
  obtain ⟨first, rest, hdigits, hlt, hfirst⟩ := exists_toDigits_eq hbase n
  rw [hdigits, List.map_cons, List.map_cons, List.head?_cons, ne_eq, Option.some.injEq]
  exact hwrite first (hlt first List.mem_cons_self) (hfirst hn)

theorem head?_hex_ne {n : Nat} (hn : 0 < n) : (hex n).head? ≠ some '0' :=
  head?_map_toDigits_ne (by decide) Char.toUpper (by decide) hn

theorem head?_toDigits_ne {n : Nat} (hn : 0 < n) : (Nat.toDigits 10 n).head? ≠ some '0' := by
  simpa using @head?_map_toDigits_ne 10 (by decide) id (by decide) n hn

theorem mem_upperDigits_of_mem_hex {n : Nat} {c : Char} (hc : c ∈ hex n) : c ∈ upperDigits := by
  obtain ⟨first, rest, hdigits, hlt, -⟩ := @exists_toDigits_eq 16 (by decide) n
  have hupper : ∀ d < 16, (Nat.digitChar d).toUpper ∈ upperDigits := by decide
  rw [hex, hdigits, List.map_map] at hc
  obtain ⟨d, hd, rfl⟩ := List.mem_map.mp hc
  exact hupper d (hlt d hd)

theorem length_hex_le_iff {n k : Nat} (hk : 0 < k) : (hex n).length ≤ k ↔ n < 16 ^ k := by
  rw [hex, List.length_map, Nat.length_toDigits_le_iff (by decide) hk]

theorem length_padZeros (width : Nat) (chars : List Char) :
    (padZeros width chars).length = max width chars.length := by
  rw [padZeros, List.length_append, List.length_replicate]
  omega

theorem padZeros_of_le {width : Nat} {chars : List Char} (h : width ≤ chars.length) :
    padZeros width chars = chars := by
  rw [padZeros, Nat.sub_eq_zero_of_le h]
  rfl

theorem mem_upperDigits_of_mem_padZeros {width n : Nat} {c : Char}
    (hc : c ∈ padZeros width (hex n)) : c ∈ upperDigits := by
  rcases List.mem_append.mp hc with hc | hc
  · rw [List.eq_of_mem_replicate hc]
    decide
  · exact mem_upperDigits_of_mem_hex hc

end LazyGL.Numeral
