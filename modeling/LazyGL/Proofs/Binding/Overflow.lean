import LazyGL.Proofs.Binding.Constant

/-!
Warnings about values that need more than 32 bits. Whether there is one is
decided on the canonical form of a value, as it is read back, so a pattern of 64
bits counts as the negative number that it stands for. Main statement: in the
order in which the constants are written, there is a warning for each mask that
needs more than 32 bits, and for each plain value that is too great; a plain
value that is too small is cut down all the same, but without a warning.
-/

namespace LazyGL.Binding.Constant

open Literal

/-- A number that has no form in 32 bits, be it signed or unsigned. -/
def Overflows (n : Int) : Prop := n < -0x80000000 ∨ 0xFFFFFFFF < n

instance (n : Int) : Decidable (Overflows n) :=
  inferInstanceAs (Decidable (_ ∨ _))

def Warned : ValueKind → Int → Prop
  | .plain, n => 0xFFFFFFFF < n
  | .bitmask, n => Overflows n

instance (kind : ValueKind) (n : Int) : Decidable (Warned kind n) :=
  match kind with
  | .plain => inferInstanceAs (Decidable (_ < n))
  | .bitmask => inferInstanceAs (Decidable (Overflows n))

theorem isTruncated_ofPlain (value : Int64) :
    (Initializer.ofPlain (canonicalPlain value)).isTruncated = true ↔
      Warned .plain value.toInt := by
  simp only [Initializer.ofPlain, value?_canonicalPlain, Warned]
  by_cases hbits : value.toInt = 0xFFFFFFFF
  · -- all 32 bits set is read back as a negative number
    have hneg : (plainReading value).toInt < 0 := by
      rw [plainReading, if_pos hbits]
      decide
    rw [if_pos hneg]
    simp [Initializer.isTruncated, hbits]
  rw [plainReading, if_neg hbits]
  by_cases hneg : value.toInt < 0
  · rw [if_pos hneg]
    have hsmall : ¬0xFFFFFFFF < value.toInt := by omega
    simp [Initializer.isTruncated, hsmall]
  by_cases hsmall : value.toInt < 0x80000000
  · rw [if_neg hneg, if_pos hsmall]
    have hnarrow : ¬0xFFFFFFFF < value.toInt := by omega
    simp [Initializer.isTruncated, hnarrow]
  by_cases hnarrow : value.toInt < 0x100000000
  · rw [if_neg hneg, if_neg hsmall, if_pos hnarrow]
    have hwide : ¬0xFFFFFFFF < value.toInt := by omega
    simp [Initializer.isTruncated, hwide]
  · rw [if_neg hneg, if_neg hsmall, if_neg hnarrow]
    have hwide : 0xFFFFFFFF < value.toInt := by omega
    simp [Initializer.isTruncated, hwide]

theorem isTruncated_ofMask (value : Int64) :
    (Initializer.ofMask (canonicalMask value)).isTruncated = true ↔
      Warned .bitmask value.toInt := by
  have hread := toInt_ofNat_maskBits value
  simp only [Initializer.ofMask, value?_canonicalMask, Warned, Overflows]
  by_cases hnarrow : 0 ≤ (Int64.ofNat (maskBits value)).toInt ∧
      (Int64.ofNat (maskBits value)).toInt < 0x100000000
  · rw [if_pos hnarrow]
    have hfits : ¬(value.toInt < -0x80000000 ∨ 0xFFFFFFFF < value.toInt) := by
      split at hread <;> omega
    simp [Initializer.isTruncated, hfits]
  · rw [if_neg hnarrow]
    have hoverflows : value.toInt < -0x80000000 ∨ 0xFFFFFFFF < value.toInt := by
      split at hread <;> omega
    simp [Initializer.isTruncated, hoverflows]

theorem isTruncated_initializer (kind : ValueKind) (value : Int64) :
    (initializer kind (canonical kind value)).isTruncated = true ↔ Warned kind value.toInt := by
  cases kind with
  | plain => exact isTruncated_ofPlain value
  | bitmask => exact isTruncated_ofMask value

def withNumber (test : Int → Bool) (es : List Enumerant) : List Enumerant :=
  es.filter fun e => (value? e.value).any fun n => test n.toInt

/-- The warning about a value, which is shown in its canonical form. -/
def warning (kind : ValueKind) (e : Enumerant) : Log.Entry :=
  truncation (Registry.canonicalize (canonical kind) e)

theorem log_declare_canonicalize (kind : ValueKind) (e : Enumerant) :
    (declare kind (Registry.canonicalize (canonical kind) e)).log =
      if (value? e.value).any fun n => Warned kind n.toInt then [warning kind e] else [] := by
  have hlog (e : Enumerant) : (declare kind e).log =
      if (initializer kind e.value).isTruncated then [truncation e] else [] := by
    unfold declare
    split <;> rfl
  rw [hlog, warning]
  cases hvalue : value? e.value with
  | none =>
      -- what is no numeral is written as it stands
      have hplain : (initializer kind e.value).isTruncated = false := by
        cases kind <;>
          simp [initializer, Initializer.ofPlain, Initializer.ofMask, hvalue,
            Initializer.isTruncated]
      simp only [Registry.canonicalize, hvalue, hplain, Option.any_none]
  | some n =>
      simp only [Registry.canonicalize, hvalue, Option.any_some, decide_eq_true_eq,
        isTruncated_initializer]

theorem log_declare_order (kind : ValueKind) (order : List Enumerant) :
    ((order.map (Registry.canonicalize (canonical kind))).flatMap fun e => (declare kind e).log) =
      (withNumber (Warned kind ·) order).map (warning kind) := by
  induction order with
  | nil => rfl
  | cons e order ih =>
      rw [List.map_cons, List.flatMap_cons, ih, log_declare_canonicalize, withNumber, withNumber,
        List.filter_cons]
      split <;> rfl

/-- The log of the constants of a registry whose values are some others in
canonical form. -/
theorem log_script_order {r : Registry} {plain masks : List Enumerant}
    (hplain : plain.map (Registry.canonicalize (canonical .plain)) = r.enums)
    (hmasks : masks.map (Registry.canonicalize (canonical .bitmask)) = r.bitfields) :
    Artifact.constants.log r =
      (withNumber (Warned .plain ·) plain).map (warning .plain) ++
        (withNumber (Warned .bitmask ·) masks).map (warning .bitmask) := by
  rw [Artifact.log_eq, Artifact.script, script, ← hplain, ← hmasks]
  simp only [Script.log_append, Script.log_ofLines, Script.log_flatMap, log_declare_order,
    List.append_nil, List.nil_append]

/-- When the constants of a normal form are written, there is a warning for each
plain value above 32 bits and for each mask that has no form in 32 bits, and no
other: first for the plain values and then for the masks, both in the order of
the normal form. -/
theorem log_constants_normalize (r : Registry) :
    ∃ plain masks : List Enumerant,
      (plain.Perm r.enums ∧
        plain.map (Registry.canonicalize canonicalPlain) = r.normalize.enums) ∧
      (masks.Perm r.bitfields ∧
        masks.map (Registry.canonicalize canonicalMask) = r.normalize.bitfields) ∧
      Artifact.constants.log r.normalize =
        (withNumber (0xFFFFFFFF < ·) plain).map (warning .plain) ++
          (withNumber (Overflows ·) masks).map (warning .bitmask) := by
  obtain ⟨plain, hplain, hplainOrder⟩ := exists_order .plain r.enums
  obtain ⟨masks, hmasks, hmasksOrder⟩ := exists_order .bitmask r.bitfields
  exact ⟨plain, masks, ⟨hplain, hplainOrder⟩, ⟨hmasks, hmasksOrder⟩,
    log_script_order hplainOrder hmasksOrder⟩

/-- A plain value below the least number of 32 bits is cut down without a
warning. -/
theorem cutDown_without_warning :
    ¬∀ r : Registry, (∀ e ∈ r.enums ++ r.bitfields, (value? e.value).isSome) →
      ∃ plain masks : List Enumerant,
        (plain.Perm r.enums ∧
          plain.map (Registry.canonicalize canonicalPlain) = r.normalize.enums) ∧
        (masks.Perm r.bitfields ∧
          masks.map (Registry.canonicalize canonicalMask) = r.normalize.bitfields) ∧
        Artifact.constants.log r.normalize =
          (withNumber (Overflows ·) plain).map (warning .plain) ++
            (withNumber (Overflows ·) masks).map (warning .bitmask) := by
  intro h
  let low : Enumerant := ⟨"LOW", "-2147483649", .plain⟩
  let r : Registry := { enums := [low] }
  obtain ⟨plain, masks, ⟨hplain, hplainOrder⟩, ⟨hmasks, hmasksOrder⟩, hlog⟩ := h r (by decide)
  rw [log_script_order hplainOrder hmasksOrder] at hlog
  obtain rfl : plain = [low] := List.perm_singleton.mp hplain
  obtain rfl : masks = [] := List.perm_nil.mp hmasks
  have hnone : withNumber (Warned .plain ·) [low] = [] := by decide
  have hdue : withNumber (Overflows ·) [low] = [low] := by decide
  rw [hnone, hdue] at hlog
  cases hlog

end LazyGL.Binding.Constant
