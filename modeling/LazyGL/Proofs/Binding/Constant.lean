import LazyGL.Proofs.Binding.Emission
import LazyGL.Proofs.Binding.Lines
import LazyGL.Proofs.Registry.Normal
import Mathlib.Data.List.Forall2

/-!
What the constants are worth. An initializer is evaluated as the target language
does it: a literal has to be in the range of its type, and a cast keeps the
lower bits. On the way from a registry to its normal form and on to the constants
the value of a name is written three times, and its lower 32 bits stay the same.
-/

namespace LazyGL.Binding.Constant

open Literal Numeral

/-- From which number on a literal needs a cast. The type of the plain values is
signed. -/
def literalBound : ValueKind → Nat
  | .plain => 0x80000000
  | .bitmask => 0x100000000

/-- The bits that a number with a suffix gives a constant. There are none if the
number is out of range, or if the suffix is that of another type. -/
def castBits? (kind : ValueKind) (n : Nat) (suffix : String) : Option (BitVec 32) :=
  if suffix = "" then
    if n < literalBound kind then some (BitVec.ofNat 32 n) else none
  else if suffix = "_u32 as GLint" ∧ kind = .plain then
    if n < 0x100000000 then some (BitVec.ofNat 32 n) else none
  else if suffix = "_u64 as " ++ typeOf kind then
    if n < 0x10000000000000000 then some ((BitVec.ofNat 64 n).setWidth 32) else none
  else none

def bits? (kind : ValueKind) (expression : String) : Option (BitVec 32) :=
  match afterFront? "0x".toList expression.toList with
  | none => none
  | some rest =>
    let isDigit c := (digit? 16 c).isSome
    if (rest.takeWhile isDigit).isEmpty then none
    else castBits? kind (place 16 0 (rest.takeWhile isDigit))
      (String.ofList (rest.dropWhile isDigit))

theorem bits?_hexLiteral (kind : ValueKind) (width n : Nat) (suffix : String)
    (hsuffix : suffix.toList.head?.any (fun c => (digit? 16 c).isSome) = false) :
    bits? kind (hexLiteral width n ++ suffix) = castBits? kind n suffix := by
  have htext : (hexLiteral width n ++ suffix).toList =
      "0x".toList ++ (padZeros width (hex n) ++ suffix.toList) := by
    simp [hexLiteral]
  have hdigits := digits_padZeros width (by decide) (digits_hex n)
  -- the digits end where the suffix begins
  have hstop : suffix.toList.takeWhile (fun c => (digit? 16 c).isSome) = [] ∧
      suffix.toList.dropWhile (fun c => (digit? 16 c).isSome) = suffix.toList := by
    cases hchars : suffix.toList with
    | nil => exact ⟨rfl, rfl⟩
    | cons c rest =>
        rw [hchars] at hsuffix
        have hc : (digit? 16 c).isSome = false := hsuffix
        simp [hc]
  rw [bits?, htext, afterFront?_append]
  simp only
  rw [List.takeWhile_append_of_pos hdigits, List.dropWhile_append_of_pos hdigits, hstop.1, hstop.2,
    List.append_nil, place_padZeros, place_hex, String.ofList_toList, if_neg]
  simp [padZeros_ne_nil (hex_ne_nil n)]

theorem bits?_hexLiteral_bare (kind : ValueKind) (width n : Nat) :
    bits? kind (hexLiteral width n) = castBits? kind n "" := by
  have h := bits?_hexLiteral kind width n "" (by decide)
  rwa [String.append_empty] at h

theorem ofNat_eq_ofInt {m : Nat} {n : Int} (h : (m : Int) % 0x100000000 = n % 0x100000000) :
    BitVec.ofNat 32 m = BitVec.ofInt 32 n := by
  apply BitVec.eq_of_toInt_eq
  rw [← BitVec.ofInt_natCast, BitVec.toInt_ofInt, BitVec.toInt_ofInt, ← Int.emod_bmod,
    ← Int.emod_bmod n]
  exact congrArg (Int.bmod · (2 ^ 32)) h

section Casts

variable {kind : ValueKind} {m : Nat} {n : Int}

theorem castBits?_none (h : (m : Int) % 0x100000000 = n % 0x100000000)
    (hbound : m < literalBound kind) : castBits? kind m "" = some (BitVec.ofInt 32 n) := by
  rw [castBits?, if_pos rfl, if_pos hbound, ofNat_eq_ofInt h]

theorem castBits?_u32 (h : (m : Int) % 0x100000000 = n % 0x100000000) (hbound : m < 0x100000000) :
    castBits? .plain m "_u32 as GLint" = some (BitVec.ofInt 32 n) := by
  rw [castBits?, if_neg (by decide), if_pos ⟨rfl, rfl⟩, if_pos hbound, ofNat_eq_ofInt h]

theorem castBits?_u64 (h : (m : Int) % 0x100000000 = n % 0x100000000)
    (hbound : m < 0x10000000000000000) :
    castBits? kind m ("_u64 as " ++ typeOf kind) = some (BitVec.ofInt 32 n) := by
  have hempty : "_u64 as " ++ typeOf kind ≠ "" := by
    cases kind <;> decide
  have hother : ¬("_u64 as " ++ typeOf kind = "_u32 as GLint" ∧ kind = .plain) := by
    cases kind <;> decide
  rw [castBits?, if_neg hempty, if_neg hother, if_pos rfl, if_pos hbound,
    BitVec.setWidth_ofNat_of_le (by decide), ofNat_eq_ofInt h]

end Casts

/-! ### Initializers -/

theorem text_cast (type literal : String) (width : CastWidth) :
    Initializer.text type ⟨literal, some width⟩ = literal ++ (width.suffix ++ " as " ++ type) := by
  simp [Initializer.text, String.append_assoc]

/-- A plain value has its own bits, whether it is written as it stands or cast. -/
theorem bits?_ofPlain (value : Int64) :
    bits? .plain ((Initializer.ofPlain (canonicalPlain value)).text "GLint") =
      some (BitVec.ofInt 32 value.toInt) := by
  have hmax : value.toInt < 2 ^ 63 := Int64.toInt_lt value
  have hemod := plainReading_emod value
  simp only [Initializer.ofPlain, value?_canonicalPlain]
  by_cases hneg : (plainReading value).toInt < 0
  · rw [if_pos hneg, text_cast]
    refine (bits?_hexLiteral .plain 8 _ _ (by decide)).trans (castBits?_u32 ?_ ?_) <;> omega
  -- all bits set has been read back as a negative number
  have hbits : value.toInt ≠ 0xFFFFFFFF := by
    intro h
    rw [plainReading, if_pos h] at hneg
    exact hneg (by decide)
  have hvalue : plainReading value = value := by rw [plainReading, if_neg hbits]
  rw [hvalue] at hneg ⊢
  rw [if_neg hneg, canonicalPlain_nonnegative (by omega) hbits]
  have hsame : (value.toInt.toNat : Int) % 0x100000000 = value.toInt % 0x100000000 := by omega
  by_cases hsmall : value.toInt < 0x80000000
  · rw [if_pos hsmall]
    exact (bits?_hexLiteral_bare .plain _ _).trans
      (castBits?_none hsame (Int.toNat_lt (by omega) |>.mpr hsmall))
  · by_cases hwide : value.toInt < 0x100000000
    · rw [if_neg hsmall, if_pos hwide, text_cast]
      exact (bits?_hexLiteral .plain _ _ _ (by decide)).trans (castBits?_u32 hsame (by omega))
    · rw [if_neg hsmall, if_neg hwide, text_cast]
      exact (bits?_hexLiteral .plain _ _ _ (by decide)).trans (castBits?_u64 hsame (by omega))

theorem bits?_ofMask (value : Int64) :
    bits? .bitmask ((Initializer.ofMask (canonicalMask value)).text "GLbitfield") =
      some (BitVec.ofInt 32 value.toInt) := by
  have hsame := maskBits_emod value
  simp only [Initializer.ofMask, value?_canonicalMask]
  by_cases hnarrow : 0 ≤ (Int64.ofNat (maskBits value)).toInt ∧
      (Int64.ofNat (maskBits value)).toInt < 0x100000000
  · have hbound : maskBits value < 0x100000000 := by
      rw [← maskBits_ofNat_maskBits, maskBits_nonnegative hnarrow.1]
      omega
    rw [if_pos hnarrow]
    exact (bits?_hexLiteral_bare .bitmask _ _).trans (castBits?_none hsame hbound)
  · rw [if_neg hnarrow, text_cast]
    exact (bits?_hexLiteral .bitmask _ _ _ (by decide)).trans
      (castBits?_u64 hsame (maskBits_lt value))

def canonical : ValueKind → Int64 → String
  | .plain => canonicalPlain
  | .bitmask => canonicalMask

theorem bits?_initializer (kind : ValueKind) (value : Int64) :
    bits? kind ((initializer kind (canonical kind value)).text (typeOf kind)) =
      some (BitVec.ofInt 32 value.toInt) := by
  cases kind with
  | plain => exact bits?_ofPlain value
  | bitmask => exact bits?_ofMask value

/-- A character that no initializer has: it is no digit, and it is in none of
the texts around the digits. -/
structure Foreign (c : Char) : Prop where
  digit : (digit? 16 c).isSome = false
  front : c ∉ "0x".toList
  narrow : c ∉ "_u32 as GLint".toList
  wide : ∀ kind, c ∉ ("_u64 as " ++ typeOf kind).toList

theorem foreign_break : Foreign '\n' :=
  ⟨by decide, by decide, by decide, fun kind => by cases kind <;> decide⟩

theorem foreign_colon : Foreign ':' :=
  ⟨by decide, by decide, by decide, fun kind => by cases kind <;> decide⟩

theorem Foreign.not_mem_of_castBits? {c : Char} (hc : Foreign c) {kind : ValueKind} {n : Nat}
    {suffix : String} {bits : BitVec 32} (h : castBits? kind n suffix = some bits) :
    c ∉ suffix.toList := by
  unfold castBits? at h
  by_cases hbare : suffix = ""
  · rw [hbare]
    exact List.not_mem_nil
  rw [if_neg hbare] at h
  by_cases hnarrow : suffix = "_u32 as GLint" ∧ kind = .plain
  · rw [hnarrow.1]
    exact hc.narrow
  rw [if_neg hnarrow] at h
  by_cases hwide : suffix = "_u64 as " ++ typeOf kind
  · rw [hwide]
    exact hc.wide kind
  · rw [if_neg hwide] at h
    cases h

/-- An initializer that is well formed has its front, its digits and its suffix
only. -/
theorem Foreign.not_mem_of_bits? {c : Char} (hc : Foreign c) {kind : ValueKind}
    {expression : String} {bits : BitVec 32} (h : bits? kind expression = some bits) :
    c ∉ expression.toList := by
  unfold bits? at h
  cases hfront : afterFront? "0x".toList expression.toList with
  | none =>
      rw [hfront] at h
      cases h
  | some rest =>
      rw [hfront] at h
      simp only at h
      split at h
      · cases h
      have hsuffix := hc.not_mem_of_castBits? h
      rw [String.toList_ofList] at hsuffix
      let isDigit c := (digit? 16 c).isSome
      have hdigits : c ∉ rest.takeWhile isDigit := by
        intro hmem
        have hdigit : isDigit c := List.all_eq_true.mp List.all_takeWhile _ hmem
        exact absurd hdigit (by simp [isDigit, hc.digit])
      rw [eq_append_of_afterFront? hfront, List.mem_append, not_or,
        ← List.takeWhile_append_dropWhile (p := isDigit) (l := rest), List.mem_append, not_or]
      exact ⟨hc.front, hdigits, hsuffix⟩

/-! ### The artifact -/

def isDeclaration (line : String) : Bool :=
  (afterFront? "pub const ".toList line.toList).isSome

def declarations (text : String) : List String :=
  (textLines text).filter isDeclaration

theorem lines_declare (kind : ValueKind) (e : Enumerant) :
    (declare kind e).lines = [declaration kind e] := by
  unfold declare
  split <;> rfl

theorem lines_script (r : Registry) :
    (script r).lines =
      [notice, "", "use super::types::*;", ""] ++ r.enums.map (declaration .plain) ++ [""] ++
        r.bitfields.map (declaration .bitmask) ++ [""] ++
        ["#[allow(non_snake_case)]", "pub mod groups \x7b"] ++
        (r.groups.entries.flatMap fun (group, members) => groupLines group members.toList) ++
        ["\x7d"] := by
  simp [script, lines_declare, List.map_eq_flatMap]

theorem oneLine_groupLines {group : String} {members : List String} (hgroup : OneLine group)
    (hmembers : ∀ member ∈ members, OneLine member) :
    ∀ line ∈ groupLines group members, OneLine line := by
  have hlist : OneLine (", ".intercalate members) := oneLine_intercalate oneLine_literal hmembers
  intro line hline
  simp only [groupLines, List.mem_cons, List.not_mem_nil, or_false] at hline
  rcases hline with rfl | rfl | rfl
  · simp only [oneLine_append, hgroup, and_true]
    exact ⟨oneLine_literal, oneLine_literal⟩
  · simp only [oneLine_append, hlist, and_true]
    exact ⟨oneLine_literal, oneLine_literal⟩
  · decide

theorem isDeclaration_declaration (kind : ValueKind) (e : Enumerant) :
    isDeclaration (declaration kind e) = true := by
  unfold isDeclaration declaration
  simp only [String.toList_append, List.append_assoc, afterFront?_append, Option.isSome_some]

theorem isDeclaration_groupLines {group : String} {members : List String} :
    ∀ line ∈ groupLines group members, isDeclaration line = false := by
  intro line hline
  simp only [groupLines, List.mem_cons, List.not_mem_nil, or_false] at hline
  rcases hline with rfl | rfl | rfl
  · simp [isDeclaration, afterFront?]
  · simp [isDeclaration, afterFront?]
  · rfl

section Texts

variable {r : Registry}

theorem oneLine_script (hplain : ∀ e ∈ r.enums, OneLine (declaration .plain e))
    (hmasks : ∀ e ∈ r.bitfields, OneLine (declaration .bitmask e))
    (hgroups : ∀ entry ∈ r.groups.entries,
      OneLine entry.1 ∧ ∀ member ∈ entry.2.toList, OneLine member) :
    ∀ line ∈ (script r).lines, OneLine line := by
  rw [lines_script]
  simp only [List.forall_mem_append, List.forall_mem_map, List.forall_mem_flatMap]
  refine ⟨⟨⟨⟨⟨⟨⟨?_, hplain⟩, ?_⟩, hmasks⟩, ?_⟩, ?_⟩, ?_⟩, ?_⟩
  · decide
  · decide
  · decide
  · decide
  · intro entry hentry
    exact oneLine_groupLines (hgroups entry hentry).1 (hgroups entry hentry).2
  · decide

/-- The declarations are the lines that are made for the values. -/
theorem declarations_text (hlines : ∀ line ∈ (script r).lines, OneLine line) :
    declarations (Artifact.constants.text r) =
      r.enums.map (declaration .plain) ++ r.bitfields.map (declaration .bitmask) := by
  have hkept (kind : ValueKind) (es : List Enumerant) :
      (es.map (declaration kind)).filter isDeclaration = es.map (declaration kind) := by
    rw [List.filter_eq_self, List.forall_mem_map]
    exact fun e _ => isDeclaration_declaration kind e
  have hgroup : (r.groups.entries.flatMap fun (group, members) =>
      groupLines group members.toList).filter isDeclaration = [] := by
    rw [List.filter_eq_nil_iff, List.forall_mem_flatMap]
    intro entry _ line hline
    rw [isDeclaration_groupLines line hline]
    exact Bool.false_ne_true
  -- of the parts of the artifact only the two lists of values are kept
  rw [declarations, Artifact.text_eq, Artifact.script, Script.textLines_text hlines, lines_script]
  simp only [List.filter_append, hkept, hgroup]
  have hheader : [notice, "", "use super::types::*;", ""].filter isDeclaration = [] := by decide
  have hblank : [""].filter isDeclaration = [] := by decide
  have hmodule : ["#[allow(non_snake_case)]", "pub mod groups \x7b"].filter isDeclaration = [] := by
    decide
  have hclose : ["\x7d"].filter isDeclaration = [] := by decide
  simp only [hheader, hblank, hmodule, hclose, List.nil_append, List.append_nil]

end Texts

/-! ### The constants of a normal form -/

/-- The line declares the constant of a value, with the lower 32 bits of the
number that the value denotes. -/
def Declares (kind : ValueKind) (line : String) (e : Enumerant) : Prop :=
  ∃ expression n, line = "pub const " ++ e.name ++ ": " ++ typeOf kind ++ " = " ++ expression ++ ";" ∧
    Literal.value? e.value = some n ∧ bits? kind expression = some (BitVec.ofInt 32 n.toInt)

/-- The lines declare the values of a kind, each of them once, in the order of
their normal form. -/
def DeclaresAll (kind : ValueKind) (lines : List String) (es normal : List Enumerant) : Prop :=
  ∃ order : List Enumerant, order.Perm es ∧
    order.map (Registry.canonicalize (canonical kind)) = normal ∧
    List.Forall₂ (Declares kind) lines order

theorem declares_canonicalize (kind : ValueKind) {e : Enumerant}
    (h : (Literal.value? e.value).isSome) :
    Declares kind (declaration kind (Registry.canonicalize (canonical kind) e)) e := by
  obtain ⟨n, hn⟩ := Option.isSome_iff_exists.mp h
  refine ⟨_, n, ?_, hn, bits?_initializer kind n⟩
  unfold declaration
  simp only [Registry.canonicalize, hn]

theorem oneLine_declaration {kind : ValueKind} {e : Enumerant} (hname : OneLine e.name)
    (h : (Literal.value? e.value).isSome) :
    OneLine (declaration kind (Registry.canonicalize (canonical kind) e)) := by
  obtain ⟨expression, n, hline, -, hbits⟩ := declares_canonicalize kind h
  have htype : OneLine (typeOf kind) := by
    cases kind <;> decide
  have hexpression : OneLine expression := foreign_break.not_mem_of_bits? hbits
  rw [hline]
  simp only [oneLine_append, hname, htype, hexpression, and_true]
  exact ⟨⟨⟨oneLine_literal, oneLine_literal⟩, oneLine_literal⟩, oneLine_literal⟩

/-- Values can be brought to the order of their canonical forms first. -/
theorem exists_order (kind : ValueKind) (es : List Enumerant) :
    ∃ order : List Enumerant, order.Perm es ∧
      order.map (Registry.canonicalize (canonical kind)) =
        Registry.sortByValue (es.map (Registry.canonicalize (canonical kind))) := by
  let key e := Registry.sortKey (Registry.canonicalize (canonical kind) e)
  exact ⟨es.mergeSort fun a b => key a ≤ key b, List.mergeSort_perm _ _,
    List.map_mergeSort fun _ _ _ _ => rfl⟩

theorem declaresAll_sortByValue (kind : ValueKind) {es : List Enumerant}
    (h : ∀ e ∈ es, (Literal.value? e.value).isSome) :
    DeclaresAll kind
      ((Registry.sortByValue (es.map (Registry.canonicalize (canonical kind)))).map
        (declaration kind))
      es (Registry.sortByValue (es.map (Registry.canonicalize (canonical kind)))) := by
  obtain ⟨order, hperm, hmap⟩ := exists_order kind es
  refine ⟨order, hperm, hmap, ?_⟩
  rw [← hmap, List.map_map, List.forall₂_map_left_iff, List.forall₂_same]
  intro e he
  exact declares_canonicalize kind (h e (hperm.mem_iff.mp he))

/-- The artifact declares every value of a registry once, with the bits that it
has: first the plain values and then the masks, both in the order of the normal
form. -/
theorem constants_normalize (r : Registry)
    (hnames : ∀ e ∈ r.enums ++ r.bitfields, OneLine e.name)
    (hgroups : ∀ entry ∈ r.groups.entries, OneLine entry.1)
    (hvalues : ∀ e ∈ r.enums ++ r.bitfields, (Literal.value? e.value).isSome) :
    ∃ plain masks, declarations (Artifact.constants.text r.normalize) = plain ++ masks ∧
      DeclaresAll .plain plain r.enums r.normalize.enums ∧
      DeclaresAll .bitmask masks r.bitfields r.normalize.bitfields := by
  rw [List.forall_mem_append] at hnames hvalues
  have hlines (kind : ValueKind) {es : List Enumerant} (hnames : ∀ e ∈ es, OneLine e.name)
      (hvalues : ∀ e ∈ es, (Literal.value? e.value).isSome) :
      ∀ e ∈ Registry.sortByValue (es.map (Registry.canonicalize (canonical kind))),
        OneLine (declaration kind e) := by
    intro e he
    obtain ⟨e, hmem, rfl⟩ := List.mem_map.mp ((List.mergeSort_perm _ _).mem_iff.mp he)
    exact oneLine_declaration (hnames e hmem) (hvalues e hmem)
  have hscript := oneLine_script (r := r.normalize) (hlines .plain hnames.1 hvalues.1)
    (hlines .bitmask hnames.2 hvalues.2)
  refine ⟨_, _, declarations_text (hscript ?_), declaresAll_sortByValue .plain hvalues.1,
    declaresAll_sortByValue .bitmask hvalues.2⟩
  -- a group has kept its name, and its members are names of values
  rintro ⟨group, members⟩ hentry
  refine ⟨?_, fun member hmember => ?_⟩
  · obtain ⟨⟨_, before⟩, hbefore, heq⟩ := List.mem_map.mp (List.mem_of_mem_filter hentry)
    obtain rfl := congrArg Prod.fst heq
    exact hgroups (_, before) hbefore
  · have hknown := (Registry.normal_normalize r).known members
      (List.mem_map_of_mem hentry) member hmember
    rw [(Registry.normalize_values_perm r).mem_iff] at hknown
    obtain ⟨e, he, rfl⟩ := List.mem_map.mp hknown
    rcases List.mem_append.mp he with he | he
    · exact hnames.1 e he
    · exact hnames.2 e he

def boundValues : Registry where
  enums := [⟨"ALL", "0xFFFFFFFF", .plain⟩, ⟨"LEAST", "-2147483648", .plain⟩,
    ⟨"HIGH", " 2147483648 ", .plain⟩, ⟨"WIDE", "0xFFFFFFFFFFFFFFFF", .plain⟩]
  bitfields := [⟨"BELOW", "-2147483649", .bitmask⟩, ⟨"SIGN", "-2147483648", .bitmask⟩]

/-- Their normal form. Two of them are equal. -/
def boundValuesInOrder : Registry where
  enums := [⟨"LEAST", "-2147483648", .plain⟩, ⟨"ALL", "-1", .plain⟩, ⟨"WIDE", "-1", .plain⟩,
    ⟨"HIGH", "0x80000000", .plain⟩]
  bitfields := [⟨"BELOW", "0xFFFFFFFF7FFFFFFF", .bitmask⟩, ⟨"SIGN", "0x80000000", .bitmask⟩]

open Registry in
theorem normalize_boundValues : boundValues.normalize = boundValuesInOrder := by
  have hplain : boundValues.enums.map (canonicalize canonicalPlain) =
      [⟨"ALL", "-1", .plain⟩, ⟨"LEAST", "-2147483648", .plain⟩, ⟨"HIGH", "0x80000000", .plain⟩,
        ⟨"WIDE", "-1", .plain⟩] := by
    decide +kernel
  have hmasks : boundValues.bitfields.map (canonicalize canonicalMask) =
      [⟨"BELOW", "0xFFFFFFFF7FFFFFFF", .bitmask⟩, ⟨"SIGN", "0x80000000", .bitmask⟩] := by
    decide +kernel
  have hall : sortKey ⟨"ALL", "-1", .plain⟩ = -1 := by decide +kernel
  have hleast : sortKey ⟨"LEAST", "-2147483648", .plain⟩ = -0x80000000 := by decide +kernel
  have hhigh : sortKey ⟨"HIGH", "0x80000000", .plain⟩ = 0x80000000 := by decide +kernel
  have hwide : sortKey ⟨"WIDE", "-1", .plain⟩ = -1 := by decide +kernel
  have hbelow : sortKey ⟨"BELOW", "0xFFFFFFFF7FFFFFFF", .bitmask⟩ = -0x80000001 := by
    decide +kernel
  have hsign : sortKey ⟨"SIGN", "0x80000000", .bitmask⟩ = 0x80000000 := by decide +kernel
  have hsortedPlain : sortByValue (boundValues.enums.map (canonicalize canonicalPlain)) =
      boundValuesInOrder.enums := by
    rw [hplain]
    simp [sortByValue, List.mergeSort, List.MergeSort.Internal.splitInTwo, hall, hleast, hhigh,
      hwide, boundValuesInOrder]
  have hsortedMasks : sortByValue (boundValues.bitfields.map (canonicalize canonicalMask)) =
      boundValuesInOrder.bitfields := by
    rw [hmasks]
    simp [sortByValue, List.mergeSort, List.MergeSort.Internal.splitInTwo, hbelow, hsign,
      boundValuesInOrder]
  have hcommands : sortByName (boundValues.commands.map renameParams) = [] := List.mergeSort_nil
  have hgroups : boundValues.repairGroups.groups = .empty := by decide +kernel
  rw [Registry.normalize, hsortedPlain, hsortedMasks, hcommands, hgroups]
  rfl

/-- A literal stands alone only in the range of its type. -/
theorem constants_normalize_boundValues :
    let plain := ["pub const LEAST: GLint = 0x80000000_u32 as GLint;",
      "pub const ALL: GLint = 0xFFFFFFFF_u32 as GLint;",
      "pub const WIDE: GLint = 0xFFFFFFFF_u32 as GLint;",
      "pub const HIGH: GLint = 0x80000000_u32 as GLint;"]
    let masks := ["pub const BELOW: GLbitfield = 0xFFFFFFFF7FFFFFFF_u64 as GLbitfield;",
      "pub const SIGN: GLbitfield = 0x80000000;"]
    (∀ e ∈ boundValues.enums ++ boundValues.bitfields, OneLine e.name) ∧
      (∀ entry ∈ boundValues.groups.entries, OneLine entry.1) ∧
      (∀ e ∈ boundValues.enums ++ boundValues.bitfields, (Literal.value? e.value).isSome) ∧
      boundValues.normalize = boundValuesInOrder ∧
      declarations (Artifact.constants.text boundValues.normalize) = plain ++ masks ∧
      DeclaresAll .plain plain boundValues.enums boundValues.normalize.enums ∧
      DeclaresAll .bitmask masks boundValues.bitfields boundValues.normalize.bitfields := by
  intro plain masks
  have hnames : ∀ e ∈ boundValues.enums ++ boundValues.bitfields, OneLine e.name := by decide
  have hgroups : ∀ entry ∈ boundValues.groups.entries, OneLine entry.1 := by decide
  have hvalues : ∀ e ∈ boundValues.enums ++ boundValues.bitfields,
      (Literal.value? e.value).isSome := by decide
  have hlines : declarations (Artifact.constants.text boundValues.normalize) = plain ++ masks := by
    rw [normalize_boundValues, declarations_text]
    · decide +kernel
    · exact oneLine_script (by decide +kernel) (by decide +kernel) nofun
  refine ⟨hnames, hgroups, hvalues, normalize_boundValues, hlines, ?_⟩
  obtain ⟨plain', masks', hread, hplain, hmasks⟩ :=
    constants_normalize boundValues hnames hgroups hvalues
  -- there are four plain values, so the lines are divided in the same way
  have hlength : plain'.length = plain.length := by
    obtain ⟨order, hperm, -, hdeclared⟩ := hplain
    rw [hdeclared.length_eq, hperm.length_eq]
    rfl
  obtain ⟨rfl, rfl⟩ := List.append_inj (hread.symm.trans hlines) hlength
  exact ⟨hplain, hmasks⟩

end LazyGL.Binding.Constant
