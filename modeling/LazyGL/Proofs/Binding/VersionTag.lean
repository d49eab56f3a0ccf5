import LazyGL.Proofs.Binding.Resolver
import LazyGL.Proofs.Digits
import LazyGL.Proofs.Reading.Nesting

/-!
Texts of versions. A version is read from two numbers with a point between them,
and no number has a point in it, so there is one way only to take a text apart.
What is written for a version is read as it. In front of it a version tag has
its sign, which is one character, and the mark of its family, which has no
digits. Main statement: versions are read from such texts and no others, and
different version tags have different texts, so each has a place of its own in
the table of the tags.
-/

namespace LazyGL

open Numeral

namespace Version

/-- A number of a version, of any size. -/
def IsNumber (chars : List Char) (n : Nat) : Prop :=
  ∃ sign digits, chars = sign ++ digits ∧ OptionalPlus sign ∧ Denotes 10 digits n

def Spells (text : String) (major minor : Nat) : Prop :=
  ∃ first second, text.toList = first ++ '.' :: second ∧ IsNumber first major ∧
    IsNumber second minor

/-! ### Reading -/

theorem readPart_eq_ok_iff {part : List Char} {v : UInt32} :
    readPart part = .ok v ↔ ∃ n, IsNumber part n ∧ n < 2 ^ 32 ∧ v = UInt32.ofNat n := by
  have hread (n : Nat) :
      readUnsigned 10 UInt32.size part = .ok n ↔ IsNumber part n ∧ n < 2 ^ 32 := by
    rw [readUnsigned_eq_ok_iff (by decide) (by decide) (by decide), IsNumber]
    constructor
    · rintro ⟨sign, digits, hpart, hsign, hdigits, hn⟩
      exact ⟨⟨sign, digits, hpart, hsign, hdigits⟩, hn⟩
    · rintro ⟨⟨sign, digits, hpart, hsign, hdigits⟩, hn⟩
      exact ⟨sign, digits, hpart, hsign, hdigits, hn⟩
  rw [readPart]
  constructor
  · intro h
    split at h
    · next n hn =>
        cases h
        obtain ⟨hnumber, hlt⟩ := (hread n).mp hn
        exact ⟨n, hnumber, hlt, rfl⟩
    · cases h
  · rintro ⟨n, hnumber, hlt, rfl⟩
    rw [(hread n).mpr ⟨hnumber, hlt⟩]

/-- Neither a digit nor a plus sign is a point. -/
theorem point_not_mem {chars : List Char} {n : Nat} (h : IsNumber chars n) : '.' ∉ chars := by
  obtain ⟨sign, digits, rfl, hsign, hdigits⟩ := h
  have hpoint := not_mem_of_digits ((denotes_iff (by decide)).mp hdigits).2.1
    (show '.'.toNat < 48 by decide)
  rcases hsign with rfl | rfl
  · exact hpoint
  · exact fun hmem => hpoint (List.mem_of_ne_of_mem (by decide) hmem)

theorem splitOn_eq_pair {chars first second : List Char} (h : chars.splitOn '.' = [first, second]) :
    chars = first ++ '.' :: second := by
  have hjoined : ['.'].intercalate (chars.splitOn '.') = chars := List.intercalate_splitOn '.'
  rw [h] at hjoined
  simpa [List.intercalate] using hjoined.symm

/-- A version is read from two numbers of 32 bits with a point between them, and
from nothing else. -/
theorem ofString_eq_ok_iff {text : String} {v : Version} :
    ofString text = .ok v ↔ ∃ major minor, Spells text major minor ∧ major < 2 ^ 32 ∧
      minor < 2 ^ 32 ∧ v = ⟨UInt32.ofNat major, UInt32.ofNat minor⟩ := by
  constructor
  · intro h
    unfold ofString at h
    split at h
    · cases h
    · next first rest hsplit =>
        obtain ⟨major, hmajor, h⟩ := Reading.exists_of_bind_eq_ok h
        cases rest with
        | nil => cases h
        | cons second others =>
            obtain ⟨minor, hminor, h⟩ := Reading.exists_of_bind_eq_ok h
            cases others with
            | cons third others => cases h
            | nil =>
                cases h
                obtain ⟨n, hn, hlt, rfl⟩ := readPart_eq_ok_iff.mp hmajor
                obtain ⟨m, hm, hlt', rfl⟩ := readPart_eq_ok_iff.mp hminor
                exact ⟨n, m, ⟨first, second, splitOn_eq_pair hsplit, hn, hm⟩, hlt, hlt', rfl⟩
  · rintro ⟨n, m, ⟨first, second, htext, hn, hm⟩, hlt, hlt', rfl⟩
    have hsplit : text.toList.splitOn '.' = [first, second] := by
      rw [htext, List.splitOn_append_cons_self_of_not_mem (point_not_mem hn),
        List.splitOn_eq_singleton (point_not_mem hm)]
    have hmajor := readPart_eq_ok_iff.mpr ⟨n, hn, hlt, rfl⟩
    have hminor := readPart_eq_ok_iff.mpr ⟨m, hm, hlt', rfl⟩
    simp only [ofString, hsplit, hmajor, hminor, bind, Except.bind]
    rfl

/-! ### Writing -/

theorem toList_text (v : Version) :
    v.text.toList = Nat.toDigits 10 v.major.toNat ++ '.' :: Nat.toDigits 10 v.minor.toNat := by
  rw [text, String.toList_append, String.toList_append, toList_toString, toList_toString,
    List.append_assoc]
  rfl

theorem isNumber_toDigits (n : Nat) : IsNumber (Nat.toDigits 10 n) n :=
  ⟨[], _, rfl, .inl rfl, denotes_toDigits n⟩

theorem ofString_text (v : Version) : ofString v.text = .ok v := by
  rw [ofString_eq_ok_iff]
  refine ⟨_, _, ⟨_, _, toList_text v, isNumber_toDigits _, isNumber_toDigits _⟩,
    v.major.toNat_lt, v.minor.toNat_lt, ?_⟩
  rw [UInt32.ofNat_toNat, UInt32.ofNat_toNat]

theorem text_injective : Function.Injective text := by
  intro v w h
  have hread := ofString_text v
  rw [h, ofString_text w] at hread
  exact (Except.ok.inj hread).symm

/-- A text of a version begins with a digit. -/
theorem exists_toList_text (v : Version) :
    ∃ c rest, v.text.toList = c :: rest ∧ (digit? 10 c).isSome := by
  obtain ⟨c, rest, hdigits⟩ := List.exists_cons_of_ne_nil (@Nat.toDigits_ne_nil v.major.toNat 10)
  refine ⟨c, rest ++ '.' :: Nat.toDigits 10 v.minor.toNat, ?_, ?_⟩
  · rw [toList_text, hdigits, List.cons_append]
  · exact digits_toDigits v.major.toNat c (hdigits ▸ List.mem_cons_self)

end Version

/-! ### Tags -/

theorem ApiFamily.mark_injective : Function.Injective mark := by
  intro family family' h
  revert h
  cases family <;> cases family' <;> decide

theorem ApiFamily.digit?_mark (family : ApiFamily) :
    ∀ c ∈ family.mark.toList, (digit? 10 c).isNone :=
  List.all_eq_true.mp (by cases family <;> decide)

/-- The mark of the family is what stands before the first digit. -/
theorem ApiFamily.takeWhile_mark (family : ApiFamily) (v : Version) :
    (family.mark ++ v.text).toList.takeWhile (fun c => (digit? 10 c).isNone) =
      family.mark.toList := by
  obtain ⟨c, rest, hv, hc⟩ := v.exists_toList_text
  rw [String.toList_append, List.takeWhile_append_of_pos family.digit?_mark, hv,
    List.takeWhile_cons_of_neg, List.append_nil]
  rw [Option.isNone_iff_eq_none]
  exact Option.isSome_iff_ne_none.mp hc

theorem ApiFamily.mark_append_inj {family family' : ApiFamily} {v v' : Version}
    (h : family.mark ++ v.text = family'.mark ++ v'.text) : family = family' ∧ v = v' := by
  have hfamily : family = family' := by
    refine mark_injective (String.toList_inj.mp ?_)
    rw [← family.takeWhile_mark v, h, family'.takeWhile_mark v']
  subst hfamily
  have hchars := congrArg String.toList h
  rw [String.toList_append, String.toList_append, List.append_cancel_left_eq] at hchars
  exact ⟨rfl, Version.text_injective (String.toList_inj.mp hchars)⟩

theorem VersionTag.text_injective : Function.Injective text := by
  rintro ⟨change, family, v⟩ ⟨change', family', v'⟩ h
  have hchars : change.sign.toList ++ (family.mark ++ v.text).toList =
      change'.sign.toList ++ (family'.mark ++ v'.text).toList := by
    simpa [text] using congrArg String.toList h
  have hlength : change.sign.toList.length = change'.sign.toList.length := by
    cases change <;> cases change' <;> decide
  obtain ⟨hsign, hrest⟩ := List.append_inj hchars hlength
  have hchange : change = change' := by
    revert hsign
    cases change <;> cases change' <;> decide
  obtain ⟨hfamily, hversion⟩ := ApiFamily.mark_append_inj (String.toList_inj.mp hrest)
  rw [hchange, hfamily, hversion]

namespace Binding

open Resolver (tagTable tagReference)

/-- Different tags of a table are referred to in different ways. -/
theorem Resolver.tagReference_inj {table : List String} {tag tag' : String} (h : tag ∈ table)
    (h' : tag' ∈ table) : tagReference table tag = tagReference table tag' ↔ tag = tag' := by
  constructor
  · intro hsame
    have hplace := reference?_tagReference table tag
    rw [hsame, reference?_tagReference table tag', Option.some.injEq] at hplace
    have htag := getElem?_idxOf h
    rw [← hplace, getElem?_idxOf h', Option.some.injEq] at htag
    exact htag.symm
  · rintro rfl
    rfl

theorem Resolver.mem_tagTable_of_version {r : Registry} {command : Command} {tag : VersionTag}
    (hcommand : command ∈ r.commands) (htag : tag ∈ r.versionTags command.name) :
    tag.text ∈ tagTable r := by
  refine mem_tagTable.mpr ⟨command, hcommand, ?_⟩
  exact List.mem_append_left _ (List.mem_map_of_mem htag)

/-- A text is read as a version if and only if it is two numbers of 32 bits with
a point between them, each with an optional plus sign, and these are the numbers
of the version. What is written for a version is read as it. Version tags have
the same text if and only if they are equal, and so do the places that a
resolver names for them. -/
theorem versionTexts_faithful :
    (∀ text v, Version.ofString text = .ok v ↔ ∃ major minor,
      Version.Spells text major minor ∧ major < 2 ^ 32 ∧ minor < 2 ^ 32 ∧
        v = ⟨UInt32.ofNat major, UInt32.ofNat minor⟩) ∧
    (∀ v : Version, Version.ofString v.text = .ok v) ∧
    (∀ tag tag' : VersionTag, tag.text = tag'.text ↔ tag = tag') ∧
    ∀ (r : Registry), ∀ command ∈ r.commands, ∀ command' ∈ r.commands,
      ∀ tag ∈ r.versionTags command.name, ∀ tag' ∈ r.versionTags command'.name,
        (tagTable r)[(tagTable r).idxOf tag.text]? = some tag.text ∧
        (tagReference (tagTable r) tag.text = tagReference (tagTable r) tag'.text ↔
          tag = tag') := by
  refine ⟨fun _ _ => Version.ofString_eq_ok_iff, Version.ofString_text,
    fun _ _ => VersionTag.text_injective.eq_iff, ?_⟩
  intro r command hcommand command' hcommand' tag htag tag' htag'
  have hmem := Resolver.mem_tagTable_of_version hcommand htag
  have hmem' := Resolver.mem_tagTable_of_version hcommand' htag'
  refine ⟨Resolver.getElem?_idxOf hmem, ?_⟩
  rw [Resolver.tagReference_inj hmem hmem', VersionTag.text_injective.eq_iff]

/-- Tags that have the same digits, or differ in the sign only. -/
theorem versionTexts_faithful_alike :
    let r : Registry := {
      commands := [⟨"f", "void", []⟩, ⟨"g", "void", []⟩]
      versions := ⟨[("f", [.added .core 1 10, .added .core 11 0]),
        ("g", [⟨.removed, .core, ⟨1, 10⟩⟩])], by decide⟩ }
    (∃ major minor, Version.Spells "+01.4294967295" major minor ∧ major < 2 ^ 32 ∧
      minor < 2 ^ 32 ∧ (⟨1, 4294967295⟩ : Version) = ⟨UInt32.ofNat major, UInt32.ofNat minor⟩) ∧
    tagReference (tagTable r) "+1.10" ≠ tagReference (tagTable r) "+11.0" ∧
    tagReference (tagTable r) "+1.10" ≠ tagReference (tagTable r) "-1.10" := by
  intro r
  obtain ⟨hread, -, -, hplaces⟩ := versionTexts_faithful
  let tag : VersionTag := .added .core 1 10
  have htag : tag.text = "+1.10" := by decide +kernel
  have hother (tag' : VersionTag) (hne : tag ≠ tag') (command' : Command)
      (hcommand' : command' ∈ r.commands) (htag' : tag' ∈ r.versionTags command'.name) :
      tagReference (tagTable r) "+1.10" ≠ tagReference (tagTable r) tag'.text := by
    rw [← htag, ne_eq, (hplaces r ⟨"f", "void", []⟩ (by decide) command' hcommand' tag (by decide)
      tag' htag').2]
    exact hne
  have hlater : (VersionTag.added .core 11 0).text = "+11.0" := by decide +kernel
  have hremoved : (VersionTag.mk .removed .core ⟨1, 10⟩).text = "-1.10" := by decide +kernel
  refine ⟨(hread "+01.4294967295" ⟨1, 4294967295⟩).mp (by decide +kernel), ?_, ?_⟩
  · rw [← hlater]
    exact hother _ (by decide) ⟨"f", "void", []⟩ (by decide) (by decide)
  · rw [← hremoved]
    exact hother _ (by decide) ⟨"g", "void", []⟩ (by decide) (by decide)

end Binding

end LazyGL
