import LazyGL.Proofs.Binding.Emission
import LazyGL.Proofs.Binding.Signature
import LazyGL.Proofs.Binding.TagTable
import LazyGL.Proofs.Numeral
import Mathlib.Data.List.Forall2

/-!
The artifact of the resolvers, read back. The reader knows the form of the lines
and nothing of the registry: it finds the table with its declared length, and
one resolver after the other with the places that it names. What it finds leads
from each command to its tags.
-/

namespace LazyGL.Binding.Resolver

open Numeral

/-! ### Reading -/

/-- What the artifact says: the declared length of the table, its tags, and the
name of each resolver with the places it refers to. -/
structure Loaders where
  declared : Nat
  tags : List String
  resolvers : List (String × List Nat)
deriving DecidableEq

def number? (text : String) : Option Nat :=
  if !text.toList.isEmpty && text.toList.all fun c => (digit? 10 c).isSome then
    some (place 10 0 text.toList)
  else none

def reference? (text : List Char) : Option Nat :=
  between? " self::TAGS[" "]" (String.ofList text) >>= number?

/-- The places that a list of references names; each is read with the space
before it. -/
def references? (text : String) : Option (List Nat) :=
  if text.isEmpty then some [] else ((" " ++ text).toList.splitOn ',').mapM reference?

def resolver? (signature resolve call : String) : Option (String × List Nat) := do
  let name ← (resolve.toList.splitOn '"')[1]?.map String.ofList
  let _ ← afterFront? ("pub unsafe extern \"system\" fn " ++ name ++ "(").toList signature.toList
  let references ← between?
    ("    self::cell::" ++ name ++ ".set(self::resolve(c\"" ++ name ++ "\", &[") "]));" resolve
  let _ ← afterFront? ("    unsafe \x7b std::mem::transmute::<*mut c_void, commands::PFN_" ++ name ++
    ">(self::cell::" ++ name ++ ".get())(").toList call.toList
  let places ← references? references
  some (name, places)

def resolvers? : List String → Option (List (String × List Nat))
  | [last] => if last = "" then some [] else none
  | blank :: signature :: resolve :: call :: close :: rest =>
    if blank = "" ∧ close = "\x7d" then do
      let first ← resolver? signature resolve call
      let others ← resolvers? rest
      some (first :: others)
    else none
  | _ => none

def declared? (line : String) : Option Nat :=
  between? "static TAGS: [&CStr; " "] = [" line >>= number?

/-- The tag on a line of the table, a literal that ends at the second quote. -/
def tag? (line : String) : Option String :=
  (between? "    c\"" "\"," line).filter fun tag => !tag.toList.contains '"'

def loaders? (text : String) : Option Loaders :=
  match (textLines text).dropWhile fun line => (declared? line).isNone with
  | [] => none
  | first :: rest => do
    let declared ← declared? first
    let tags ← (rest.takeWhile (· ≠ "];")).mapM tag?
    let resolvers ← resolvers? (rest.dropWhile (· ≠ "];")).tail
    some ⟨declared, tags, resolvers⟩

/-! ### Reading back -/

theorem number?_toString (n : Nat) : number? (toString n) = some n := by
  have hdigits : (Nat.toDigits 10 n).all fun c => (digit? 10 c).isSome :=
    List.all_eq_true.mpr (digits_toDigits n)
  rw [number?, toList_toString, if_pos, place_toDigits]
  simp [hdigits, Nat.toDigits_ne_nil]

theorem declared?_tableLine (n : Nat) :
    declared? ("static TAGS: [&CStr; " ++ toString n ++ "] = [") = some n := by
  rw [declared?, between?_append]
  exact number?_toString n

theorem declared?_literal {chars : List Char} (h : chars.head? ≠ some 's') :
    (declared? (String.ofList chars)).isNone := by
  have hfront : afterFront? "static TAGS: [&CStr; ".toList (String.ofList chars).toList = none := by
    cases chars with
    | nil => simp [afterFront?]
    | cons c chars =>
        have hc : 's' ≠ c := fun hs => h (by rw [← hs]; rfl)
        simp [afterFront?, hc]
  rw [declared?, between?, hfront]
  rfl

theorem tag?_tagLine {tag : String} (h : '"' ∉ tag.toList) : tag? (tagLine tag) = some tag := by
  rw [tag?, tagLine, between?_append]
  simp [h]

theorem reference?_tagReference (table : List String) (tag : String) :
    reference? (" " ++ tagReference table tag).toList = some (table.idxOf tag) := by
  have hline : " " ++ tagReference table tag =
      " self::TAGS[" ++ toString (table.idxOf tag) ++ "]" := by
    rw [tagReference, ← String.append_assoc, ← String.append_assoc]
    rfl
  rw [reference?, String.ofList_toList, hline, between?_append]
  exact number?_toString _

theorem not_mem_toString {c : Char} (hc : c.toNat < 48) (n : Nat) : c ∉ (toString n).toList := by
  rw [toList_toString]
  exact not_mem_of_digits (digits_toDigits n) hc

theorem comma_not_mem_tagReference (table : List String) (tag : String) :
    ',' ∉ (" " ++ tagReference table tag).toList := by
  have hnumber : ',' ∉ (toString (table.idxOf tag)).toList := not_mem_toString (by decide) _
  simp only [tagReference, String.toList_append, List.mem_append, not_or]
  exact ⟨by decide, ⟨by decide, hnumber⟩, by decide⟩

theorem splitOn_intercalate {part : String} {parts : List String}
    (h : ∀ text ∈ part :: parts, ',' ∉ (" " ++ text).toList) :
    (" " ++ ", ".intercalate (part :: parts)).toList.splitOn ',' =
      (part :: parts).map fun text => (" " ++ text).toList := by
  induction parts generalizing part with
  | nil =>
      rw [String.intercalate_singleton, List.splitOn_eq_singleton (h part List.mem_cons_self)]
      rfl
  | cons next parts ih =>
      obtain ⟨hpart, hparts⟩ := List.forall_mem_cons.mp h
      have htext : (" " ++ ", ".intercalate (part :: next :: parts)).toList =
          (" " ++ part).toList ++ ',' :: (" " ++ ", ".intercalate (next :: parts)).toList := by
        simp [String.intercalate_cons_cons]
      rw [htext, List.splitOn_append_cons_self_of_not_mem hpart, ih hparts]
      rfl

theorem mapM_map_eq_some {α β γ : Type} {f : α → β} {g : β → Option γ} {h : α → γ} {l : List α}
    (hg : ∀ a ∈ l, g (f a) = some (h a)) : (l.map f).mapM g = some (l.map h) := by
  induction l with
  | nil => rfl
  | cons a l ih =>
      obtain ⟨ha, hl⟩ := List.forall_mem_cons.mp hg
      rw [List.map_cons, List.mapM_cons, ha, ih hl]
      rfl

theorem references?_tagReferences (table candidates : List String) :
    references? (", ".intercalate (candidates.map (tagReference table))) =
      some (candidates.map table.idxOf) := by
  cases candidates with
  | nil => rfl
  | cons tag candidates =>
      have hne :
          (", ".intercalate ((tag :: candidates).map (tagReference table))).isEmpty = false := by
        cases candidates with
        | nil => simp [tagReference]
        | cons next candidates => simp [tagReference, String.intercalate_cons_cons]
      rw [references?, hne, List.map_cons, splitOn_intercalate]
      · rw [← List.map_cons, List.map_map]
        exact mapM_map_eq_some fun tag _ => reference?_tagReference table tag
      · rw [← List.map_cons, List.forall_mem_map]
        exact fun tag _ => comma_not_mem_tagReference table tag

/-! ### Resolvers -/

theorem quoted_name {name : String} (hname : '"' ∉ name.toList) (references : String) :
    (("    self::cell::" ++ name ++ ".set(self::resolve(c\"" ++ name ++ "\", &[" ++ references ++
      "]));").toList.splitOn '"')[1]? = some name.toList := by
  have htext : ("    self::cell::" ++ name ++ ".set(self::resolve(c\"" ++ name ++ "\", &[" ++
      references ++ "]));").toList =
      ("    self::cell::" ++ name ++ ".set(self::resolve(c").toList ++
        '"' :: (name.toList ++ '"' :: (", &[" ++ references ++ "]));").toList) := by
    simp
  have hfront : '"' ∉ ("    self::cell::" ++ name ++ ".set(self::resolve(c").toList := by
    simp [hname]
  rw [htext, List.splitOn_append_cons_self_of_not_mem hfront,
    List.splitOn_append_cons_self_of_not_mem hname]
  rfl

theorem afterFront?_toList {front whole : String} (rest : String) (h : whole = front ++ rest) :
    afterFront? front.toList whole.toList = some rest.toList := by
  rw [h, String.toList_append, afterFront?_append]

/-- A resolver is read back as its command with the places of its tags. -/
theorem resolver?_lines (table candidates : List String) (command : Command)
    (hname : '"' ∉ command.name.toList) :
    ∃ signature resolve call,
      lines table candidates command = ["", signature, resolve, call, "\x7d"] ∧
        resolver? signature resolve call = some (command.name, candidates.map table.idxOf) := by
  refine ⟨_, _, _, rfl, ?_⟩
  -- the name is what the first two quotes enclose; from it the fronts follow
  have hquoted := quoted_name hname (", ".intercalate (candidates.map (tagReference table)))
  have hsignature (params result : String) :
      afterFront? ("pub unsafe extern \"system\" fn " ++ command.name ++ "(").toList
        ("pub unsafe extern \"system\" fn " ++ command.name ++ "(" ++ params ++ ")" ++ result ++
          " \x7b").toList =
      some (params ++ ")" ++ result ++ " \x7b").toList :=
    afterFront?_toList _ (by simp only [String.append_assoc])
  have hcall (arguments : String) :
      afterFront? ("    unsafe \x7b std::mem::transmute::<*mut c_void, commands::PFN_" ++
          command.name ++ ">(self::cell::" ++ command.name ++ ".get())(").toList
        ("    unsafe \x7b std::mem::transmute::<*mut c_void, commands::PFN_" ++ command.name ++
          ">(self::cell::" ++ command.name ++ ".get())(" ++ arguments ++ ") \x7d").toList =
      some (arguments ++ ") \x7d").toList :=
    afterFront?_toList _ (by simp only [String.append_assoc])
  simp only [resolver?, hquoted, Option.map_some, Option.bind_eq_bind, Option.bind_some,
    String.ofList_toList, hsignature, between?_append, hcall, references?_tagReferences]

theorem resolvers?_lines (table : List String) (candidates : Command → List String)
    {commands : List Command} (hnames : ∀ command ∈ commands, '"' ∉ command.name.toList) :
    resolvers?
        ((commands.flatMap fun command => lines table (candidates command) command) ++ [""]) =
      some (commands.map fun command =>
        (command.name, (candidates command).map table.idxOf)) := by
  induction commands with
  | nil => rfl
  | cons command commands ih =>
      obtain ⟨hname, hnames⟩ := List.forall_mem_cons.mp hnames
      obtain ⟨signature, resolve, call, hlines, hresolver⟩ :=
        resolver?_lines table (candidates command) command hname
      rw [List.flatMap_cons, hlines]
      simp only [List.cons_append, List.nil_append, resolvers?, hresolver, ih hnames]
      rfl

/-! ### Texts without breaks -/

def Quotable (text : String) : Prop := OneLine text ∧ '"' ∉ text.toList

instance (text : String) : Decidable (Quotable text) :=
  inferInstanceAs (Decidable (OneLine text ∧ '"' ∉ text.toList))

theorem quotable_append {s t : String} (hs : Quotable s) (ht : Quotable t) : Quotable (s ++ t) := by
  refine ⟨oneLine_append.mpr ⟨hs.1, ht.1⟩, ?_⟩
  rw [String.toList_append, List.mem_append, not_or]
  exact ⟨hs.2, ht.2⟩

theorem quotable_toString (n : Nat) : Quotable (toString n) :=
  ⟨not_mem_toString (by decide) n, not_mem_toString (by decide) n⟩

theorem quotable_versionTag (tag : VersionTag) : Quotable tag.text := by
  have hsign : Quotable tag.change.sign := by
    cases tag.change <;> decide
  have hmark : Quotable tag.family.mark := by
    cases tag.family <;> decide
  have hversion : Quotable tag.version.text :=
    quotable_append (quotable_append (quotable_toString _) (by decide)) (quotable_toString _)
  exact quotable_append (quotable_append hsign hmark) hversion

/-- The artifact can be made of a command's texts: they stay on one line, and
its name can stand between quotes. -/
structure Writable (command : Command) : Prop where
  name : Quotable command.name
  returnType : OneLine command.returnType
  params : ∀ param ∈ command.params, OneLine param.name ∧ OneLine param.base

theorem Writable.singleLine {command : Command} (h : Writable command) : SingleLine command :=
  ⟨h.name.1, h.returnType, h.params⟩

theorem oneLine_lines (table candidates : List String) {command : Command}
    (h : SingleLine command) : ∀ line ∈ lines table candidates command, OneLine line := by
  have hparams := oneLine_paramList h
  have harguments := oneLine_argumentList h
  have hreturn := oneLine_returnClause h
  have hreferences : OneLine (", ".intercalate (candidates.map (tagReference table))) := by
    refine oneLine_intercalate oneLine_literal ?_
    rw [List.forall_mem_map]
    intro tag _
    simp only [tagReference, oneLine_append, (quotable_toString _).1, and_true]
    exact ⟨oneLine_literal, oneLine_literal⟩
  intro line hline
  simp only [lines, List.mem_cons, List.not_mem_nil, or_false] at hline
  -- a blank line, the signature, the resolution, the call and the end
  rcases hline with rfl | rfl | rfl | rfl | rfl
  · decide
  · simp only [oneLine_append, h.name, hparams, hreturn, and_true]
    exact ⟨⟨⟨oneLine_literal, oneLine_literal⟩, oneLine_literal⟩, oneLine_literal⟩
  · simp only [oneLine_append, h.name, hreferences, and_true]
    exact ⟨⟨⟨oneLine_literal, oneLine_literal⟩, oneLine_literal⟩, oneLine_literal⟩
  · simp only [oneLine_append, h.name, harguments, and_true]
    exact ⟨⟨⟨oneLine_literal, oneLine_literal⟩, oneLine_literal⟩, oneLine_literal⟩
  · decide

/-! ### The artifact -/

theorem lines_script (r : Registry) :
    (script r).lines =
      header ++ ["", "static TAGS: [&CStr; " ++ toString (tagTable r).length ++ "] = ["] ++
      (tagTable r).map tagLine ++ ["];"] ++
      r.commands.flatMap fun command =>
        lines (tagTable r) (r.candidateTags command.name) command := by
  simp [script, tableLines, resolver]

theorem tagLine_ne_close (tag : String) : tagLine tag ≠ "];" := by
  intro h
  have hchars := congrArg String.toList h
  simp [tagLine] at hchars

/-- The artifact is its header, the line with the length, the table, the line
that closes it, and the resolvers. -/
theorem textLines_loaders {r : Registry} (hlines : ∀ line ∈ (script r).lines, OneLine line) :
    textLines (Artifact.loaders.text r) = (header ++ [""]) ++
      ("static TAGS: [&CStr; " ++ toString (tagTable r).length ++ "] = [") ::
        ((tagTable r).map tagLine ++ "];" :: ((r.commands.flatMap fun command =>
          lines (tagTable r) (r.candidateTags command.name) command) ++ [""])) := by
  rw [Artifact.text_eq, Artifact.script, Script.textLines_text hlines, lines_script]
  simp

/-- The artifact is read back as the table and the places of the tags in it. -/
theorem loaders?_text {r : Registry} (hlines : ∀ line ∈ (script r).lines, OneLine line)
    (hnames : ∀ command ∈ r.commands, '"' ∉ command.name.toList)
    (htags : ∀ tag ∈ tagTable r, '"' ∉ tag.toList) :
    loaders? (Artifact.loaders.text r) =
      some ⟨(tagTable r).length, tagTable r, r.commands.map fun command =>
        (command.name, (r.candidateTags command.name).map (tagTable r).idxOf)⟩ := by
  have hheader : ∀ line ∈ header ++ [""], (declared? line).isNone := by
    unfold header
    repeat refine List.forall_mem_cons.mpr ⟨declared?_literal (by decide), ?_⟩
    exact List.forall_mem_nil _
  -- the table ends at the first line that is no tag
  have hclose : ∀ line ∈ (tagTable r).map tagLine, decide (line ≠ "];") := by
    rw [List.forall_mem_map]
    exact fun tag _ => decide_eq_true (tagLine_ne_close tag)
  have hread : ((tagTable r).map tagLine).mapM tag? = some ((tagTable r).map id) :=
    mapM_map_eq_some fun tag htag => tag?_tagLine (htags tag htag)
  have hresolvers :=
    resolvers?_lines (tagTable r) (fun command => r.candidateTags command.name) hnames
  rw [loaders?, textLines_loaders hlines, List.dropWhile_append_of_pos hheader,
    List.dropWhile_cons_of_neg]
  · simp only [declared?_tableLine, List.takeWhile_append_of_pos hclose,
      List.dropWhile_append_of_pos hclose, List.takeWhile_cons, List.dropWhile_cons]
    simp [hread, hresolvers]
  · rw [declared?_tableLine]
    exact Bool.false_ne_true

theorem quotable_tagTable {r : Registry}
    (h : ∀ command ∈ r.commands, ∀ tag ∈ r.extensionTags command.name, Quotable tag.name) :
    ∀ tag ∈ tagTable r, Quotable tag := by
  intro tag htag
  obtain ⟨command, hcommand, hmem⟩ := mem_tagTable.mp htag
  rcases List.mem_append.mp hmem with hmem | hmem
  · obtain ⟨version, -, rfl⟩ := List.mem_map.mp hmem
    exact quotable_versionTag version
  · obtain ⟨extension, hextension, rfl⟩ := List.mem_map.mp hmem
    exact h command hcommand extension hextension

theorem oneLine_script {r : Registry} (hcommands : ∀ command ∈ r.commands, Writable command)
    (htags : ∀ tag ∈ tagTable r, Quotable tag) : ∀ line ∈ (script r).lines, OneLine line := by
  rw [lines_script]
  simp only [List.forall_mem_append, List.forall_mem_map, List.forall_mem_flatMap]
  refine ⟨⟨⟨⟨?_, ?_⟩, ?_⟩, ?_⟩, ?_⟩
  · unfold header
    repeat refine List.forall_mem_cons.mpr ⟨oneLine_literal, ?_⟩
    exact List.forall_mem_nil _
  · have hlength : OneLine (toString (tagTable r).length) := (quotable_toString _).1
    simp only [List.forall_mem_cons, oneLine_append]
    exact ⟨oneLine_literal, ⟨⟨oneLine_literal, hlength⟩, oneLine_literal⟩, List.forall_mem_nil _⟩
  · intro tag htag
    simp only [tagLine, oneLine_append, (htags tag htag).1, and_true]
    exact ⟨oneLine_literal, oneLine_literal⟩
  · decide
  · exact fun command hcommand => oneLine_lines _ _ (hcommands command hcommand).singleLine

theorem level_signatureLog {command : Command} :
    ∀ entry ∈ Signature.log command, entry.level = .warn := by
  rw [Signature.log, List.forall_mem_flatMap]
  intro param _ entry hentry
  unfold Target.paramLog at hentry
  simp only at hentry
  split at hentry
  · rw [List.mem_singleton.mp hentry]
  · cases hentry

theorem level_ungatedLog {candidates : List String} {command : Command} :
    ∀ entry ∈ ungatedLog candidates command, entry.level = .debug := by
  intro entry hentry
  unfold ungatedLog at hentry
  split at hentry
  · rw [List.mem_singleton.mp hentry]
  · cases hentry

/-- A command logs what is to be said of its types, and then that it has no tags. -/
theorem log_script (r : Registry) :
    (script r).log = r.commands.flatMap fun command =>
      Signature.log command ++ ungatedLog (r.candidateTags command.name) command := by
  simp [script, resolver]

/-- Of all that is logged only the lines about ungated commands are for
debugging. -/
theorem debugLog_script (r : Registry) :
    (script r).log.filter (fun entry => entry.level = .debug) =
      (r.commands.filter fun command => (r.candidateTags command.name).isEmpty).map fun command =>
        ⟨.debug, command.name ++ " is not part of any feature or extension"⟩ := by
  rw [log_script]
  -- a command adds its line if it has no tags, and nothing else for debugging
  induction r.commands with
  | nil => rfl
  | cons command commands ih =>
      have hsignature :
          (Signature.log command).filter (fun entry => entry.level = .debug) = [] := by
        rw [List.filter_eq_nil_iff]
        intro entry hentry
        simp [level_signatureLog entry hentry]
      rw [List.flatMap_cons, List.filter_append, ih, List.filter_append, hsignature,
        List.nil_append]
      by_cases hungated : (r.candidateTags command.name).isEmpty
      · simp [ungatedLog, hungated]
      · simp [ungatedLog, hungated]

/-- The texts of the tags that a registry holds for a command: those of its
versions, and then those of its extensions. -/
def tagTexts (r : Registry) (command : String) : List String :=
  ((r.versions.get? command).getD []).map VersionTag.text ++
    ((r.extensions.get? command).getD []).map ExtensionTag.name

/-- A resolver leads to the tags of a command: it refers to places within the
table, and the table has these tags there. -/
def Resolves (r : Registry) (loaders : Loaders) (found : String × List Nat)
    (command : Command) : Prop :=
  found.1 = command.name ∧ (∀ place ∈ found.2, place < loaders.declared) ∧
    found.2.map (fun place => loaders.tags[place]?) = (tagTexts r command.name).map some

/-- The artifact resolves each command with its tags and no others, through one
table that has each tag once. -/
theorem loaders_resolve (r : Registry) (hcommands : ∀ command ∈ r.commands, Writable command)
    (htags : ∀ command ∈ r.commands, ∀ tag ∈ (r.extensions.get? command.name).getD [],
      Quotable tag.name) :
    ∃ loaders, loaders? (Artifact.loaders.text r) = some loaders ∧
      loaders.tags.Pairwise (fun a b => Utf8.ofString a < Utf8.ofString b) ∧
      loaders.declared = loaders.tags.length ∧
      (∀ tag, tag ∈ loaders.tags ↔ ∃ command ∈ r.commands, tag ∈ tagTexts r command.name) ∧
      List.Forall₂ (Resolves r loaders) loaders.resolvers r.commands ∧
      (Artifact.loaders.log r).filter (fun entry => entry.level = .debug) =
        (r.commands.filter fun command => (tagTexts r command.name).isEmpty).map fun command =>
          ⟨.debug, command.name ++ " is not part of any feature or extension"⟩ := by
  have hquotable := quotable_tagTable htags
  have hread := loaders?_text (oneLine_script hcommands hquotable)
    (fun command hcommand => (hcommands command hcommand).name.2)
    (fun tag htag => (hquotable tag htag).2)
  have hlog : (Artifact.loaders.log r).filter (fun entry => entry.level = .debug) = _ :=
    Artifact.log_eq .loaders r ▸ debugLog_script r
  refine ⟨_, hread, pairwise_tagTable r, rfl, fun tag => mem_tagTable, ?_, hlog⟩
  rw [List.forall₂_map_left_iff, List.forall₂_same]
  intro command hcommand
  have htable : ∀ tag ∈ r.candidateTags command.name, tag ∈ tagTable r :=
    fun tag htag => mem_tagTable.mpr ⟨command, hcommand, htag⟩
  refine ⟨rfl, ?_, ?_⟩
  · rw [List.forall_mem_map]
    exact fun tag htag => List.idxOf_lt_length_iff.mpr (htable tag htag)
  · rw [List.map_map]
    exact List.map_congr_left fun tag htag => getElem?_idxOf (htable tag htag)

/-- Commands that share tags, one with a tag twice and an extension named like a
version tag, and one without tags. -/
def sharedTags : Registry where
  commands := [⟨"glB", "void", [⟨"x", "GLint", "!?", none, none⟩]⟩, ⟨"glA", "GLint", []⟩,
    ⟨"glC", "void", []⟩]
  versions := ⟨[("glB", [.added .core 3 0, .added .es 3 0, .added .core 3 0])], by decide⟩
  extensions := ⟨[("glA", [⟨"EXT_x"⟩]), ("glB", [⟨"+3.0"⟩, ⟨"EXT_x"⟩])], by decide⟩

theorem loaders_resolve_sharedTags :
    ∃ loaders, loaders? (Artifact.loaders.text sharedTags) = some loaders ∧
      loaders = ⟨3, ["+3.0", "+ES3.0", "EXT_x"],
        [("glB", [0, 1, 0, 0, 2]), ("glA", [2]), ("glC", [])]⟩ ∧
      List.Forall₂ (Resolves sharedTags loaders) loaders.resolvers sharedTags.commands ∧
      (Artifact.loaders.log sharedTags).filter (fun entry => entry.level = .debug) =
        [⟨.debug, "glC is not part of any feature or extension"⟩] := by
  have hcommands : ∀ command ∈ sharedTags.commands, Writable command := by
    simp only [sharedTags, List.forall_mem_cons]
    exact ⟨⟨by decide, by decide, by decide⟩, ⟨by decide, by decide, by decide⟩,
      ⟨by decide, by decide, by decide⟩, List.forall_mem_nil _⟩
  obtain ⟨loaders, hread, -, -, -, hresolves, hlog⟩ :=
    loaders_resolve sharedTags hcommands (by decide)
  have hquotable : ∀ tag ∈ tagTable sharedTags, Quotable tag := quotable_tagTable (by decide)
  have hfound := loaders?_text (oneLine_script hcommands hquotable)
    (fun command hcommand => (hcommands command hcommand).name.2)
    (fun tag htag => (hquotable tag htag).2)
  have htags : (sharedTags.commands.flatMap fun command => sharedTags.candidateTags command.name) =
      ["+3.0", "+ES3.0", "+3.0", "+3.0", "EXT_x", "EXT_x"] := by decide +kernel
  have htable : tagTable sharedTags = ["+3.0", "+ES3.0", "EXT_x"] := by
    rw [tagTable, htags]
    simp [List.mergeSort, List.MergeSort.Internal.splitInTwo, dropRepeats]
  rw [htable] at hfound
  refine ⟨loaders, hread, Option.some.inj (hread.symm.trans (hfound.trans ?_)), hresolves, ?_⟩
  · decide +kernel
  rw [hlog]
  decide

end LazyGL.Binding.Resolver
