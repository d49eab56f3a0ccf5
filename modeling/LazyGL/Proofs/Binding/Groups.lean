import LazyGL.Proofs.Binding.Constant
import LazyGL.Proofs.Reading.Collection
import LazyGL.Proofs.Reading.Invariant

/-!
The modules made for groups. The artifact of the constants is read back: it has
a module for each group, and each name that a module exports is that of one
declaration. Main statement: the modules are those of the groups that the
document gives values to.
-/

namespace LazyGL.Binding.Constant

open Reading

/-! ### Modules -/

/-- The modules whose lines come next, up to the line that closes the module
around them: the name of each and what stands between the brackets of its
exports. -/
def modules? : List String → Option (List (String × String))
  | [] => none
  | line :: rest =>
    if line = "\x7d" then some []
    else
      match rest with
      | exports :: close :: rest =>
        match between? "    pub mod " " \x7b" line,
          between? "        pub use super::super::\x7b" "\x7d;" exports with
        | some group, some members =>
          if close = "    \x7d" then (modules? rest).map ((group, members) :: ·) else none
        | _, _ => none
      | _ => none

def groupModules? (text : String) : Option (List (String × String)) :=
  modules? ((textLines text).dropWhile (· ≠ "pub mod groups \x7b")).tail

/-- The name that a line declares. It ends at the last colon, since neither a
type nor an initializer has one. -/
def declaredName? (line : String) : Option String :=
  match afterFront? "pub const ".toList line.toList with
  | none => none
  | some rest =>
    match rest.reverse.dropWhile (· ≠ ':') with
    | [] => none
    | _ :: name => some (String.ofList name.reverse)

theorem modules?_close (after : List String) : modules? ("\x7d" :: after) = some [] := by
  unfold modules?
  rw [if_pos rfl]

theorem modules?_open (group : String) (members after : List String) :
    modules? (groupLines group members ++ after) =
      (modules? after).map ((group, ", ".intercalate members) :: ·) := by
  have hne : "    pub mod " ++ group ++ " \x7b" ≠ "\x7d" := by
    intro h
    have hchars := congrArg String.toList h
    simp at hchars
  simp only [groupLines, List.cons_append, List.nil_append]
  rw [modules?, if_neg hne]
  simp only [between?_append, if_true]

theorem modules?_groupLines (lists : List (String × List String)) (after : List String) :
    modules? ((lists.flatMap fun (group, members) => groupLines group members) ++
        "\x7d" :: after) =
      some (lists.map fun (group, members) => (group, ", ".intercalate members)) := by
  induction lists with
  | nil => exact modules?_close after
  | cons list lists ih =>
      rw [List.flatMap_cons, List.append_assoc, modules?_open, ih, Option.map_some, List.map_cons]

theorem declaredName?_declaration (kind : ValueKind) {e : Enumerant}
    (h : (Literal.value? e.value).isSome) :
    declaredName? (declaration kind (Registry.canonicalize (canonical kind) e)) = some e.name := by
  obtain ⟨expression, n, hline, -, hbits⟩ := declares_canonicalize kind h
  have hrest : ':' ∉ (" " ++ typeOf kind ++ " = " ++ expression ++ ";").toList := by
    have htype : ':' ∉ (typeOf kind).toList := by
      cases kind <;> decide
    simp [foreign_colon.not_mem_of_bits? hbits, htype]
  have hsplit : (declaration kind (Registry.canonicalize (canonical kind) e)).toList =
      "pub const ".toList ++ (e.name.toList ++
        ':' :: (" " ++ typeOf kind ++ " = " ++ expression ++ ";").toList) := by
    rw [hline]
    simp
  have hsuffix : ∀ c ∈ (" " ++ typeOf kind ++ " = " ++ expression ++ ";").toList.reverse,
      decide (c ≠ ':') = true := by
    intro c hc
    rw [List.mem_reverse] at hc
    exact decide_eq_true fun hcolon => hrest (hcolon ▸ hc)
  rw [declaredName?, hsplit, afterFront?_append]
  simp only [List.reverse_append, List.reverse_cons, List.append_assoc, List.singleton_append,
    List.dropWhile_append_of_pos hsuffix]
  simp

/-- The modules of the artifact are those of the groups, in order, and each
exports the members of its group, in order and once. For each name that is
exported there is one declaration. -/
structure Exported (text : String) (groups : List (String × List String)) : Prop where
  modules : groupModules? text =
    some (groups.map fun (group, members) => (group, ", ".intercalate members))
  distinct : (groups.map Prod.fst).Nodup
  once : ∀ group ∈ groups, group.2.Nodup
  declared : ∀ group ∈ groups, ∀ member ∈ group.2,
    ((declarations text).filterMap declaredName?).count member = 1

section Modules

variable {r : Registry}

theorem groupModules?_text (hlines : ∀ line ∈ (script r).lines, OneLine line) :
    groupModules? (Artifact.constants.text r) =
      some (r.groupLists.map fun (group, members) => (group, ", ".intercalate members)) := by
  -- before the modules there are declarations and fixed lines
  let before := [notice, "", "use super::types::*;", ""] ++ r.enums.map (declaration .plain) ++
    [""] ++ r.bitfields.map (declaration .bitmask) ++ ["", "#[allow(non_snake_case)]"]
  have hsplit : textLines (Artifact.constants.text r) = before ++ "pub mod groups \x7b" ::
      ((r.groupLists.flatMap fun (group, members) => groupLines group members) ++
        "\x7d" :: [""]) := by
    rw [Artifact.text_eq, Artifact.script, Script.textLines_text hlines, lines_script]
    simp [before, Registry.groupLists, List.flatMap_map]
  have hdeclaration (kind : ValueKind) (e : Enumerant) :
      declaration kind e ≠ "pub mod groups \x7b" := by
    intro h
    have hdeclares := isDeclaration_declaration kind e
    rw [h] at hdeclares
    exact absurd hdeclares (by decide)
  have hbefore : ∀ line ∈ before, decide (line ≠ "pub mod groups \x7b") = true := by
    simp only [before, List.forall_mem_append, List.forall_mem_map, decide_eq_true_eq]
    exact ⟨⟨⟨⟨by decide, fun e _ => hdeclaration .plain e⟩, by decide⟩,
      fun e _ => hdeclaration .bitmask e⟩, by decide⟩
  rw [groupModules?, hsplit, List.dropWhile_append_of_pos hbefore,
    List.dropWhile_cons_of_neg (by simp), List.tail_cons]
  exact modules?_groupLines r.groupLists [""]

/-- The names that are declared are those of the values, in the order of the
normal form. -/
theorem declaredNames_normalize (hlines : ∀ line ∈ (script r.normalize).lines, OneLine line)
    (hvalues : ∀ e ∈ r.enums ++ r.bitfields, (Literal.value? e.value).isSome) :
    (declarations (Artifact.constants.text r.normalize)).filterMap declaredName? =
      r.normalize.valueNames := by
  rw [List.forall_mem_append] at hvalues
  have hnames (kind : ValueKind) {es : List Enumerant}
      (h : ∀ e ∈ es, (Literal.value? e.value).isSome) :
      ((Registry.sortByValue (es.map (Registry.canonicalize (canonical kind)))).map
        (declaration kind)).filterMap declaredName? =
          (Registry.sortByValue (es.map (Registry.canonicalize (canonical kind)))).map
            Enumerant.name := by
    rw [List.filterMap_map, ← List.filterMap_eq_map (f := Enumerant.name)]
    refine List.filterMap_congr (Registry.forall_mem_sortByValue fun e he => ?_)
    rw [Function.comp_apply, declaredName?_declaration kind (h e he), Function.comp_apply,
      Registry.name_canonicalize]
  rw [declarations_text hlines, List.filterMap_append, Registry.valueNames, List.map_append]
  exact congrArg₂ _ (hnames .plain hvalues.1) (hnames .bitmask hvalues.2)

/-- No line of the artifact of a normal form breaks if no name does: the members
of its groups are names of values. -/
theorem oneLine_script_normalize
    (hnames : ∀ e ∈ r.enums ++ r.bitfields, OneLine e.name)
    (hgroups : ∀ entry ∈ r.normalize.groups.entries, OneLine entry.1)
    (hvalues : ∀ e ∈ r.enums ++ r.bitfields, (Literal.value? e.value).isSome) :
    ∀ line ∈ (script r.normalize).lines, OneLine line := by
  have hmembers : ∀ name ∈ r.valueNames, OneLine name := by
    rwa [Registry.valueNames, List.forall_mem_map]
  rw [List.forall_mem_append] at hnames hvalues
  refine oneLine_script ?_ ?_ ?_
  · exact Registry.forall_mem_sortByValue fun e he =>
      oneLine_declaration (hnames.1 e he) (hvalues.1 e he)
  · exact Registry.forall_mem_sortByValue fun e he =>
      oneLine_declaration (hnames.2 e he) (hvalues.2 e he)
  · rintro ⟨group, members⟩ hentry
    refine ⟨hgroups _ hentry, fun member hmember => hmembers member ?_⟩
    rw [← (Registry.normalize_values_perm r).mem_iff]
    exact (Registry.normal_normalize r).known members (List.mem_map_of_mem hentry) member hmember

theorem exported_normalize (h : r.WellFormed) (hnames : ∀ name ∈ r.valueNames, OneLine name)
    (hgroups : ∀ group ∈ r.normalize.groupLists, OneLine group.1) :
    Exported (Artifact.constants.text r.normalize) r.normalize.groupLists := by
  rw [Registry.valueNames, List.forall_mem_map] at hnames
  rw [Registry.groupLists, List.forall_mem_map] at hgroups
  have hvalues : ∀ e ∈ r.enums ++ r.bitfields, (Literal.value? e.value).isSome := by
    rw [List.forall_mem_append]
    exact ⟨fun e he => (h.plain e he).value, fun e he => (h.masks e he).value⟩
  have hlines := oneLine_script_normalize hnames hgroups hvalues
  refine ⟨groupModules?_text hlines, ?_, ?_, ?_⟩
  · rw [Registry.groupLists, List.map_map]
    exact r.normalize.groups.nodup_keys
  · rw [Registry.groupLists, List.forall_mem_map]
    exact fun entry _ => entry.2.nodup
  · rw [Registry.groupLists, List.forall_mem_map]
    intro entry hentry member hmember
    -- a member names a value, and no two values have one name
    have hknown := (Registry.normal_normalize r).known entry.2 (List.mem_map_of_mem hentry)
      member hmember
    rw [declaredNames_normalize hlines hvalues, h.normalize.valueNames.count, if_pos hknown]

end Modules

/-! ### Whole documents -/

/-- After normalization the groups of an accepted document are those that it
gives values to, and the artifact of the constants has a module for each of
them, which exports values that it declares. -/
theorem groups_of_document {input : Bytes} {r : Registry}
    (haccepted : Registry.ofDocument input = .ok r) :
    (∃ document, (Markup.transcribe input).events.map Prod.snd = eventsOf document) ∧
      ∀ document, (Markup.transcribe input).events.map Prod.snd = eventsOf document →
        GroupsOf (remarks document) r.normalize ∧
          ((∀ name ∈ r.valueNames, OneLine name) →
            (∀ group ∈ r.normalize.groupLists, OneLine group.1) →
              Exported (Artifact.constants.text r.normalize) r.normalize.groupLists) := by
  refine ⟨exists_eventsOf haccepted, fun document hevents => ⟨?_, exported_normalize ?_⟩⟩
  · exact groupsOf_normalize (readTrees_of_ofDocument haccepted hevents)
  · obtain ⟨s, hrun, -, -, rfl⟩ := run_of_ofDocument haccepted
    exact (State.run_invariant (fun _ _ hmove hs => hs.move hmove) hrun
      State.sound_empty).draft.registry

/-- A group lists a name that no value is stored under. A value lists the group
and another one, with an empty part in between. -/
theorem groups_of_document_suffix :
    let input := Utf8.ofString ("<r><groups><group name='H'><enum name='B'/></group></groups>"
      ++ "<enums><enum name='B' api='e' value='2' group='G,,H'/></enums></r>")
    let document : List Reading.Node :=
      [.element ⟨Utf8.ofString "r"⟩
        [.element ⟨Utf8.ofString "groups"⟩
          [.element ⟨Utf8.ofString "group name='H'"⟩ [.closed ⟨Utf8.ofString "enum name='B'"⟩]
            (Utf8.ofString "group")] (Utf8.ofString "groups"),
        .element ⟨Utf8.ofString "enums"⟩
          [.closed ⟨Utf8.ofString "enum name='B' api='e' value='2' group='G,,H'"⟩]
          (Utf8.ofString "enums")] (Utf8.ofString "r")]
    let r : Registry :=
      { groups := ⟨[("H", ⟨["B", "Be"], by decide⟩), ("G", ⟨["Be"], by decide⟩)], by decide⟩
        enums := [⟨"Be", "2", .plain⟩] }
    Registry.ofDocument input = .ok r ∧
      (Markup.transcribe input).events.map Prod.snd = eventsOf document ∧
      (∀ name ∈ r.valueNames, OneLine name) ∧
      (∀ group ∈ r.normalize.groupLists, OneLine group.1) ∧
      GroupsOf (remarks document) r.normalize ∧
      Exported (Artifact.constants.text r.normalize) r.normalize.groupLists := by
  intro input document r
  obtain ⟨hwhole, hevents⟩ : (Markup.transcribe input).fault = none ∧
      (Markup.transcribe input).events.map Prod.snd = eventsOf document := by decide +kernel
  have hread : readTrees document = .ok r := by decide +kernel
  have hnames : ∀ name ∈ r.valueNames, OneLine name := by decide
  have hgroups : ∀ group ∈ r.normalize.groupLists, OneLine group.1 := by
    rw [Registry.groupLists_normalize]
    decide
  have haccepted := ofDocument_of_readTrees hwhole hevents hread
  obtain ⟨-, hdocument⟩ := groups_of_document haccepted
  obtain ⟨hgroupsOf, hexported⟩ := hdocument document hevents
  exact ⟨haccepted, hevents, hnames, hgroups, hgroupsOf, hexported hnames hgroups⟩

/-- A list of groups may end in a comma. The part after it is empty and is no
group, although a group without a name may be declared. -/
theorem emptyPart_not_group :
    ¬∀ (input : Bytes) (r : Registry) (document : List Reading.Node),
      Registry.ofDocument input = .ok r →
      (Markup.transcribe input).events.map Prod.snd = eventsOf document →
        ∀ group member, (∃ members, (group, members) ∈ r.normalize.groupLists ∧ member ∈ members) ↔
          ∃ parts, .entry member parts ∈ remarks document ∧
            (.listed group member ∈ remarks document ∨ group ∈ parts) := by
  intro h
  let input := Utf8.ofString
    "<r><groups><group name=''/></groups><enums><enum name='A' value='1' group='G,'/></enums></r>"
  let document : List Reading.Node :=
    [.element ⟨Utf8.ofString "r"⟩
      [.element ⟨Utf8.ofString "groups"⟩ [.closed ⟨Utf8.ofString "group name=''"⟩]
        (Utf8.ofString "groups"),
      .element ⟨Utf8.ofString "enums"⟩
        [.closed ⟨Utf8.ofString "enum name='A' value='1' group='G,'"⟩]
        (Utf8.ofString "enums")] (Utf8.ofString "r")]
  let r : Registry :=
    { groups := ⟨[("", .empty), ("G", ⟨["A"], by decide⟩)], by decide⟩
      enums := [⟨"A", "1", .plain⟩] }
  obtain ⟨hwhole, hevents⟩ : (Markup.transcribe input).fault = none ∧
      (Markup.transcribe input).events.map Prod.snd = eventsOf document := by decide +kernel
  have hread : readTrees document = .ok r := by decide +kernel
  have hentry : .entry "A" ["G", ""] ∈ remarks document := by decide +kernel
  have hregistry := ofDocument_of_readTrees hwhole hevents hread
  have hmember := (h input r document hregistry hevents "" "A").mpr
    ⟨_, hentry, .inr (by decide)⟩
  -- the group has been dropped, since it was left without members
  rw [Registry.groupLists_normalize] at hmember
  obtain ⟨members, hmem, -⟩ := hmember
  have hdropped : "" ∉ ((r.groupLists.map fun (group, members) =>
      (group, members.filter fun member => member ∈ r.valueNames)).filter
        fun (_, members) => members ≠ []).map Prod.fst := by decide
  exact hdropped (List.mem_map_of_mem (f := Prod.fst) hmem)

end LazyGL.Binding.Constant
