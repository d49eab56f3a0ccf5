import LazyGL.Proofs.Reading.Action
import LazyGL.Proofs.Reading.Descent
import LazyGL.Proofs.Registry.WellFormed

/-!
What a reading keeps. After every event the registry so far is well formed, and
the names that a draft remembers are the names in it. The marks in the shape of
a parameter rest on the nesting: a name is said only inside an element that
leaves its mark when it ends, and when a parameter ends no such element is open.
-/

namespace LazyGL.Reading

open Std (HashSet)

/-- A parameter whose element is open inside the given scopes. A text that has
no mark yet is that of an open element. -/
structure Marked (scopes : List Scope) (p : Param) : Prop where
  shape : ∀ c ∈ p.shape.toList, Blank.isBlank c = false
  name : p.name ≠ "" → '?' ∈ p.shape.toList ∨ .paramName ∈ scopes
  base : p.base ≠ "" → '!' ∈ p.shape.toList ∨ .paramType ∈ scopes

/-- The registry of a draft is well formed, its sets of names are the names in
there, and the parameters of the open command are complete. -/
structure Draft.Sound (d : Draft) : Prop where
  registry : d.registry.WellFormed
  enumNames : ∀ name, name ∈ d.enumNames ↔ name ∈ d.registry.valueNames
  commandNames : ∀ name, name ∈ d.commandNames ↔ name ∈ d.registry.commands.map Command.name
  params : ∀ c ∈ d.command, ∀ p ∈ c.params, p.WellFormed

structure State.Sound (s : State) : Prop where
  nested : Nested s.scopes
  draft : s.draft.Sound
  param : ∀ p ∈ s.draft.param, Marked s.scopes p

theorem State.sound_empty : State.Sound { } where
  nested := .document
  draft :=
    { registry := Registry.wellFormed_empty
      enumNames := records_empty.enumNames
      commandNames := records_empty.commandNames
      params := by simp }
  param := by simp

namespace Draft

variable {d d' : Draft} {scope : Scope}

theorem wellFormed_foldl_addMember {r : Registry} (h : r.WellFormed) (name : String)
    (groups : List String) :
    (groups.foldl (fun r group => r.addMember group name) r).WellFormed := by
  induction groups generalizing r with
  | nil => exact h
  | cons group groups ih => exact ih (h.withGroups _)

theorem Sound.entered (h : d.Sound) (hentered : d.Entered scope d') : d'.Sound := by
  cases hentered with
  | group => exact { h with registry := h.registry.withGroups _ }
  | member => exact { h with registry := h.registry.withGroups _ }
  | block => exact { h with }
  | @entry kind _ stored value hnew hvalue listed =>
      -- the groups come first, and they change no names
      have hgroups := wellFormed_foldl_addMember h.registry stored listed
      obtain ⟨hvalues, hcommands⟩ := foldl_addMember stored listed d.registry
      rw [h.enumNames, ← hvalues] at hnew
      refine ⟨hgroups.addEnumerant hnew hvalue, ?_, ?_, h.params⟩
      · intro other
        rw [mem_valueNames_addEnumerant, hvalues, HashSet.mem_insert, h.enumNames, beq_iff_eq,
          eq_comm]
      · rw [commands_addEnumerant, hcommands]
        exact h.commandNames
  | extension => exact { h with }
  | extensionCommand => exact { h with registry := h.registry.addExtension _ _ }
  | feature => exact { h with }
  | featureCommand => exact { h with registry := h.registry.addVersion _ _ }
  | command => exact { h with params := by simp }
  | param => exact { h with }
  | other => exact h

theorem Sound.said (h : d.Sound) {text : String} (hsaid : d.Said text scope d') : d'.Sound := by
  cases hsaid with
  | @command _ c c' hc hparams =>
      refine { h with params := ?_ }
      rintro _ ⟨⟩
      rw [hparams]
      exact h.params c hc
  | paramShape => exact { h with }
  | paramType => exact { h with }
  | paramName => exact { h with }
  | other => exact h

/-- A parameter all of whose texts have left their marks is complete once it has
a name and a type. -/
theorem wellFormed_of_marked {scopes : List Scope} {p : Param} (h : Marked scopes p)
    (hname : .paramName ∉ scopes) (htype : .paramType ∉ scopes) (hne : p.name ≠ "") :
    (if p.base.isEmpty then { p with base := "void" } else p).WellFormed := by
  have hmark : '?' ∈ p.shape.toList := (h.name hne).resolve_right hname
  split
  · exact ⟨hne, by simp, h.shape, hmark, fun hvoid => absurd rfl hvoid⟩
  · next hbase =>
      have hbase : p.base ≠ "" := by simpa using hbase
      exact ⟨hne, hbase, h.shape, hmark, fun _ => (h.base hbase).resolve_right htype⟩

theorem Sound.left (h : d.Sound) {scopes : List Scope} (hparam : ∀ p ∈ d.param, Marked scopes p)
    (hscope : scope = .param → .paramName ∉ scopes ∧ .paramType ∉ scopes)
    (hleft : d.Left scope d') : d'.Sound := by
  cases hleft with
  | group => exact { h with }
  | block => exact { h with }
  | extension => exact { h with }
  | feature => exact { h with }
  | paramType => exact { h with }
  | paramName => exact { h with }
  | @param p c hp hc hne =>
      obtain ⟨hname, htype⟩ := hscope rfl
      refine { h with params := ?_ }
      rintro _ ⟨⟩
      rw [List.forall_mem_append, List.forall_mem_singleton]
      exact ⟨h.params c hc, wellFormed_of_marked (hparam p hp) hname htype hne⟩
  | @command c hc hne hnew =>
      rw [h.commandNames] at hnew
      have hcommand : Command.WellFormed { c with returnType := Blank.collapse c.returnType } :=
        ⟨hne, Blank.singleSpaced_collapse c.returnType, h.params c hc⟩
      refine ⟨h.registry.addCommand hnew hcommand, h.enumNames, ?_, by simp⟩
      intro other
      rw [HashSet.mem_insert, h.commandNames, beq_iff_eq]
      simp [Registry.addCommand, or_comm, eq_comm]
  | other => exact h

theorem param_entered (h : d.Entered scope d') :
    d'.param = d.param ∨ ∃ group length, d'.param = some { group := group, length := length } := by
  cases h with
  | param group length => exact .inr ⟨group, length, rfl⟩
  | _ => exact .inl rfl

end Draft

/-! ### The open parameter -/

section OpenParam

variable {d d' : Draft} {scope : Scope} {scopes : List Scope} {p : Param}

theorem Marked.mono {scopes' : List Scope} (h : Marked scopes p)
    (hscopes : ∀ scope ∈ [Scope.paramName, .paramType], scope ∈ scopes → scope ∈ scopes') :
    Marked scopes' p where
  shape := h.shape
  name hne := (h.name hne).imp_right (hscopes .paramName (by decide))
  base hne := (h.base hne).imp_right (hscopes .paramType (by decide))

/-- A longer shape with no blanks in what is new has the marks that it had. -/
theorem Marked.append (h : Marked scopes p) {more : String}
    (hmore : ∀ c ∈ more.toList, Blank.isBlank c = false) :
    Marked scopes { p with shape := p.shape ++ more } where
  shape := by
    rw [String.toList_append, List.forall_mem_append]
    exact ⟨h.shape, hmore⟩
  name hne := (h.name hne).imp_left fun hmark => by simp [hmark]
  base hne := (h.base hne).imp_left fun hmark => by simp [hmark]

theorem marked_entered (h : ∀ p ∈ d.param, Marked scopes p) (hentered : d.Entered scope d') :
    ∀ p ∈ d'.param, Marked (scope :: scopes) p := by
  intro p hp
  rcases Draft.param_entered hentered with hparam | ⟨group, length, hparam⟩
  · rw [hparam] at hp
    exact (h p hp).mono fun _ _ => List.mem_cons_of_mem _
  · rw [hparam] at hp
    cases hp
    exact ⟨by simp, by simp, by simp⟩

theorem marked_said (h : ∀ p ∈ d.param, Marked (scope :: scopes) p) {text : String}
    (hsaid : d.Said text scope d') : ∀ p ∈ d'.param, Marked (scope :: scopes) p := by
  cases hsaid with
  | command => exact h
  | paramShape hp =>
      rintro _ ⟨⟩
      exact (h _ hp).append fun _ => Blank.isBlank_strip
  | paramType hp =>
      rintro _ ⟨⟩
      exact { h _ hp with base := fun _ => .inr List.mem_cons_self }
  | paramName hp =>
      rintro _ ⟨⟩
      exact { h _ hp with name := fun _ => .inr List.mem_cons_self }
  | other => exact h

/-- Where neither a name nor a type ends, no mark is due. -/
theorem Marked.leave_other (h : Marked (scope :: scopes) p) (hname : scope ≠ .paramName)
    (htype : scope ≠ .paramType) : Marked scopes p := by
  refine h.mono fun other hother hmem => (List.mem_cons.mp hmem).resolve_left ?_
  rintro rfl
  simp [hname, htype] at hother

theorem Marked.leave_type (h : Marked (.paramType :: scopes) p) :
    Marked scopes { p with shape := p.shape.push '!' } := by
  refine ⟨?_, ?_, fun _ => .inl (by simp)⟩
  · simpa [String.toList_push, or_imp, forall_and] using ⟨h.shape, by decide⟩
  · intro hne
    simpa [String.toList_push] using h.name hne

theorem Marked.leave_name (h : Marked (.paramName :: scopes) p) :
    Marked scopes { p with shape := p.shape.push '?' } := by
  refine ⟨?_, fun _ => .inl (by simp), ?_⟩
  · simpa [String.toList_push, or_imp, forall_and] using ⟨h.shape, by decide⟩
  · intro hne
    simpa [String.toList_push] using h.base hne

theorem marked_left (h : ∀ p ∈ d.param, Marked (scope :: scopes) p)
    (hleft : d.Left scope d') : ∀ p ∈ d'.param, Marked scopes p := by
  cases hleft with
  | paramType hp =>
      rintro _ ⟨⟩
      exact (h _ hp).leave_type
  | paramName hp =>
      rintro _ ⟨⟩
      exact (h _ hp).leave_name
  | param => simp
  | other _ htype hname => exact fun p hp => (h p hp).leave_other hname htype
  | _ => exact fun p hp => (h p hp).leave_other (by decide) (by decide)

end OpenParam

/-! ### Runs -/

theorem State.Sound.move {s next : State} (h : s.Sound) (hmove : State.Move s next) :
    next.Sound := by
  have hnested := h.nested.move hmove
  have htop := h.nested.eq_cons
  cases hmove with
  | enter tag henter =>
      have hentered := Draft.entered_enter henter
      exact ⟨hnested, h.draft.entered hentered, marked_entered h.param hentered⟩
  | say text hsay =>
      have hsaid := Draft.said_say hsay
      refine ⟨hnested, h.draft.said hsaid, ?_⟩
      have hparam := h.param
      rw [htop] at hparam ⊢
      exact marked_said hparam hsaid
  | leave hdocument hleave =>
      have hparam := h.param
      rw [htop] at hparam
      have hleft := Draft.left_leave hleave
      refine ⟨hnested, h.draft.left h.param ?_ hleft, marked_left hparam hleft⟩
      -- around the end of a parameter are its command and what that is inside
      intro hscope
      have hpath := h.nested
      rw [htop, hscope] at hpath
      rw [htop, hscope, hpath.eq_path (by decide)]
      decide

/-- Every registry that a document describes is well formed, and so is its
normal form. What has been read before the end of a document is well formed too,
and the names remembered by then are the names in it. -/
theorem wellFormed_of_reading :
    (∀ (events : List (Nat × Markup.Event)) (s : State), State.run { } events = .ok s →
      s.draft.registry.WellFormed ∧
        (∀ name, name ∈ s.draft.enumNames ↔ name ∈ s.draft.registry.valueNames) ∧
        ∀ name, name ∈ s.draft.commandNames ↔
          name ∈ s.draft.registry.commands.map Command.name) ∧
      ∀ input r, Registry.ofDocument input = .ok r → r.WellFormed ∧ r.normalize.WellFormed := by
  have hreading (events : List (Nat × Markup.Event)) (s : State)
      (hrun : State.run { } events = .ok s) : s.Sound :=
    State.run_invariant (fun _ _ hmove hs => hs.move hmove) hrun State.sound_empty
  refine ⟨fun events s hrun => ?_, fun input r hread => ?_⟩
  · have hsound := hreading events s hrun
    exact ⟨hsound.draft.registry, hsound.draft.enumNames, hsound.draft.commandNames⟩
  · obtain ⟨s, hrun, -, -, rfl⟩ := run_of_ofDocument hread
    have hregistry := (hreading _ s hrun).draft.registry
    exact ⟨hregistry, hregistry.normalize⟩

theorem wellFormed_of_reading_parameter :
    let input := Utf8.ofString ("<r><enums><enum name='B' value='1'/></enums><commands><command>"
      ++ "<proto>const  <ptype>T</ptype> * <name>f</name></proto>"
      ++ "<param>const <ptype>U</ptype> *<name>type</name></param></command></commands></r>")
    let r : Registry :=
      { enums := [⟨"B", "1", .plain⟩]
        commands := [⟨"f", "const T *", [{ name := "type", base := "U", shape := "const!*?" }]⟩] }
    Registry.ofDocument input = .ok r ∧ r.WellFormed ∧ r.normalize.WellFormed ∧
      ∃ s, State.run { } (Markup.transcribe input).events = .ok s ∧
        s.draft.registry.WellFormed ∧
        (∀ name, name ∈ s.draft.enumNames ↔ name ∈ s.draft.registry.valueNames) ∧
        ∀ name, name ∈ s.draft.commandNames ↔
          name ∈ s.draft.registry.commands.map Command.name := by
  intro input r
  let leaf name (text : String) : Node :=
    .element ⟨Utf8.ofString name⟩ [.text (Utf8.ofString text)] (Utf8.ofString name)
  let document : List Node :=
    [.element ⟨Utf8.ofString "r"⟩
      [.element ⟨Utf8.ofString "enums"⟩
        [.closed ⟨Utf8.ofString "enum name='B' value='1'"⟩] (Utf8.ofString "enums"),
      .element ⟨Utf8.ofString "commands"⟩
        [.element ⟨Utf8.ofString "command"⟩
          [.element ⟨Utf8.ofString "proto"⟩
            [.text (Utf8.ofString "const  "), leaf "ptype" "T", .text (Utf8.ofString " * "),
              leaf "name" "f"] (Utf8.ofString "proto"),
          .element ⟨Utf8.ofString "param"⟩
            [.text (Utf8.ofString "const "), leaf "ptype" "U", .text (Utf8.ofString " *"),
              leaf "name" "type"] (Utf8.ofString "param")] (Utf8.ofString "command")]
        (Utf8.ofString "commands")] (Utf8.ofString "r")]
  obtain ⟨hwhole, hevents⟩ : (Markup.transcribe input).fault = none ∧
      (Markup.transcribe input).events.map Prod.snd = eventsOf document := by decide +kernel
  have hread : readTrees document = .ok r := by decide +kernel
  have haccepted := ofDocument_of_readTrees hwhole hevents hread
  obtain ⟨d, hrun, -⟩ := State.run_of_readTrees hevents hread
  exact ⟨haccepted, (wellFormed_of_reading.2 input r haccepted).1,
    (wellFormed_of_reading.2 input r haccepted).2, _, hrun, wellFormed_of_reading.1 _ _ hrun⟩

end LazyGL.Reading
