import LazyGL.Proofs.Reading.Agreement

/-!
The recursive reading of each section agrees with a walk through it. A draft
stands for what has been read, and while an element is open that passes
something on, the draft keeps just that for the elements inside. Main
statement: the event loop accepts the events of a document if and only if the
recursive reading accepts its trees, with the same registry, and otherwise both
meet the same fault.
-/

namespace LazyGL.Reading

open Std (HashSet)

/-- A draft has the registry that has been read, and its sets of names are the
names in there. -/
structure Records (d : Draft) (g : Digest) : Prop where
  registry : d.registry = g.registry
  enumNames : ∀ name, name ∈ d.enumNames ↔ name ∈ g.registry.valueNames
  commandNames : ∀ name, name ∈ d.commandNames ↔ name ∈ g.registry.commands.map Command.name
  declaredGroups : ∀ name, name ∈ d.declaredGroups ↔ name ∈ g.declared

/-- Only the registry and the sets of names count, and nothing that a draft
keeps while an element is open. -/
theorem Records.transfer {d d' : Draft} {g : Digest} (h : Records d g)
    (hregistry : d'.registry = d.registry) (henums : d'.enumNames = d.enumNames)
    (hcommands : d'.commandNames = d.commandNames)
    (hgroups : d'.declaredGroups = d.declaredGroups) : Records d' g where
  registry := hregistry.trans h.registry
  enumNames := by rw [henums]; exact h.enumNames
  commandNames := by rw [hcommands]; exact h.commandNames
  declaredGroups := by rw [hgroups]; exact h.declaredGroups

theorem records_empty : Records { } { } where
  registry := rfl
  enumNames _ := by simp [Registry.valueNames]
  commandNames _ := by simp
  declaredGroups _ := by simp

/-! ### Groups -/

def InGroup (name : String) (d : Draft) (g : Digest) : Prop :=
  Records d g ∧ d.group = some name

theorem agree_member {name : String} (d : Draft) (g : Digest) (tag : Markup.Tag)
    (children : List Node) (h : InGroup name d g) :
    Agree (InGroup name) (d.walkElement .groupMember tag children)
      (readMember name g tag children) := by
  obtain ⟨hrec, hgroup⟩ := h
  rw [inert_groupMember.walkElement, readMember]
  simp only [Draft.enter, Draft.enterMember, bind_assoc, hgroup]
  refine Agree.bind_same fun member => Agree.bind_same fun _ => .ok ⟨?_, rfl⟩
  exact ⟨congrArg (·.addMember name member) hrec.registry, hrec.enumNames, hrec.commandNames,
    hrec.declaredGroups⟩

theorem agree_group (d : Draft) (g : Digest) (tag : Markup.Tag) (children : List Node)
    (h : Records d g) :
    Agree Records (d.walkElement .group tag children) (readGroup g tag children) := by
  simp only [Draft.walkElement, Draft.enter, Draft.enterGroup, readGroup, bind_assoc]
  refine Agree.bind_same fun name => ?_
  rw [apply_ite (· >>= _)]
  refine Agree.ifNew (h.declaredGroups name) fun _ => ?_
  have hopen : InGroup name
      { d with
        declaredGroups := d.declaredGroups.insert name
        registry := d.registry.addGroup name
        group := some name }
      ⟨g.registry.addGroup name, name :: g.declared⟩ := by
    refine ⟨⟨congrArg (·.addGroup name) h.registry, h.enumNames, h.commandNames, ?_⟩, rfl⟩
    intro other
    rw [HashSet.mem_insert, h.declaredGroups, List.mem_cons, beq_iff_eq, eq_comm]
  refine (agree_only rfl (fun _ _ => rfl) agree_member hopen children).bind_left ?_
  rintro d g ⟨h, -⟩
  exact .ok (h.transfer rfl rfl rfl rfl)

theorem agree_groups (d : Draft) (g : Digest) (tag : Markup.Tag) (children : List Node)
    (h : Records d g) :
    Agree Records (d.walkElement .groups tag children)
      (inside unheard (only "group" readGroup) g children) :=
  (agree_only rfl (fun _ _ => rfl) agree_group h children).bind_left
    fun _ _ h => .ok h

/-! ### Blocks of values -/

def InBlock (kind : ValueKind) (d : Draft) (g : Digest) : Prop :=
  Records d g ∧ d.blockKind = some kind

/-- A name that becomes a member of some groups is nothing else by that. -/
theorem foldl_addMember (name : String) (groups : List String) (r : Registry) :
    (groups.foldl (fun r group => r.addMember group name) r).valueNames = r.valueNames ∧
      (groups.foldl (fun r group => r.addMember group name) r).commands = r.commands := by
  induction groups generalizing r with
  | nil => exact ⟨rfl, rfl⟩
  | cons group groups ih => exact ih (r.addMember group name)

theorem mem_valueNames_addEnumerant (r : Registry) (e : Enumerant) (name : String) :
    name ∈ (r.addEnumerant e).valueNames ↔ name = e.name ∨ name ∈ r.valueNames := by
  simp only [Registry.addEnumerant, Registry.valueNames]
  cases e.kind with
  | plain => simp [or_left_comm]
  | bitmask => simp [or_comm, or_left_comm]

theorem commands_addEnumerant (r : Registry) (e : Enumerant) :
    (r.addEnumerant e).commands = r.commands := by
  unfold Registry.addEnumerant
  cases e.kind <;> rfl

theorem agree_entry {kind : ValueKind} (d : Draft) (g : Digest) (tag : Markup.Tag)
    (children : List Node) (h : InBlock kind d g) :
    Agree (InBlock kind) (d.walkElement .enumEntry tag children)
      (readEntry kind g tag children) := by
  obtain ⟨hrec, hkind⟩ := h
  rw [inert_enumEntry.walkElement]
  simp only [Draft.enter, Draft.enterEntry, readEntry, bind_assoc, hkind]
  refine Agree.bind_same fun name => Agree.bind_same fun value => ?_
  by_cases hvalue : (Literal.value? value).isNone
  · rw [if_pos hvalue, if_pos hvalue]
    exact .error _
  rw [if_neg hvalue, if_neg hvalue, bind_assoc]
  refine Agree.bind_same fun api => ?_
  rw [apply_ite (· >>= _), bind_assoc]
  refine Agree.ifNew (hrec.enumNames _) fun _ => ?_
  refine Agree.bind_same fun groups => Agree.bind_same fun _ => .ok ⟨?_, rfl⟩
  rw [hrec.registry]
  obtain ⟨hvalues, hcommands⟩ := foldl_addMember (name ++ api.getD "")
    (listedGroups (groups.getD "")) g.registry
  refine ⟨rfl, fun other => ?_, fun other => ?_, hrec.declaredGroups⟩
  · rw [HashSet.mem_insert, mem_valueNames_addEnumerant, hvalues, hrec.enumNames, beq_iff_eq,
      eq_comm]
  · rw [commands_addEnumerant, hcommands]
    exact hrec.commandNames other

theorem agree_block (d : Draft) (g : Digest) (tag : Markup.Tag) (children : List Node)
    (h : Records d g) :
    Agree Records (d.walkElement .enumBlock tag children) (readBlock g tag children) := by
  simp only [Draft.walkElement, Draft.enter, readBlock, bind_assoc]
  refine Agree.bind_same fun kind => ?_
  have hopen : InBlock kind { d with blockKind := some kind } g :=
    ⟨h.transfer rfl rfl rfl rfl, rfl⟩
  refine (agree_only rfl (fun _ _ => rfl) agree_entry hopen children).bind_left ?_
  rintro d g ⟨h, -⟩
  exact .ok (h.transfer rfl rfl rfl rfl)

/-! ### Extensions and versions -/

def InExtension (extension : ExtensionTag) (d : Draft) (g : Digest) : Prop :=
  Records d g ∧ d.extension = some extension

theorem agree_extensionCommand {extension : ExtensionTag} (d : Draft) (g : Digest)
    (tag : Markup.Tag) (children : List Node) (h : InExtension extension d g) :
    Agree (InExtension extension) (d.walkElement .extensionCommand tag children)
      (readExtensionMention extension g tag children) := by
  obtain ⟨hrec, hextension⟩ := h
  rw [inert_extensionCommand.walkElement, readExtensionMention, readMention]
  simp only [Draft.enter, Draft.enterExtensionCommand, bind_assoc, hextension]
  refine Agree.bind_same fun name => Agree.bind_same fun _ => .ok ⟨?_, rfl⟩
  exact ⟨congrArg (·.addExtension name extension) hrec.registry, hrec.enumNames,
    hrec.commandNames, hrec.declaredGroups⟩

theorem agree_extensionRequire {extension : ExtensionTag} (d : Draft) (g : Digest)
    (tag : Markup.Tag) (children : List Node) (h : InExtension extension d g) :
    Agree (InExtension extension) (d.walkElement .extensionRequire tag children)
      (inside unheard (only "command" (readExtensionMention extension)) g children) :=
  (agree_only rfl (fun _ _ => rfl) agree_extensionCommand h
    children).bind_left fun _ _ h => .ok h

theorem agree_extension (d : Draft) (g : Digest) (tag : Markup.Tag) (children : List Node)
    (h : Records d g) :
    Agree Records (d.walkElement .extension tag children) (readExtension g tag children) := by
  simp only [Draft.walkElement, Draft.enter, Draft.enterExtension, readExtension, bind_assoc]
  refine Agree.bind_same fun name => ?_
  have hopen : InExtension (.ofName name) { d with extension := some (.ofName name) } g :=
    ⟨h.transfer rfl rfl rfl rfl, rfl⟩
  refine (agree_only rfl (fun _ _ => rfl) agree_extensionRequire hopen
    children).bind_left ?_
  rintro d g ⟨h, -⟩
  exact .ok (h.transfer rfl rfl rfl rfl)

theorem agree_extensions (d : Draft) (g : Digest) (tag : Markup.Tag) (children : List Node)
    (h : Records d g) :
    Agree Records (d.walkElement .extensions tag children)
      (inside unheard (only "extension" readExtension) g children) :=
  (agree_only rfl (fun _ _ => rfl) agree_extension h children).bind_left
    fun _ _ h => .ok h

def InFeature (family : ApiFamily) (version : Version) (d : Draft) (g : Digest) : Prop :=
  Records d g ∧ d.feature = some (family, version)

theorem agree_featureCommand {family : ApiFamily} {version : Version} {change : Change}
    (d : Draft) (g : Digest) (tag : Markup.Tag) (children : List Node)
    (h : InFeature family version d g) :
    Agree (InFeature family version) (d.walkElement (.featureCommand change) tag children)
      (readVersionMention ⟨change, family, version⟩ g tag children) := by
  obtain ⟨hrec, hfeature⟩ := h
  rw [(inert_featureCommand change).walkElement, readVersionMention, readMention]
  simp only [Draft.enter, Draft.enterFeatureCommand, bind_assoc, hfeature]
  refine Agree.bind_same fun name => Agree.bind_same fun _ => .ok ⟨?_, rfl⟩
  exact ⟨congrArg (·.addVersion name ⟨change, family, version⟩) hrec.registry, hrec.enumNames,
    hrec.commandNames, hrec.declaredGroups⟩

theorem agree_changes {family : ApiFamily} {version : Version} {change : Change}
    (d : Draft) (g : Digest) (tag : Markup.Tag) (children : List Node)
    (h : InFeature family version d g) :
    Agree (InFeature family version) (d.walkElement (.featureList change) tag children)
      (readChanges family version change g tag children) :=
  (agree_only rfl (fun _ _ => rfl) agree_featureCommand h
    children).bind_left fun _ _ h => .ok h

theorem agree_feature (d : Draft) (g : Digest) (tag : Markup.Tag) (children : List Node)
    (h : Records d g) :
    Agree Records (d.walkElement .feature tag children) (readFeature g tag children) := by
  simp only [Draft.walkElement, Draft.enter, Draft.enterFeature, readFeature, bind_assoc]
  refine Agree.bind_same fun api => ?_
  cases ApiFamily.ofName? api with
  | none => exact .error _
  | some family =>
      dsimp only
      rw [bind_assoc]
      refine Agree.bind_same fun number => ?_
      cases Version.ofString number with
      | error fault => exact .error _
      | ok version =>
          have hopen : InFeature family version
              { d with feature := some (family, version) } g :=
            ⟨h.transfer rfl rfl rfl rfl, rfl⟩
          refine (agree_inside .feature (fun _ _ _ h => .ok h) ?_ hopen children).bind_left ?_
          · intro d g tag children h
            split
            · next hname => rw [hname]; exact agree_changes d g tag children h
            · next hname => rw [hname]; exact agree_changes d g tag children h
            · next hrequire hremove =>
                have hother : tag.localName ∉ Scope.feature.named := by
                  simpa [Scope.named] using ⟨hrequire, hremove⟩
                rw [Scope.feature.child_of_not_named (by decide) hother]
                exact agree_ignored h tag children
          · rintro d g ⟨h, -⟩
            exact .ok (h.transfer rfl rfl rfl rfl)

/-! ### Commands -/

def InCommand (g : Digest) (d : Draft) (c : Command) : Prop :=
  Records d g ∧ d.command = some c

theorem InCommand.put {g : Digest} {d : Draft} {c : Command} (h : InCommand g d c)
    (c' : Command) : InCommand g { d with command := some c' } c' :=
  ⟨h.1.transfer rfl rfl rfl rfl, rfl⟩

theorem agree_protoType {g : Digest} (d : Draft) (c : Command) (tag : Markup.Tag)
    (children : List Node) (h : InCommand g d c) :
    Agree (InCommand g) (d.walkElement .protoType tag children)
      (directText children >>= fun text =>
        .ok { c with returnType := c.returnType ++ text }) := by
  let put text := { d with command := some { c with returnType := c.returnType ++ text } }
  have hput : put "" = d := by simp only [put, String.append_empty, ← h.2]
  refine agree_text .protoType hput (fun _ => rfl) (fun _ _ => rfl) ?_ ?_ tag children
  · intro a text
    simp only [put, Draft.say, Draft.changeCommand, String.append_assoc]
  · intro text
    exact .ok (h.put _)

theorem agree_protoName {g : Digest} (d : Draft) (c : Command) (tag : Markup.Tag)
    (children : List Node) (h : InCommand g d c) :
    Agree (InCommand g) (d.walkElement .protoName tag children)
      (directText children >>= fun text => .ok { c with name := c.name ++ text }) := by
  let put text := { d with command := some { c with name := c.name ++ text } }
  have hput : put "" = d := by simp only [put, String.append_empty, ← h.2]
  refine agree_text .protoName hput (fun _ => rfl) (fun _ _ => rfl) ?_ ?_ tag children
  · intro a text
    simp only [put, Draft.say, Draft.changeCommand, String.append_assoc]
  · intro text
    exact .ok (h.put _)

theorem agree_proto {g : Digest} (d : Draft) (c : Command) (tag : Markup.Tag)
    (children : List Node) (h : InCommand g d c) :
    Agree (InCommand g) (d.walkElement .proto tag children) (readProto c children) := by
  refine (agree_inside .proto ?_ ?_ h children).bind_left fun _ _ h => .ok h
  · intro d c text h
    simp only [Draft.say, Draft.changeCommand, h.2]
    exact .ok (h.put _)
  · intro d c tag children h
    split
    · next hname => rw [hname]; exact agree_protoType d c tag children h
    · next hname => rw [hname]; exact agree_protoName d c tag children h
    · next hptype hname =>
        have hother : tag.localName ∉ Scope.proto.named := by
          simpa [Scope.named] using ⟨hptype, hname⟩
        rw [Scope.proto.child_of_not_named (by decide) hother]
        exact agree_ignored h tag children

def InParam (g : Digest) (c : Command) (d : Draft) (p : Param) : Prop :=
  InCommand g d c ∧ d.param = some p

theorem InParam.put {g : Digest} {c : Command} {d : Draft} {p : Param} (h : InParam g c d p)
    (p' : Param) : InParam g c { d with param := some p' } p' :=
  ⟨⟨h.1.1.transfer rfl rfl rfl rfl, h.1.2⟩, rfl⟩

theorem agree_paramType {g : Digest} {c : Command} (d : Draft) (p : Param) (tag : Markup.Tag)
    (children : List Node) (h : InParam g c d p) :
    Agree (InParam g c) (d.walkElement .paramType tag children)
      (directText children >>= fun text =>
        .ok { p with base := p.base ++ text, shape := p.shape ++ "!" }) := by
  let put text := { d with param := some { p with base := p.base ++ text } }
  have hput : put "" = d := by simp only [put, String.append_empty, ← h.2]
  refine agree_text .paramType hput (fun _ => rfl) (fun _ _ => rfl) ?_ ?_ tag children
  · intro a text
    simp only [put, Draft.say, Draft.changeParam, String.append_assoc]
  · intro text
    exact .ok (h.put _)

theorem agree_paramName {g : Digest} {c : Command} (d : Draft) (p : Param) (tag : Markup.Tag)
    (children : List Node) (h : InParam g c d p) :
    Agree (InParam g c) (d.walkElement .paramName tag children)
      (directText children >>= fun text =>
        .ok { p with name := p.name ++ text, shape := p.shape ++ "?" }) := by
  let put text := { d with param := some { p with name := p.name ++ text } }
  have hput : put "" = d := by simp only [put, String.append_empty, ← h.2]
  refine agree_text .paramName hput (fun _ => rfl) (fun _ _ => rfl) ?_ ?_ tag children
  · intro a text
    simp only [put, Draft.say, Draft.changeParam, String.append_assoc]
  · intro text
    exact .ok (h.put _)

/-- At its end a parameter goes to the command around it. -/
theorem agree_leaveParam {g : Digest} {c : Command} (d : Draft) (p : Param)
    (h : InParam g c d p) :
    Agree (InCommand g) (d.leave .param)
      ((if p.name.isEmpty then .error .namelessParam
        else if p.base.isEmpty then return { p with base := "void" }
        else return p) >>= fun param => .ok { c with params := c.params ++ [param] }) := by
  obtain ⟨hcommand, hparam⟩ := h
  simp only [Draft.leave, Draft.leaveParam, hparam]
  have hclose (p : Param) : Agree (InCommand g)
      ({ d with param := none }.changeCommand fun c => { c with params := c.params ++ [p] })
      (.ok { c with params := c.params ++ [p] }) := by
    simp only [Draft.changeCommand, hcommand.2]
    exact .ok ⟨hcommand.1.transfer rfl rfl rfl rfl, rfl⟩
  by_cases hname : p.name.isEmpty
  · rw [if_pos hname, if_pos hname]
    exact .error _
  rw [if_neg hname, if_neg hname]
  by_cases hbase : p.base.isEmpty
  · simp only [if_pos hbase]
    exact hclose { p with base := "void" }
  · simp only [if_neg hbase]
    exact hclose p

theorem agree_param {g : Digest} (d : Draft) (c : Command) (tag : Markup.Tag)
    (children : List Node) (h : InCommand g d c) :
    Agree (InCommand g) (d.walkElement .param tag children)
      (readParam tag children >>= fun param => .ok { c with params := c.params ++ [param] }) := by
  simp only [Draft.walkElement, Draft.enter, Draft.enterParam, readParam, bind_assoc]
  refine Agree.bind_same fun group => Agree.bind_same fun length => ?_
  have hopen : InParam g c { d with param := some { group := group, length := length } }
      { group := group, length := length } :=
    ⟨⟨h.1.transfer rfl rfl rfl rfl, h.2⟩, rfl⟩
  refine (agree_inside .param ?_ ?_ hopen children).bind agree_leaveParam
  · intro d p text h
    simp only [Draft.say, Draft.changeParam, h.2]
    exact .ok (h.put _)
  · intro d p tag children h
    split
    · next hname => rw [hname]; exact agree_paramType d p tag children h
    · next hname => rw [hname]; exact agree_paramName d p tag children h
    · next hptype hname =>
        have hother : tag.localName ∉ Scope.param.named := by
          simpa [Scope.named] using ⟨hptype, hname⟩
        rw [Scope.param.child_of_not_named (by decide) hother]
        exact agree_ignored h tag children

theorem agree_declaration {g : Digest} {d : Draft} (h : Records d g) (children : List Node) :
    Agree (InCommand g) (walkAll .command { d with command := some ⟨"", "", []⟩ } children)
      (readDeclaration children) := by
  have hopen : InCommand g { d with command := some ⟨"", "", []⟩ } ⟨"", "", []⟩ :=
    ⟨h.transfer rfl rfl rfl rfl, rfl⟩
  refine agree_inside .command (fun _ _ _ h => .ok h) ?_ hopen children
  intro d c tag children h
  split
  · next hname => rw [hname]; exact agree_proto d c tag children h
  · next hname => rw [hname]; exact agree_param d c tag children h
  · next hproto hparam =>
      have hother : tag.localName ∉ Scope.command.named := by
        simpa [Scope.named] using ⟨hproto, hparam⟩
      rw [Scope.command.child_of_not_named (by decide) hother]
      exact agree_ignored h tag children

theorem agree_command (d : Draft) (g : Digest) (tag : Markup.Tag) (children : List Node)
    (h : Records d g) :
    Agree Records (d.walkElement .command tag children) (readCommand g tag children) := by
  refine (agree_declaration h children).bind ?_
  rintro d c ⟨hrec, hcommand⟩
  simp only [Draft.leave, Draft.leaveCommand, hcommand]
  refine Agree.ite (fun _ => .error _) fun _ => ?_
  refine Agree.ifNew (hrec.commandNames c.name) fun _ => .ok ?_
  have hregistry := congrArg (·.addCommand
    { c with returnType := Blank.collapse c.returnType }) hrec.registry
  refine ⟨hregistry, hrec.enumNames, fun other => ?_, hrec.declaredGroups⟩
  rw [HashSet.mem_insert, hrec.commandNames, beq_iff_eq]
  simp [Registry.addCommand, or_comm, eq_comm]

theorem agree_commands (d : Draft) (g : Digest) (tag : Markup.Tag) (children : List Node)
    (h : Records d g) :
    Agree Records (d.walkElement .commands tag children)
      (inside unheard (only "command" readCommand) g children) :=
  (agree_only rfl (fun _ _ => rfl) agree_command h children).bind_left
    fun _ _ h => .ok h

/-! ### Whole documents -/

theorem agree_root (d : Draft) (g : Digest) (tag : Markup.Tag) (children : List Node)
    (h : Records d g) :
    Agree Records (d.walkElement .root tag children) (readRoot g tag children) := by
  refine (agree_inside .root (fun _ _ _ h => .ok h) ?_ h children).bind_left fun _ _ h => .ok h
  intro d g tag children h
  split
  · next hname => rw [hname]; exact agree_groups d g tag children h
  · next hname => rw [hname]; exact agree_block d g tag children h
  · next hname => rw [hname]; exact agree_extensions d g tag children h
  · next hname => rw [hname]; exact agree_feature d g tag children h
  · next hname => rw [hname]; exact agree_commands d g tag children h
  · next hgroups henums hextensions hfeature hcommands =>
      have hother : tag.localName ∉ Scope.root.named := by
        simpa [Scope.named] using ⟨hgroups, henums, hextensions, hfeature, hcommands⟩
      rw [Scope.root.child_of_not_named (by decide) hother]
      exact agree_ignored h tag children

theorem agree_document (document : List Node) :
    Agree Records (walkAll .document { } document) (inside unheard readRoot { } document) :=
  agree_inside .document (fun _ _ _ h => .ok h) agree_root records_empty document

/-- The event loop comes to the end of a document whose trees can be read. -/
theorem State.run_of_readTrees {events : List (Nat × Markup.Event)} {document : List Node}
    {r : Registry} (hevents : events.map Prod.snd = eventsOf document)
    (hread : readTrees document = .ok r) :
    ∃ d, State.run { } events = .ok ⟨d, [.document]⟩ ∧ d.registry = r := by
  have hsteps := State.steps_eventsOf { } document
  rw [← hevents] at hsteps
  change State.steps { } _ = State.withDraft { } <$> walkAll .document { } document at hsteps
  have hagree := agree_document document
  unfold readTrees at hread
  generalize walkAll .document { } document = walked at hsteps hagree
  generalize inside unheard readRoot { } document = read at hagree hread
  cases hagree with
  | error fault => cases hread
  | @ok d g h =>
      rw [show r = g.registry from (Except.ok.inj hread).symm]
      exact ⟨d, State.run_of_steps_ok hsteps, h.registry⟩

theorem ofDocument_of_readTrees {input : Bytes} {document : List Node} {r : Registry}
    (hwhole : (Markup.transcribe input).fault = none)
    (hevents : (Markup.transcribe input).events.map Prod.snd = eventsOf document)
    (hread : readTrees document = .ok r) : Registry.ofDocument input = .ok r := by
  obtain ⟨d, hrun, hregistry⟩ := State.run_of_readTrees hevents hread
  rw [Registry.ofDocument, readTranscript, hrun, hwhole, ← hregistry]
  rfl

/-- The event loop accepts the events of a document if and only if the recursive
reading accepts its trees, and then both give the same registry; otherwise both
meet the same fault, which the loop reports with one of the events. -/
theorem readTranscript_eq_readTrees (transcript : Markup.Transcript) (document : List Node)
    (hwhole : transcript.fault = none)
    (hevents : transcript.events.map Prod.snd = eventsOf document) :
    (∀ r, readTranscript transcript = .ok r ↔ readTrees document = .ok r) ∧
      ∀ fault, readTrees document = .error fault ↔
        ∃ position event, (position, event) ∈ transcript.events ∧
          readTranscript transcript = .error (.event position event fault) := by
  have hsteps := State.steps_eventsOf { } document
  rw [← hevents] at hsteps
  have hagree := agree_document document
  change State.steps { } _ = State.withDraft { } <$> walkAll .document { } document at hsteps
  unfold readTranscript readTrees
  generalize walkAll .document { } document = walked at hsteps hagree
  generalize inside unheard readRoot { } document = read at hagree
  cases hagree with
  | @ok d g h =>
      rw [State.run_of_steps_ok hsteps, hwhole]
      refine ⟨fun r => ?_, fun fault => ⟨nofun, ?_⟩⟩
      · change Except.ok d.registry = .ok r ↔ (Except.ok g.registry : Except Fault _) = .ok r
        rw [h.registry, Except.ok.injEq, Except.ok.injEq]
      · rintro ⟨position, event, -, hfault⟩
        cases hfault
  | error fault =>
      obtain ⟨position, event, hmem, hrun⟩ := State.run_of_steps_error hsteps
      rw [hrun]
      refine ⟨fun r => ⟨nofun, nofun⟩, fun other => ⟨fun h => ?_, ?_⟩⟩
      · obtain rfl : fault = other := Except.error.inj h
        exact ⟨position, event, hmem, rfl⟩
      · rintro ⟨position', event', -, hfault⟩
        cases hfault
        rfl

theorem readTranscript_entry :
    let transcript := Markup.transcribe (Utf8.ofString
      "<r><enums><enum name='B' value='1' group='G'/></enums></r >")
    let document : List Node :=
      [.element ⟨Utf8.ofString "r"⟩
        [.element ⟨Utf8.ofString "enums"⟩
          [.closed ⟨Utf8.ofString "enum name='B' value='1' group='G'"⟩]
          (Utf8.ofString "enums")]
        (Utf8.ofString "r ")]
    transcript.fault = none ∧ transcript.events.map Prod.snd = eventsOf document ∧
      readTranscript transcript = .ok
        { groups := ⟨[("G", ⟨["B"], by decide⟩)], by decide⟩
          enums := [⟨"B", "1", .plain⟩] } := by
  intro transcript document
  have hwhole : transcript.fault = none := by decide +kernel
  have hevents : transcript.events.map Prod.snd = eventsOf document := by decide +kernel
  have hread := (readTranscript_eq_readTrees transcript document hwhole hevents).1
  exact ⟨hwhole, hevents, (hread _).mpr rfl⟩

end LazyGL.Reading
