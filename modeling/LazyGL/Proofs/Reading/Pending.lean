import LazyGL.Proofs.Reading.Forest
import LazyGL.Proofs.Reading.Invariant

/-!
What a draft keeps for the elements that are open. There are six scopes whose
elements pass something on to those inside them, and a draft keeps it as long as
such an element is open, no longer and no shorter: no scope is inside itself, so
the end of an element never takes away what another one has passed on. An
element that needs something is inside the one that passes it on, so it is never
missed. Main statement: a reading of a document meets no fault that tells of
something missing, whatever the bytes are.
-/

namespace LazyGL.Markup

/-! ### Open elements -/

def nestAll (opened : List Bytes) (events : List Event) : Except Fault (List Bytes) :=
  events.foldlM nest opened

theorem nestAll_cons (opened : List Bytes) (event : Event) (events : List Event) :
    nestAll opened (event :: events) = nest opened event >>= fun opened => nestAll opened events :=
  List.foldlM_cons

theorem nestAll_append (opened : List Bytes) (events more : List Event) :
    nestAll opened (events ++ more) = nestAll opened events >>= fun opened => nestAll opened more :=
  List.foldlM_append

/-- An end tag closes the innermost open element. -/
theorem exists_of_nest_stop {opened opened' : List Bytes} {content : Bytes}
    (h : nest opened (.stop content) = .ok opened') : ∃ name, opened = name :: opened' := by
  cases opened with
  | nil => cases h
  | cons name outer =>
      simp only [nest] at h
      split at h <;> cases h
      exact ⟨name, rfl⟩

/-- The end tags of a transcript close the innermost open elements. -/
theorem nestAll_transcribeFrom {position : Nat} {opened : List Bytes}
    {read : List (Nat × Event)} {input : Bytes}
    (hread : nestAll [] (read.reverse.map Prod.snd) = .ok opened) :
    ∃ opened', nestAll [] ((transcribeFrom position opened read input).events.map Prod.snd) =
      .ok opened' := by
  fun_induction transcribeFrom position opened read input with
  | case1 position opened read => exact ⟨opened, hread⟩
  | case2 position opened read b input fault hnext => exact ⟨opened, hread⟩
  | case3 position opened read b input event rest hnext fault hnest => exact ⟨opened, hread⟩
  | case4 position opened read b input event rest hnext opened' hnest ih =>
      refine ih ?_
      rw [List.reverse_cons, List.map_append, nestAll_append, hread]
      change nestAll opened [event] = .ok opened'
      rw [nestAll_cons, hnest]
      rfl

theorem exists_nestAll_transcribe (input : Bytes) :
    ∃ opened, nestAll [] ((transcribe input).events.map Prod.snd) = .ok opened :=
  nestAll_transcribeFrom rfl

end LazyGL.Markup

namespace LazyGL.Reading

/-! ### What is kept -/

theorem Scope.forall_providers {P : Scope → Prop} :
    (∀ scope ∈ providers, P scope) ↔
      P .group ∧ P .enumBlock ∧ P .extension ∧ P .feature ∧ P .command ∧ P .param := by
  simp [providers]

def Draft.keeps (d : Draft) : Scope → Bool
  | .group => d.group.isSome
  | .enumBlock => d.blockKind.isSome
  | .extension => d.extension.isSome
  | .feature => d.feature.isSome
  | .command => d.command.isSome
  | .param => d.param.isSome
  | _ => false

section Keeps

variable {d d' : Draft} {scope : Scope}

/-- The start of an element adds what it passes on. -/
theorem Draft.keeps_entered (h : d.Entered scope d') :
    ∀ other ∈ Scope.providers, d'.keeps other ↔ other = scope ∨ d.keeps other := by
  cases h with
  | other hscope =>
      intro other hother
      rw [or_iff_right]
      rintro rfl
      exact hscope hother
  | _ => simp [Scope.forall_providers, keeps]

theorem Draft.keeps_said {text : String} (h : d.Said text scope d') :
    ∀ other ∈ Scope.providers, d'.keeps other ↔ d.keeps other := by
  rw [Scope.forall_providers]
  cases h with
  | command hc => simp [keeps, hc]
  | paramShape hp => simp [keeps, hp]
  | paramType hp => simp [keeps, hp]
  | paramName hp => simp [keeps, hp]
  | other => simp

/-- The end of an element takes away what it has passed on. -/
theorem Draft.keeps_left (h : d.Left scope d') :
    ∀ other ∈ Scope.providers, d'.keeps other ↔ other ≠ scope ∧ d.keeps other := by
  cases h with
  | paramType hp => simp [Scope.forall_providers, keeps, hp]
  | paramName hp => simp [Scope.forall_providers, keeps, hp]
  | param hp hc => simp [Scope.forall_providers, keeps, hc]
  | other hscope =>
      intro other hother
      rw [and_iff_right]
      rintro rfl
      exact hscope hother
  | _ => simp [Scope.forall_providers, keeps]

end Keeps

/-- A draft keeps something for the scopes around a place, and for no others. -/
def Draft.Kept (d : Draft) (scopes : List Scope) : Prop :=
  ∀ scope ∈ Scope.providers, d.keeps scope ↔ scope ∈ scopes

/-- A scope that is not ignored is not inside another one of its kind. -/
theorem Nested.not_mem {scope : Scope} {rest : List Scope} (h : Nested (scope :: rest))
    (hscope : scope ≠ .ignored) : scope ∉ rest := by
  have hpath := h.eq_path hscope
  have hnodup : scope.path.Nodup := by
    cases scope <;> simp [Scope.path]
  rw [← hpath] at hnodup
  exact (List.nodup_cons.mp hnodup).1

theorem Draft.Kept.move {s next : State} (h : s.draft.Kept s.scopes) (hnested : Nested s.scopes)
    (hmove : State.Move s next) : next.draft.Kept next.scopes := by
  intro other hother
  have htop := hnested.eq_cons
  cases hmove with
  | enter tag henter =>
      rw [Draft.keeps_entered (entered_enter henter) other hother, h other hother, List.mem_cons]
  | say text hsay => rw [Draft.keeps_said (said_say hsay) other hother, h other hother]
  | leave hdocument hleave =>
      rw [Draft.keeps_left (left_leave hleave) other hother, h other hother]
      rw [htop] at hnested ⊢
      -- what ends is on the stack once
      have hignored : other ≠ .ignored := by
        rintro rfl
        exact absurd hother (by decide)
      constructor
      · rintro ⟨hne, hmem⟩
        exact (List.mem_cons.mp hmem).resolve_left hne
      · intro hmem
        refine ⟨?_, List.mem_cons_of_mem _ hmem⟩
        rintro rfl
        exact hnested.not_mem hignored hmem

theorem State.Move.kept {s next : State} (hmove : State.Move s next)
    (h : Nested s.scopes ∧ s.draft.Kept s.scopes) :
    Nested next.scopes ∧ next.draft.Kept next.scopes :=
  ⟨h.1.move hmove, h.2.move h.1 hmove⟩

section Needs

variable {d : Draft} {scope : Scope} {rest : List Scope}

/-- What is on the path to the innermost scope is kept. -/
theorem Draft.Kept.of_path (h : d.Kept (scope :: rest)) (hnested : Nested (scope :: rest))
    (other : Scope) (hother : other ∈ Scope.providers) (hpath : other ∈ scope.path) :
    d.keeps other := by
  have hscope : scope ≠ .ignored := by
    rintro rfl
    cases hpath
  rwa [h other hother, hnested.eq_path hscope]

/-- What is on the path to a scope is kept before an element of the scope begins. -/
theorem Draft.Kept.of_path_tail (h : d.Kept rest) (hnested : Nested (scope :: rest))
    (other : Scope) (hother : other ∈ Scope.providers) (hpath : other ∈ scope.path.tail) :
    d.keeps other := by
  have hscope : scope ≠ .ignored := by
    rintro rfl
    cases hpath
  rw [h other hother]
  rwa [← hnested.eq_path hscope] at hpath

end Needs

/-! ### What is never missed -/

/-- The faults of an element that needs what nothing has passed on. -/
def Fault.internal : List Fault :=
  [.outsideCommand, .outsideParam, .memberOutsideGroup, .entryOutsideBlock,
    .commandOutsideExtension, .commandOutsideFeature, .strayStop]

/-- A reading that may fail, but for no internal reason. -/
def Placed {α : Type} (x : Except Fault α) : Prop :=
  ∀ fault, x = .error fault → fault ∉ Fault.internal

example : Fault.internal.map Fault.chain =
    [["not inside a command"], ["not inside a param"], ["group member outside of group"],
      ["enum outside of enum block"], ["command outside of extension"],
      ["command outside of feature"], ["unexpected end tag"]] := rfl

section Placed

variable {α β : Type}

theorem placed_ok (a : α) : Placed (.ok a : Except Fault α) := nofun

theorem placed_error {fault : Fault} (h : fault ∉ Fault.internal := by simp [Fault.internal]) :
    Placed (.error fault : Except Fault α) := by
  rintro _ ⟨⟩
  exact h

theorem Placed.bind {x : Except Fault α} {f : α → Except Fault β} (h : Placed x)
    (hnext : ∀ a, x = .ok a → Placed (f a)) : Placed (x >>= f) := by
  cases x with
  | ok a => exact hnext a rfl
  | error fault =>
      rintro _ ⟨⟩
      exact h fault rfl

theorem placed_attribute? (tag : Markup.Tag) (key : String) : Placed (attribute? tag key) := by
  unfold attribute?
  split
  · exact placed_ok _
  · exact placed_error

theorem placed_required (tag : Markup.Tag) (key : String) : Placed (required tag key) := by
  refine (placed_attribute? tag key).bind fun value _ => ?_
  split
  · exact placed_ok _
  · exact placed_error

theorem placed_blockKind (tag : Markup.Tag) : Placed (blockKind tag) := by
  refine (placed_attribute? tag _).bind fun name _ => ?_
  split
  · exact placed_ok _
  · refine (placed_attribute? tag _).bind fun type _ => ?_
    split
    · exact placed_ok _
    · exact placed_ok _
    · exact placed_error

end Placed

namespace Draft

variable {d : Draft} {scope : Scope} {rest : List Scope}

theorem placed_changeCommand (h : d.keeps .command) (f : Command → Command) :
    Placed (d.changeCommand f) := by
  obtain ⟨c, hc⟩ := Option.isSome_iff_exists.mp h
  simp only [changeCommand, hc]
  exact placed_ok _

theorem placed_changeParam (h : d.keeps .param) (f : Param → Param) :
    Placed (d.changeParam f) := by
  obtain ⟨p, hp⟩ := Option.isSome_iff_exists.mp h
  simp only [changeParam, hp]
  exact placed_ok _

/-- An element begins inside the one that passes on what it needs. -/
theorem Kept.placed_enter (h : d.Kept rest) (hnested : Nested (scope :: rest))
    (tag : Markup.Tag) : Placed (d.enter scope tag) := by
  unfold enter
  split
  · refine (placed_required tag _).bind fun name _ => ?_
    split
    · exact placed_error
    · exact placed_ok _
  · have hgroup := h.of_path_tail hnested .group (by decide) (by decide)
    obtain ⟨group, hgroup⟩ := Option.isSome_iff_exists.mp hgroup
    refine (placed_required tag _).bind fun member _ => ?_
    rw [hgroup]
    exact placed_ok _
  · exact (placed_blockKind tag).bind fun kind _ => placed_ok _
  · have hkind := h.of_path_tail hnested .enumBlock (by decide) (by decide)
    obtain ⟨kind, hkind⟩ := Option.isSome_iff_exists.mp hkind
    simp only [enterEntry, hkind]
    refine (placed_required tag _).bind fun name _ => ?_
    refine (placed_required tag _).bind fun value _ => ?_
    split
    · exact placed_error
    refine (placed_attribute? tag _).bind fun api _ => ?_
    split
    · exact placed_error
    · exact (placed_attribute? tag _).bind fun groups _ => placed_ok _
  · exact (placed_required tag _).bind fun name _ => placed_ok _
  · have hextension := h.of_path_tail hnested .extension (by decide) (by decide)
    obtain ⟨extension, hextension⟩ := Option.isSome_iff_exists.mp hextension
    refine (placed_required tag _).bind fun name _ => ?_
    rw [hextension]
    exact placed_ok _
  · refine (placed_required tag _).bind fun api _ => ?_
    split
    · exact placed_error
    refine (placed_required tag _).bind fun number _ => ?_
    split
    · exact placed_error
    · exact placed_ok _
  · have hfeature := h.of_path_tail hnested .feature (by decide) (by simp [Scope.path])
    obtain ⟨feature, hfeature⟩ := Option.isSome_iff_exists.mp hfeature
    refine (placed_required tag _).bind fun name _ => ?_
    rw [hfeature]
    exact placed_ok _
  · exact placed_ok _
  · refine (placed_attribute? tag _).bind fun group _ => ?_
    exact (placed_attribute? tag _).bind fun length _ => placed_ok _
  · exact placed_ok _

/-- A text is said inside the command or the parameter that it changes. -/
theorem Kept.placed_say (h : d.Kept (scope :: rest)) (hnested : Nested (scope :: rest))
    (text : String) : Placed (d.say scope text) := by
  unfold say
  split
  · exact placed_changeCommand (h.of_path hnested .command (by decide) (by decide)) _
  · exact placed_changeCommand (h.of_path hnested .command (by decide) (by decide)) _
  · exact placed_changeCommand (h.of_path hnested .command (by decide) (by decide)) _
  · exact placed_changeParam (h.of_path hnested .param (by decide) (by decide)) _
  · exact placed_changeParam (h.of_path hnested .param (by decide) (by decide)) _
  · exact placed_changeParam (h.of_path hnested .param (by decide) (by decide)) _
  · exact placed_ok _

/-- What ends has been kept, and a parameter ends inside its command. -/
theorem Kept.placed_leave (h : d.Kept (scope :: rest)) (hnested : Nested (scope :: rest)) :
    Placed (d.leave scope) := by
  unfold leave
  split
  · exact placed_ok _
  · exact placed_ok _
  · exact placed_ok _
  · exact placed_ok _
  · exact placed_changeParam (h.of_path hnested .param (by decide) (by decide)) _
  · exact placed_changeParam (h.of_path hnested .param (by decide) (by decide)) _
  · have hcommand := h.of_path hnested .command (by decide) (by decide)
    obtain ⟨p, hp⟩ := Option.isSome_iff_exists.mp
      (h.of_path hnested .param (by decide) (by decide))
    simp only [leaveParam, hp]
    split
    · exact placed_error
    · exact placed_changeCommand (d := { d with param := none }) hcommand _
  · obtain ⟨c, hc⟩ := Option.isSome_iff_exists.mp
      (h.of_path hnested .command (by decide) (by decide))
    simp only [leaveCommand, hc]
    split
    · exact placed_error
    split
    · exact placed_error
    · exact placed_ok _
  · exact placed_ok _

end Draft

/-! ### Runs -/

/-- The stack has one scope more than there are open elements, and the draft
keeps what these pass on. -/
structure State.Settled (s : State) (opened : List Bytes) : Prop where
  nested : Nested s.scopes
  length : s.scopes.length = opened.length + 1
  kept : s.draft.Kept s.scopes

theorem State.settled_empty : State.Settled { } [] where
  nested := .document
  length := rfl
  kept := by
    rw [Draft.Kept, Scope.forall_providers]
    simp [Draft.keeps]

namespace State.Settled

variable {s next : State} {opened opened' : List Bytes} {event : Markup.Event}

theorem step (h : s.Settled opened) (hnest : Markup.nest opened event = .ok opened')
    (hstep : s.step event = .ok next) : next.Settled opened' := by
  have hmoves : Nested next.scopes ∧ next.draft.Kept next.scopes :=
    State.step_invariant (P := fun s => Nested s.scopes ∧ s.draft.Kept s.scopes)
      (fun _ _ => State.Move.kept) hstep ⟨h.nested, h.kept⟩
  refine ⟨hmoves.1, ?_, hmoves.2⟩
  rw [State.scopes_step hstep]
  cases event with
  | start tag =>
      cases hnest
      exact congrArg (· + 1) h.length
  | stop content =>
      obtain ⟨name, rfl⟩ := Markup.exists_of_nest_stop hnest
      rw [State.scopesAfter, List.length_tail, h.length]
      rfl
  | _ =>
      cases hnest
      exact h.length

/-- An end tag closes an element, so it is not met outside of all elements. -/
theorem top_ne_document (h : s.Settled opened) {content : Bytes}
    (hnest : Markup.nest opened (.stop content) = .ok opened') : s.top ≠ .document := by
  intro htop
  have hnested := h.nested
  have hlength := h.length
  rw [h.nested.eq_cons, htop] at hnested hlength
  obtain ⟨name, rfl⟩ := Markup.exists_of_nest_stop hnest
  rw [hnested.eq_path (by decide)] at hlength
  cases hlength

theorem placed_step (h : s.Settled opened) (hnest : Markup.nest opened event = .ok opened') :
    Placed (s.step event) := by
  have hnested := h.nested
  have hkept := h.kept
  rw [h.nested.eq_cons] at hnested hkept
  cases event with
  | start tag =>
      have hchild := Nested.element tag.localName hnested
      exact (Draft.Kept.placed_enter hkept hchild tag).bind fun d _ => placed_ok _
  | empty tag =>
      have hchild := Nested.element tag.localName hnested
      refine (Draft.Kept.placed_enter hkept hchild tag).bind fun d henter => ?_
      have hinside : d.Kept (s.top.child tag.localName :: s.top :: s.scopes.tail) := by
        rw [← h.nested.eq_cons]
        exact h.kept.move h.nested (.enter tag henter)
      exact (hinside.placed_leave hchild).bind fun d _ => placed_ok _
  | stop content =>
      rw [State.step, if_neg (h.top_ne_document hnest)]
      exact (hkept.placed_leave hnested).bind fun d _ => placed_ok _
  | text raw =>
      rw [State.step]
      split
      · exact placed_error
      · exact (hkept.placed_say hnested _).bind fun d _ => placed_ok _
  | cdata raw =>
      rw [State.step]
      split
      · exact placed_error
      · exact (hkept.placed_say hnested _).bind fun d _ => placed_ok _
  | comment body => exact placed_ok _
  | instruction body => exact placed_ok _
  | doctype body => exact placed_ok _

theorem run {events : List (Nat × Markup.Event)} (h : s.Settled opened)
    (hnest : Markup.nestAll opened (events.map Prod.snd) = .ok opened') :
    (∀ next, s.run events = .ok next → next.Settled opened') ∧
      ∀ fault, s.run events = .error fault →
        ∃ position event cause, fault = .event position event cause ∧ cause ∉ Fault.internal := by
  induction events generalizing s opened with
  | nil =>
      cases hnest
      refine ⟨fun next hrun => ?_, fun fault hrun => ?_⟩
      · cases hrun
        exact h
      · cases hrun
  | cons entry events ih =>
      rw [List.map_cons, Markup.nestAll_cons] at hnest
      obtain ⟨middle, hfirst, hnest⟩ := exists_of_bind_eq_ok hnest
      rw [State.run]
      cases hstep : s.step entry.2 with
      | error cause =>
          refine ⟨fun next hrun => ?_, fun fault hrun => ?_⟩
          · cases hrun
          · cases hrun
            exact ⟨entry.1, entry.2, cause, rfl, h.placed_step hfirst cause hstep⟩
      | ok next => exact ih (h.step hfirst hstep) hnest

end State.Settled

/-- Before and after every event of a document the stack has one scope more than
there are open elements, and what elements pass on to those inside them is kept
as long as they are open. So no document fails because something is missing, and
once it is accepted nothing is kept any more. -/
theorem ofDocument_settled (input : Bytes) :
    (∀ done s, done <+: (Markup.transcribe input).events → State.run { } done = .ok s →
        ∃ opened, Markup.nestAll [] (done.map Prod.snd) = .ok opened ∧
          s.scopes.length = opened.length + 1 ∧
          ∀ scope ∈ Scope.providers, s.draft.keeps scope ↔ scope ∈ s.scopes) ∧
      (∀ position event fault,
        Registry.ofDocument input = .error (.event position event fault) →
          fault ∉ Fault.internal) ∧
      ∀ r, Registry.ofDocument input = .ok r →
        ∃ d, State.run { } (Markup.transcribe input).events = .ok ⟨d, [.document]⟩ ∧
          r = d.registry ∧ d.group = none ∧ d.blockKind = none ∧ d.extension = none ∧
          d.feature = none ∧ d.command = none ∧ d.param = none := by
  obtain ⟨last, hlast⟩ := Markup.exists_nestAll_transcribe input
  refine ⟨?_, ?_, ?_⟩
  · rintro done s ⟨rest, hevents⟩ hrun
    rw [← hevents, List.map_append, Markup.nestAll_append] at hlast
    obtain ⟨opened, hopened, -⟩ := exists_of_bind_eq_ok hlast
    have hsettled := (State.settled_empty.run hopened).1 s hrun
    exact ⟨opened, hopened, hsettled.length, hsettled.kept⟩
  · intro position event fault hfault
    obtain ⟨_, _, cause, hcause, hplaced⟩ :=
      (State.settled_empty.run hlast).2 _ (run_of_ofDocument_error hfault)
    cases hcause
    exact hplaced
  · intro r haccepted
    obtain ⟨s, hrun, -, hscopes, hregistry⟩ := run_of_ofDocument haccepted
    have hsettled := (State.settled_empty.run hlast).1 s hrun
    have hdocument := hsettled.nested.eq_document hscopes
    have hkept := hsettled.kept
    rw [hdocument, Draft.Kept, Scope.forall_providers] at hkept
    refine ⟨s.draft, hrun.trans (congrArg _ ?_), hregistry, ?_⟩
    · rw [← hdocument]
    · simpa [Draft.keeps] using hkept

theorem ofDocument_settled_parameter :
    let input := Utf8.ofString ("<r><commands><command><param>a<name>b</name></param>" ++
      "<proto><name>f</name></proto></command></commands></r>")
    let done := (Markup.transcribe input).events.take 6
    (∃ s, State.run { } done = .ok s ∧ s.scopes.length = 6 ∧ s.draft.keeps .param ∧
        ¬ s.draft.keeps .group) ∧
      (∃ d, State.run { } (Markup.transcribe input).events = .ok ⟨d, [.document]⟩ ∧
        d.command = none ∧ d.param = none) ∧
      Registry.ofDocument (Utf8.ofString "<r><enums/><enum/><enums><enum/>") =
        .error (.event 25 (.empty ⟨Utf8.ofString "enum"⟩) (.missing "name")) ∧
      .missing "name" ∉ Fault.internal := by
  intro input done
  obtain ⟨hsteps, -, hend⟩ := ofDocument_settled input
  refine ⟨?_, ?_, ?_⟩
  · have hscopes : (State.run { } done).map State.scopes =
        .ok [.paramName, .param, .command, .commands, .root, .document] := by decide +kernel
    cases hrun : State.run { } done with
    | error fault =>
        rw [hrun] at hscopes
        cases hscopes
    | ok s =>
        rw [hrun] at hscopes
        replace hscopes := Except.ok.inj hscopes
        obtain ⟨opened, -, -, hkept⟩ := hsteps done s (List.take_prefix _ _) hrun
        refine ⟨s, rfl, by rw [hscopes]; rfl, ?_, ?_⟩
        · rw [hkept .param (by decide), hscopes]
          decide
        · rw [hkept .group (by decide), hscopes]
          decide
  · let leaf name (text : String) : Node :=
      .element ⟨Utf8.ofString name⟩ [.text (Utf8.ofString text)] (Utf8.ofString name)
    let document : List Node :=
      [.element ⟨Utf8.ofString "r"⟩
        [.element ⟨Utf8.ofString "commands"⟩
          [.element ⟨Utf8.ofString "command"⟩
            [.element ⟨Utf8.ofString "param"⟩
              [.text (Utf8.ofString "a"), leaf "name" "b"] (Utf8.ofString "param"),
            .element ⟨Utf8.ofString "proto"⟩ [leaf "name" "f"] (Utf8.ofString "proto")]
            (Utf8.ofString "command")]
          (Utf8.ofString "commands")]
        (Utf8.ofString "r")]
    obtain ⟨hwhole, hevents⟩ : (Markup.transcribe input).fault = none ∧
        (Markup.transcribe input).events.map Prod.snd = eventsOf document := by decide +kernel
    have hread : readTrees document = .ok { commands :=
      [⟨"f", "", [{ name := "b", base := "void", shape := "a?" }]⟩] } := by decide +kernel
    obtain ⟨d, hrun, -, -, -, -, -, hcommand, hparam⟩ :=
      hend _ (ofDocument_of_readTrees hwhole hevents hread)
    exact ⟨d, hrun, hcommand, hparam⟩
  · have hfault : Registry.ofDocument (Utf8.ofString "<r><enums/><enum/><enums><enum/>") =
        .error (.event 25 (.empty ⟨Utf8.ofString "enum"⟩) (.missing "name")) := by decide +kernel
    exact ⟨hfault, (ofDocument_settled _).2.1 _ _ _ hfault⟩

end LazyGL.Reading
