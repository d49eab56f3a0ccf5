import LazyGL.Proofs.Reading.Descent
import LazyGL.Proofs.Reading.Pending

/-!
Self-closed elements. The reading of a self-closed tag enters its scope and
leaves it without putting it on the stack, and yet it comes to the same as the
reading of a start tag with the end tag directly behind it: in between nothing
is read, and the scope on the stack is the one that has been entered. Main
statement: a document can be written in either way, and if it is refused, then
for the same reason, though that may be told of another tag.
-/

namespace LazyGL.Markup

/-! ### Unfolded events -/

/-- Some self-closed tags are replaced by a start tag and the end tag of the
element. -/
inductive Unfolded : List Event → List Event → Prop
  | nil : Unfolded [] []
  | keep (event : Event) {events events' : List Event} (h : Unfolded events events') :
      Unfolded (event :: events) (event :: events')
  | unfold {tag : Tag} {content : Bytes} (hname : endName content = tag.name)
      {events events' : List Event} (h : Unfolded events events') :
      Unfolded (.empty tag :: events) (.start tag :: .stop content :: events')

theorem Unfolded.refl (events : List Event) : Unfolded events events := by
  induction events with
  | nil => exact .nil
  | cons event events ih => exact .keep event ih

theorem Unfolded.append_left (before : List Event) {events events' : List Event}
    (h : Unfolded events events') : Unfolded (before ++ events) (before ++ events') := by
  induction before with
  | nil => exact h
  | cons event before ih => exact .keep event ih

end LazyGL.Markup

namespace LazyGL.Reading

open Markup (Event Tag Unfolded)

/-- An element without children is read like a self-closed one. -/
theorem State.steps_unfolded_tag (s : State) (tag : Tag) (content : Bytes) :
    s.steps [.start tag, .stop content] = s.step (.empty tag) := by
  have hpair := s.steps_events (.element tag [] content)
  rw [step_empty, Draft.walk]
  exact hpair

/-- What has been read is the same, wherever the reading begins. -/
theorem State.steps_unfolded {events events' : List Event} (h : Unfolded events events')
    (s : State) : s.steps events' = s.steps events := by
  induction h generalizing s with
  | nil => rfl
  | keep event h ih =>
      rw [steps_cons, steps_cons]
      exact congrArg _ (funext ih)
  | @unfold tag content hname events events' h ih =>
      have hpair :
          .start tag :: .stop content :: events' = [.start tag, .stop content] ++ events' :=
        rfl
      rw [hpair, steps_append, steps_unfolded_tag, steps_cons]
      exact congrArg _ (funext ih)

/-! ### The innermost cause -/

theorem chain_ne_nil_of_entity (fault : Markup.EntityFault) : fault.chain ≠ [] := by
  cases fault <;> exact List.cons_ne_nil _ _

theorem chain_ne_nil_of_value (fault : Markup.ValueFault) : fault.chain ≠ [] := by
  cases fault with
  | encoding fault => exact List.cons_ne_nil _ _
  | entity fault => exact chain_ne_nil_of_entity fault

theorem Fault.chain_ne_nil (fault : Fault) : fault.chain ≠ [] := by
  cases fault with
  | text fault => exact chain_ne_nil_of_value fault
  | lookup fault =>
      cases fault with
      | unread fault => exact List.cons_ne_nil _ _
      | value fault => exact chain_ne_nil_of_value fault
  | _ => exact List.cons_ne_nil _ _

/-- Two refusals have the same innermost cause, wherever it was met. -/
structure DocumentFault.Akin (first second : DocumentFault) : Prop where
  cause : first.cause = second.cause
  message : ∃ message, first.chain.getLast? = some message ∧ second.chain.getLast? = some message

namespace DocumentFault

/-- The place of a fault is told before its cause. -/
theorem getLast?_chain_event (position : Nat) (event : Event) {fault : Fault}
    (h : fault ∉ Fault.internal) :
    (DocumentFault.event position event fault).chain.getLast? = fault.chain.getLast? := by
  have hchain : (DocumentFault.event position event fault).chain =
      (place position event fault).toList ++ fault.chain := by
    cases fault with
    | strayStop => exact absurd (by decide) h
    | _ => rfl
  rw [hchain, List.getLast?_append_of_ne_nil _ fault.chain_ne_nil]

theorem akin_event (position position' : Nat) (event event' : Event) {fault : Fault}
    (h : fault ∉ Fault.internal) :
    (DocumentFault.event position event fault).Akin (.event position' event' fault) where
  cause := rfl
  message := by
    rw [getLast?_chain_event _ _ h, getLast?_chain_event _ _ h]
    exact ⟨_, List.getLast?_eq_some_getLast fault.chain_ne_nil,
      List.getLast?_eq_some_getLast fault.chain_ne_nil⟩

theorem akin_markup (position position' : Nat) (fault : Markup.Fault) :
    (DocumentFault.markup position fault).Akin (.markup position' fault) where
  cause := rfl
  message := ⟨fault.message, rfl, rfl⟩

theorem akin_leftOpen (count : Nat) : (DocumentFault.leftOpen count).Akin (.leftOpen count) where
  cause := rfl
  message := ⟨_, rfl, rfl⟩

end DocumentFault

/-! ### Whole documents -/

/-- A document with some self-closed elements is accepted if and only if it is
accepted with start and end tags in their place, and then it describes the same
registry; otherwise the innermost cause is the same. Some elements may be left
open, and the positions of the events may be any. -/
theorem readTranscript_unfolded {transcript transcript' : Markup.Transcript}
    (hnest : ∃ opened, Markup.nestAll [] (transcript.events.map Prod.snd) = .ok opened)
    (h : Unfolded (transcript.events.map Prod.snd) (transcript'.events.map Prod.snd))
    (hfault : transcript.fault.map Prod.snd = transcript'.fault.map Prod.snd) :
    (∀ r, readTranscript transcript = .ok r ↔ readTranscript transcript' = .ok r) ∧
      ∀ fault, readTranscript transcript = .error fault →
        ∃ fault', readTranscript transcript' = .error fault' ∧ fault.Akin fault' := by
  obtain ⟨opened, hnest⟩ := hnest
  have hsteps := State.steps_unfolded h { }
  unfold readTranscript
  cases hread : State.steps { } (transcript.events.map Prod.snd) with
  | error cause =>
      rw [hread] at hsteps
      obtain ⟨position, event, -, hrun⟩ := State.run_of_steps_error hread
      obtain ⟨position', event', -, hrun'⟩ := State.run_of_steps_error hsteps
      obtain ⟨_, _, _, hcause, hplaced⟩ := (State.settled_empty.run hnest).2 _ hrun
      cases hcause
      rw [hrun, hrun']
      refine ⟨fun r => ⟨nofun, nofun⟩, ?_⟩
      rintro _ ⟨⟩
      exact ⟨_, rfl, DocumentFault.akin_event position position' event event' hplaced⟩
  | ok s =>
      rw [hread] at hsteps
      rw [State.run_of_steps_ok hread, State.run_of_steps_ok hsteps]
      -- nothing but the markup and the number of open elements is left to look at
      cases hbroken : transcript.fault with
      | some broken =>
          rw [hbroken] at hfault
          obtain ⟨broken', hbroken', hsame⟩ := Option.map_eq_some_iff.mp hfault.symm
          rw [hbroken']
          refine ⟨fun r => ⟨nofun, nofun⟩, ?_⟩
          rintro _ ⟨⟩
          refine ⟨_, rfl, ?_⟩
          rw [← hsame]
          exact DocumentFault.akin_markup broken.1 broken'.1 broken'.2
      | none =>
          rw [hbroken, Option.map_none, eq_comm, Option.map_eq_none_iff] at hfault
          rw [hfault]
          refine ⟨fun r => Iff.rfl, fun fault hend => ⟨fault, hend, ?_⟩⟩
          change s.finish = .error fault at hend
          unfold State.finish at hend
          split at hend
          · cases hend
          · cases hend
            exact DocumentFault.akin_leftOpen _

/-- A value, with a blank behind the name in the end tag; and a parameter without
a name, which is only found out at its end. -/
theorem readTranscript_unfolded_param :
    let transcribed (text : String) := Markup.transcribe (Utf8.ofString text)
    let accepted := transcribed "<r><enums><enum name='A' value='1'/></enums></r>"
    let accepted' := transcribed "<r><enums><enum name='A' value='1'></enum ></enums></r>"
    let refused := transcribed "<r><commands><command><param/>"
    let refused' := transcribed "<r><commands><command><param></param>"
    let r : Registry := { enums := [⟨"A", "1", .plain⟩] }
    (Unfolded (accepted.events.map Prod.snd) (accepted'.events.map Prod.snd) ∧
        readTranscript accepted = .ok r ∧ readTranscript accepted' = .ok r) ∧
      Unfolded (refused.events.map Prod.snd) (refused'.events.map Prod.snd) ∧
        (∃ fault, readTranscript refused = .error fault ∧
          fault.chain = ["could not parse <param/> near byte 22", "param name is missing"]) ∧
        ∃ fault', readTranscript refused' = .error fault' ∧ fault'.cause = some .namelessParam ∧
          fault'.chain.getLast? = some "param name is missing" := by
  intro transcribed accepted accepted' refused refused' r
  let start (name : String) : Event := .start ⟨Utf8.ofString name⟩
  let stop (name : String) : Event := .stop (Utf8.ofString name)
  let entry : Tag := ⟨Utf8.ofString "enum name='A' value='1'"⟩
  let front : List Event := [start "r", start "enums"]
  let back : List Event := [stop "enums", stop "r"]
  obtain ⟨hwhole, hevents⟩ : accepted.fault = none ∧
      accepted.events.map Prod.snd = front ++ .empty entry :: back := by
    decide +kernel
  obtain ⟨hwhole', hevents'⟩ : accepted'.fault = none ∧
      accepted'.events.map Prod.snd = front ++ .start entry :: stop "enum " :: back := by
    decide +kernel
  have haccepted : Unfolded (accepted.events.map Prod.snd) (accepted'.events.map Prod.snd) := by
    rw [hevents, hevents']
    exact .append_left front (.unfold (by decide +kernel) (.refl back))
  have hread : readTranscript accepted = .ok r := by
    let document : Node := .element ⟨Utf8.ofString "r"⟩
      [.element ⟨Utf8.ofString "enums"⟩ [.closed entry] (Utf8.ofString "enums")]
      (Utf8.ofString "r")
    have hdocument : accepted.events.map Prod.snd = eventsOf [document] := hevents.trans rfl
    exact ofDocument_of_readTrees hwhole hdocument (by decide +kernel)
  let before : List Event := [start "r", start "commands", start "command"]
  have hrefused : refused = ⟨[(0, start "r"), (3, start "commands"), (13, start "command"),
      (22, .empty ⟨Utf8.ofString "param"⟩)], none⟩ := by
    decide +kernel
  obtain ⟨hcut', hrest'⟩ : refused'.fault = none ∧
      refused'.events.map Prod.snd = before ++ [start "param", stop "param"] := by
    decide +kernel
  have hunfolded : Unfolded (refused.events.map Prod.snd) (refused'.events.map Prod.snd) := by
    rw [hrefused, hrest']
    exact .append_left before (.unfold (by decide +kernel) .nil)
  have hrefusal : readTranscript refused =
      .error (.event 22 (.empty ⟨Utf8.ofString "param"⟩) .namelessParam) := by
    rw [hrefused]
    decide +kernel
  have hunbroken : accepted.fault.map Prod.snd = accepted'.fault.map Prod.snd := by
    rw [hwhole, hwhole']
  have hcut : refused.fault.map Prod.snd = refused'.fault.map Prod.snd := by
    rw [hrefused, hcut', Option.map_none]
  obtain ⟨hsame, -⟩ :=
    readTranscript_unfolded (Markup.exists_nestAll_transcribe _) haccepted hunbroken
  obtain ⟨-, hakin⟩ :=
    readTranscript_unfolded (Markup.exists_nestAll_transcribe _) hunfolded hcut
  obtain ⟨fault', hfault', hcause, message, hmessage, hmessage'⟩ := hakin _ hrefusal
  refine ⟨⟨haccepted, hread, (hsame r).mp hread⟩, hunfolded, ⟨_, hrefusal, by decide +kernel⟩,
    fault', hfault', hcause.symm, ?_⟩
  rw [hmessage', ← hmessage]
  decide +kernel

end LazyGL.Reading
