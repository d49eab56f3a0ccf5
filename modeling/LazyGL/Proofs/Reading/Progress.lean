import LazyGL.Proofs.Markup.Prefix
import LazyGL.Proofs.Reading.Pending

/-!
The loop that reads a document. In each turn one event is taken off the input,
the names of the open elements follow it, and the state changes by it; the loop
ends at the end of the input or at the first fault. A reading makes a transcript
first and then runs over its events, which comes to the same.

Main statement: every turn starts at a later byte than the one before it and none
starts behind the end of the input, so there are at most as many turns as bytes
and one more. If the message about an error names a byte, then it is the one at
which the last turn started, and what stands there could not be taken, was an end
tag in the wrong place, or was refused by the state.
-/

namespace LazyGL.Reading

open Markup (Event Transcript nest nestAll nestAll_append written dropMark transcribeFrom)

/-! ### Turns -/

structure Cursor where
  position : Nat
  /-- The names of the open elements, the innermost first. -/
  opened : List Bytes
  state : State
  /-- The bytes to come. -/
  rest : Bytes

inductive Turn
  | next (c : Cursor)
  | done (outcome : Except DocumentFault Registry)

/-- What begins with a byte fails: it cannot be taken, or is an end tag in the
wrong place, or is refused by the state. -/
inductive Fails (position : Nat) (opened : List Bytes) (state : State) (b : UInt8)
    (input : Bytes) : DocumentFault → Prop
  | unread {fault : Markup.Fault} (hnext : Event.next b input = .error fault) :
      Fails position opened state b input (.markup position fault)
  | misplaced {rest : Bytes} {event : Event} {fault : Markup.Fault}
      (hnext : Event.next b input = .ok (event, rest)) (hnest : nest opened event = .error fault) :
      Fails position opened state b input (.markup position fault)
  | refused {rest : Bytes} {event : Event} {opened' : List Bytes} {fault : Fault}
      (hnext : Event.next b input = .ok (event, rest)) (hnest : nest opened event = .ok opened')
      (hstep : state.step event = .error fault) :
      Fails position opened state b input (.event position event fault)

namespace Cursor

def start (input : Bytes) : Cursor := ⟨0, [], { }, dropMark input⟩

def turn (c : Cursor) : Turn :=
  match c.rest with
  | [] => .done c.state.finish
  | b :: input =>
    match Event.next b input with
    | .error fault => .done (.error (.markup c.position fault))
    | .ok (event, rest) =>
      match nest c.opened event with
      | .error fault => .done (.error (.markup c.position fault))
      | .ok opened =>
        match c.state.step event with
        | .error fault => .done (.error (.event c.position event fault))
        | .ok state => .next ⟨c.position + event.render.length, opened, state, rest⟩

/-- The loop from a cursor on, with the positions at which its turns start. -/
inductive Loop : Cursor → List Nat → Except DocumentFault Registry → Prop
  | done {c : Cursor} {outcome : Except DocumentFault Registry} (h : c.turn = .done outcome) :
      Loop c [c.position] outcome
  | next {c d : Cursor} {positions : List Nat} {outcome : Except DocumentFault Registry}
      (h : c.turn = .next d) (hrest : Loop d positions outcome) :
      Loop c (c.position :: positions) outcome

inductive Goes (c : Cursor) : Event → Cursor → Prop
  | taken {b : UInt8} {input rest : Bytes} {event : Event} {opened : List Bytes} {state : State}
      (hinput : c.rest = b :: input) (hnext : Event.next b input = .ok (event, rest))
      (hnest : nest c.opened event = .ok opened) (hstep : c.state.step event = .ok state) :
      Goes c event ⟨c.position + event.render.length, opened, state, rest⟩

inductive Ends (c : Cursor) : Except DocumentFault Registry → Prop
  | finished (hinput : c.rest = []) : Ends c c.state.finish
  | failed {b : UInt8} {input : Bytes} {fault : DocumentFault} (hinput : c.rest = b :: input)
      (h : Fails c.position c.opened c.state b input fault) : Ends c (.error fault)

variable {c d : Cursor} {positions : List Nat} {outcome : Except DocumentFault Registry}

theorem turn_cases (c : Cursor) :
    (∃ event d, c.turn = .next d ∧ c.Goes event d) ∨
      ∃ outcome, c.turn = .done outcome ∧ c.Ends outcome := by
  cases hinput : c.rest with
  | nil => exact .inr ⟨_, by rw [turn, hinput], .finished hinput⟩
  | cons b input =>
      cases hnext : Event.next b input with
      | error fault =>
          exact .inr ⟨_, by simp only [turn, hinput, hnext], .failed hinput (.unread hnext)⟩
      | ok taken =>
          obtain ⟨event, rest⟩ := taken
          cases hnest : nest c.opened event with
          | error fault =>
              exact .inr ⟨_, by simp only [turn, hinput, hnext, hnest],
                .failed hinput (.misplaced hnext hnest)⟩
          | ok opened =>
              cases hstep : c.state.step event with
              | error fault =>
                  exact .inr ⟨_, by simp only [turn, hinput, hnext, hnest, hstep],
                    .failed hinput (.refused hnext hnest hstep)⟩
              | ok state =>
                  exact .inl ⟨event, _, by simp only [turn, hinput, hnext, hnest, hstep],
                    .taken hinput hnext hnest hstep⟩

theorem goes_of_turn (h : c.turn = .next d) : ∃ event, c.Goes event d := by
  rcases turn_cases c with ⟨event, d', hturn, hgoes⟩ | ⟨outcome, hturn, -⟩
  · rw [h] at hturn
    cases hturn
    exact ⟨event, hgoes⟩
  · rw [h] at hturn
    cases hturn

theorem ends_of_turn (h : c.turn = .done outcome) : c.Ends outcome := by
  rcases turn_cases c with ⟨event, d', hturn, -⟩ | ⟨outcome', hturn, hends⟩
  · rw [h] at hturn
    cases hturn
  · rw [h] at hturn
    cases hturn
    exact hends

/-! ### Progress -/

/-- A turn moves on by the bytes of its event, of which there is one at least. -/
theorem Goes.progress {event : Event} (h : c.Goes event d) :
    c.position < d.position ∧
      d.position + d.rest.length = c.position + c.rest.length := by
  cases h with
  | @taken b input rest _ _ _ hinput hnext hnest hstep =>
      have hshorter := Event.next_length hnext
      have hlength := congrArg List.length (Markup.render_next hnext)
      rw [List.length_append] at hlength
      rw [hinput]
      dsimp only
      omega

theorem Loop.progress (h : Loop c positions outcome) :
    (∀ p ∈ positions, c.position ≤ p ∧ p ≤ c.position + c.rest.length) ∧
      positions.Pairwise (· < ·) ∧ positions.length ≤ c.rest.length + 1 := by
  induction h with
  | done h => simp
  | @next c d positions outcome h hrest ih =>
      obtain ⟨event, hgoes⟩ := goes_of_turn h
      obtain ⟨hlater, htotal⟩ := hgoes.progress
      obtain ⟨hrange, hpairwise, hlength⟩ := ih
      refine ⟨List.forall_mem_cons.mpr ⟨by omega, fun p hp => ?_⟩,
        List.pairwise_cons.mpr ⟨fun p hp => ?_, hpairwise⟩, ?_⟩
      · have := hrange p hp
        omega
      · have := hrange p hp
        omega
      · rw [List.length_cons]
        omega

/-- The loop ends. -/
theorem exists_loop (c : Cursor) : ∃ positions outcome, Loop c positions outcome := by
  induction hlength : c.rest.length using Nat.strongRecOn generalizing c with
  | ind n ih =>
      rcases turn_cases c with ⟨event, d, hturn, hgoes⟩ | ⟨outcome, hturn, -⟩
      · have hprogress := hgoes.progress
        obtain ⟨positions, outcome, hloop⟩ := ih d.rest.length (by omega) d rfl
        exact ⟨_, _, .next hturn hloop⟩
      · exact ⟨_, _, .done hturn⟩

theorem Loop.unique {positions' : List Nat} {outcome' : Except DocumentFault Registry}
    (h : Loop c positions outcome) (h' : Loop c positions' outcome') :
    positions' = positions ∧ outcome' = outcome := by
  induction h generalizing positions' with
  | done h =>
      cases h' with
      | done h' => cases h.symm.trans h'; exact ⟨rfl, rfl⟩
      | next h' hrest' => cases h.symm.trans h'
  | next h hrest ih =>
      cases h' with
      | done h' => cases h.symm.trans h'
      | next h' hrest' =>
          cases h.symm.trans h'
          obtain ⟨rfl, rfl⟩ := ih hrest'
          exact ⟨rfl, rfl⟩

end Cursor

/-! ### The loop and the transcript -/

section Transcript

variable {position : Nat} {opened opened' : List Bytes} {read : List (Nat × Event)} {b : UInt8}
  {input rest : Bytes} {event : Event} {fault : Markup.Fault}

theorem transcribeFrom_unread (hnext : Event.next b input = .error fault) :
    transcribeFrom position opened read (b :: input) =
      ⟨read.reverse, some (position, fault)⟩ := by
  rw [transcribeFrom]
  split <;> simp_all

theorem transcribeFrom_misplaced (hnext : Event.next b input = .ok (event, rest))
    (hnest : nest opened event = .error fault) :
    transcribeFrom position opened read (b :: input) =
      ⟨read.reverse, some (position, fault)⟩ := by
  rw [transcribeFrom]
  split <;> simp_all

theorem transcribeFrom_taken (hnext : Event.next b input = .ok (event, rest))
    (hnest : nest opened event = .ok opened') :
    transcribeFrom position opened read (b :: input) =
      transcribeFrom (position + event.render.length) opened' ((position, event) :: read) rest := by
  rw [transcribeFrom]
  split <;> simp_all

/-- The events read before stay in front. -/
theorem exists_events_transcribeFrom (position : Nat) (opened : List Bytes)
    (read : List (Nat × Event)) (input : Bytes) :
    ∃ more, (transcribeFrom position opened read input).events = read.reverse ++ more := by
  fun_induction transcribeFrom position opened read input with
  | case1 position opened read => exact ⟨[], by simp⟩
  | case2 position opened read b input fault hnext => exact ⟨[], by simp⟩
  | case3 position opened read b input event rest hnext fault hnest => exact ⟨[], by simp⟩
  | case4 position opened read b input event rest hnext opened' hnest ih =>
      obtain ⟨more, hevents⟩ := ih
      exact ⟨(position, event) :: more, by simp [hevents]⟩

end Transcript

theorem State.run_append {s next : State} {events : List (Nat × Event)}
    (h : s.run events = .ok next) (more : List (Nat × Event)) :
    s.run (events ++ more) = next.run more := by
  induction events generalizing s with
  | nil => cases h; rfl
  | cons entry events ih =>
      rw [List.cons_append]
      simp only [run] at h ⊢
      cases hstep : s.step entry.2 with
      | error fault => rw [hstep] at h; cases h
      | ok middle => rw [hstep] at h; exact ih h

section Whole

variable {transcript : Transcript} {s : State}

theorem readTranscript_of_ok (h : State.run { } transcript.events = .ok s) :
    readTranscript transcript =
      match transcript.fault with
      | some (position, fault) => .error (.markup position fault)
      | none => s.finish := by
  rw [readTranscript, h]
  rfl

theorem readTranscript_of_error {fault : DocumentFault}
    (h : State.run { } transcript.events = .error fault) :
    readTranscript transcript = .error fault := by
  rw [readTranscript, h]
  rfl

end Whole

namespace Cursor

variable {c : Cursor} {positions : List Nat} {outcome : Except DocumentFault Registry}

/-- A reading that has come as far as a cursor goes on as the loop does. -/
theorem Loop.readTranscript_eq (h : Loop c positions outcome) (read : List (Nat × Event))
    (hread : State.run { } read.reverse = .ok c.state) :
    readTranscript (transcribeFrom c.position c.opened read c.rest) = outcome := by
  induction h generalizing read with
  | @done c outcome h =>
      cases ends_of_turn h with
      | finished hinput =>
          rw [hinput, transcribeFrom]
          exact readTranscript_of_ok hread
      | failed hinput hfails =>
          rw [hinput]
          cases hfails with
          | unread hnext =>
              rw [transcribeFrom_unread hnext]
              exact readTranscript_of_ok hread
          | misplaced hnext hnest =>
              rw [transcribeFrom_misplaced hnext hnest]
              exact readTranscript_of_ok hread
          | @refused rest event opened fault hnext hnest hstep =>
              -- the transcript goes on behind the event, but the run does not
              obtain ⟨more, hevents⟩ := exists_events_transcribeFrom
                (c.position + event.render.length) opened ((c.position, event) :: read) rest
              rw [transcribeFrom_taken hnext hnest]
              refine readTranscript_of_error ?_
              rw [hevents, List.reverse_cons, List.append_assoc, State.run_append hread]
              simp only [List.singleton_append, State.run, hstep]
  | @next c d positions outcome h hrest ih =>
      obtain ⟨event, hgoes⟩ := goes_of_turn h
      cases hgoes with
      | taken hinput hnext hnest hstep =>
          rw [hinput, transcribeFrom_taken hnext hnest]
          refine ih _ ?_
          rw [List.reverse_cons, State.run_append hread]
          simp only [State.run, hstep]

theorem Loop.ofDocument_eq {input : Bytes} (h : Loop (start input) positions outcome) :
    Registry.ofDocument input = outcome :=
  h.readTranscript_eq [] rfl

end Cursor

/-! ### Where a reading fails -/

inductive Takes : Bytes → List Event → Bytes → Prop
  | nil (input : Bytes) : Takes input [] input
  | snoc {input rest rest' : Bytes} {events : List Event} {event : Event} {b : UInt8}
      (h : Takes input events (b :: rest)) (hnext : Event.next b rest = .ok (event, rest')) :
      Takes input (events ++ [event]) rest'

theorem Takes.written_append {input rest : Bytes} {events : List Event}
    (h : Takes input events rest) : input = written events ++ rest := by
  induction h with
  | nil => rfl
  | snoc h hnext ih =>
      rw [ih, Markup.render_next hnext, Markup.written_append, Markup.written_cons,
        Markup.written_nil, List.append_nil, List.append_assoc]

/-- The first events of a document have been taken, the end tags among them are
in the right places, and the state has changed by all of them. -/
structure Reads (input : Bytes) (events : List Event) (opened : List Bytes) (state : State)
    (rest : Bytes) : Prop where
  taken : Takes input events rest
  nested : nestAll [] events = .ok opened
  changed : State.steps { } events = .ok state

/-- A document fails at an offset: some events have been read, they take up the
bytes before it, and what begins there fails. -/
def FailsAt (input : Bytes) (offset : Nat) (fault : DocumentFault) : Prop :=
  ∃ events opened state b rest, Reads input events opened state (b :: rest) ∧
    (written events).length = offset ∧ input.drop offset = b :: rest ∧
    Fails offset opened state b rest fault

namespace Cursor

variable {c d : Cursor} {positions : List Nat} {outcome : Except DocumentFault Registry}
  {input : Bytes}

/-- The loop comes to a cursor by reading some events of the document, and the
position of the cursor is where the bytes to come begin. -/
def Reached (input : Bytes) (c : Cursor) : Prop :=
  ∃ events, Reads input events c.opened c.state c.rest ∧ (written events).length = c.position

theorem reached_start (input : Bytes) : Reached (dropMark input) (start input) :=
  ⟨[], ⟨.nil _, rfl, rfl⟩, rfl⟩

theorem Reached.goes {event : Event} (h : Reached input c) (hgoes : c.Goes event d) :
    Reached input d := by
  obtain ⟨events, ⟨htaken, hnested, hchanged⟩, hposition⟩ := h
  cases hgoes with
  | taken hinput hnext hnest hstep =>
      rw [hinput] at htaken
      refine ⟨events ++ [event], ⟨htaken.snoc hnext, ?_, ?_⟩, ?_⟩
      · rw [nestAll_append, hnested]
        change nestAll c.opened [event] = _
        rw [Markup.nestAll_cons, hnest]
        rfl
      · rw [State.steps_append, hchanged]
        change State.steps c.state [event] = _
        rw [State.steps_singleton, hstep]
      · simp [← hposition]

/-- The loop ends with a fault at the cursor, or with elements left open. -/
theorem Reached.ends {fault : DocumentFault} (h : Reached input c) (hends : c.Ends (.error fault)) :
    FailsAt input c.position fault ∨ ∃ count, fault = .leftOpen count := by
  obtain ⟨events, hreads, hposition⟩ := h
  generalize houtcome : Except.error fault = outcome at hends
  cases hends with
  | finished hinput =>
      rw [State.finish] at houtcome
      split at houtcome <;> cases houtcome
      exact .inr ⟨_, rfl⟩
  | failed hinput hfails =>
      cases houtcome
      rw [hinput] at hreads
      refine .inl ⟨events, _, _, _, _, hreads, hposition, ?_, hfails⟩
      rw [← hposition, hreads.taken.written_append, List.drop_left]

/-- An error is met at the position of the last turn. -/
theorem Loop.failsAt {fault : DocumentFault} (h : Loop c positions (.error fault))
    (hreached : Reached input c) :
    (∃ offset, positions.getLast? = some offset ∧ FailsAt input offset fault) ∨
      ∃ count, fault = .leftOpen count := by
  generalize houtcome : Except.error fault = outcome at h
  induction h with
  | @done c outcome h =>
      subst houtcome
      exact (hreached.ends (ends_of_turn h)).imp_left fun hfails => ⟨_, rfl, hfails⟩
  | @next c d positions outcome h hrest ih =>
      obtain ⟨event, hgoes⟩ := goes_of_turn h
      refine (ih (hreached.goes hgoes) houtcome).imp_left fun ⟨offset, hlast, hfails⟩ => ?_
      exact ⟨offset, by rw [List.getLast?_cons, hlast]; rfl, hfails⟩

end Cursor

/-! ### Messages -/

def Names (message : String) (position : Nat) : Prop :=
  ∃ what, message = what ++ " near byte " ++ toString position

/-- The last word of a text and what stands in front of it. -/
theorem last_word_inj {front front' word word' : List Char}
    (h : front ++ ' ' :: word = front' ++ ' ' :: word') (hword : ' ' ∉ word)
    (hword' : ' ' ∉ word') : front = front' ∧ word = word' := by
  rcases List.append_eq_append_iff.mp h with ⟨between, rfl, htail⟩ | ⟨between, rfl, htail⟩
  · cases between with
    | nil => simpa using htail
    | cons c between =>
        obtain ⟨rfl, rfl⟩ := List.cons_eq_cons.mp htail
        simp at hword
  · cases between with
    | nil => simpa using htail.symm
    | cons c between =>
        obtain ⟨rfl, rfl⟩ := List.cons_eq_cons.mp htail
        simp at hword'

theorem space_not_mem_toDigits (n : Nat) : ' ' ∉ Nat.toDigits 10 n :=
  Numeral.not_mem_of_digits (Numeral.digits_toDigits n) (by decide)

/-- A number at the end of a text is its last word. -/
theorem toList_numbered (what : String) {phrase : String} {front : List Char}
    (hphrase : phrase.toList = front ++ [' ']) (n : Nat) :
    (what ++ phrase ++ toString n).toList =
      (what.toList ++ front) ++ ' ' :: Nat.toDigits 10 n := by
  rw [String.toList_append, String.toList_append, Numeral.toList_toString, hphrase]
  simp

section Names

variable {message : String} {n n' : Nat}

theorem Names.exists_toList (h : Names message n) :
    ∃ what, message.toList = (what ++ " near byte".toList) ++ ' ' :: Nat.toDigits 10 n := by
  obtain ⟨what, rfl⟩ := h
  exact ⟨what.toList, toList_numbered what (by decide) n⟩

theorem Names.unique (h : Names message n) (h' : Names message n') : n = n' := by
  obtain ⟨what, hmessage⟩ := h.exists_toList
  obtain ⟨what', hmessage'⟩ := h'.exists_toList
  have hdigits := (last_word_inj (hmessage.symm.trans hmessage') (space_not_mem_toDigits n)
    (space_not_mem_toDigits n')).2
  rw [← Numeral.place_toDigits n, hdigits, Numeral.place_toDigits]

/-- The word before the position is the word for a byte. -/
theorem not_names {front word : List Char} (hmessage : message.toList = front ++ ' ' :: word)
    (hword : ' ' ∉ word) (hfront : front.getLast? ≠ some 'e') : ¬ Names message n := by
  intro h
  obtain ⟨what, hmessage'⟩ := h.exists_toList
  obtain ⟨rfl, -⟩ := last_word_inj (hmessage.symm.trans hmessage') hword (space_not_mem_toDigits n)
  refine hfront ?_
  rw [List.getLast?_append]
  rfl

end Names

theorem names_malformed (position : Nat) :
    Names ("malformed document near byte " ++ toString position) position :=
  ⟨"malformed document", rfl⟩

theorem names_stray (position : Nat) :
    Names ("unexpected end tag near byte " ++ toString position) position :=
  ⟨"unexpected end tag", rfl⟩

theorem names_place {position : Nat} {event : Event} {fault : Fault} {message : String}
    (h : place position event fault = some message) : Names message position := by
  unfold place at h
  split at h
  · cases h
    exact ⟨_, (String.append_assoc ..).symm⟩
  · cases h
    exact ⟨_, (String.append_assoc ..).symm⟩
  · cases h
    exact ⟨_, (String.append_assoc ..).symm⟩
  · cases h
    exact ⟨_, (String.append_assoc ..).symm⟩
  · cases h

/-- The faults of a text, which are told without a position. -/
inductive Fault.Unplaced : Fault → Prop
  | verbatim (fault : Utf8.Fault) : Unplaced (.verbatim fault)
  | outsideCommand : Unplaced .outsideCommand
  | outsideParam : Unplaced .outsideParam

theorem Draft.unplaced_of_say {d : Draft} {scope : Scope} {text : String} {fault : Fault}
    (h : d.say scope text = .error fault) : fault.Unplaced := by
  have hcommand {f : Command → Command} (h : d.changeCommand f = .error fault) :
      fault.Unplaced := by
    unfold changeCommand at h
    split at h <;> cases h
    exact .outsideCommand
  have hparam {f : Param → Param} (h : d.changeParam f = .error fault) : fault.Unplaced := by
    unfold changeParam at h
    split at h <;> cases h
    exact .outsideParam
  unfold say at h
  split at h
  · exact hcommand h
  · exact hcommand h
  · exact hcommand h
  · exact hparam h
  · exact hparam h
  · exact hparam h
  · cases h

theorem exists_message_utf8 (fault : Utf8.Fault) :
    ∃ (what : String) (start : Nat), fault.message = what ++ " from index " ++ toString start := by
  cases fault with
  | invalid start width =>
      refine ⟨"invalid utf-8 sequence of " ++ toString width ++ " bytes", start, ?_⟩
      have hphrase : " bytes from index " = " bytes" ++ " from index " := by decide
      refine congrArg (· ++ toString start) ?_
      exact (congrArg _ hphrase).trans (String.append_assoc ..).symm
  | incomplete start =>
      refine ⟨"incomplete utf-8 byte sequence", start, congrArg (· ++ toString start) ?_⟩
      decide

theorem Fault.Unplaced.not_names {fault : Fault} (h : fault.Unplaced) {message : String}
    (hmessage : fault.chain.head? = some message) (n : Nat) : ¬ Names message n := by
  cases h with
  | verbatim fault =>
      cases hmessage
      obtain ⟨what, start, hmessage⟩ := exists_message_utf8 fault
      rw [hmessage]
      have hphrase : " from index ".toList = " from index".toList ++ [' '] := by decide
      refine Reading.not_names (toList_numbered what hphrase start)
        (space_not_mem_toDigits start) ?_
      rw [List.getLast?_append]
      change some 'x' ≠ some 'e'
      decide
  | outsideCommand =>
      cases hmessage
      have hwords : "not inside a command".toList =
          "not inside a".toList ++ ' ' :: "command".toList := rfl
      exact Reading.not_names hwords (by decide) (by decide)
  | outsideParam =>
      cases hmessage
      have hwords : "not inside a param".toList =
          "not inside a".toList ++ ' ' :: "param".toList := rfl
      exact Reading.not_names hwords (by decide) (by decide)

/-- What goes wrong with an event is told with its position, or is a fault of a
text. -/
theorem State.place_of_step {s : State} {event : Event} {fault : Fault}
    (h : s.step event = .error fault) (position : Nat) :
    (∃ message, place position event fault = some message) ∨
      place position event fault = none ∧ fault.Unplaced := by
  have hsay {text : String} (h : (do
      let d ← s.draft.say s.top text
      .ok ⟨d, s.scopes⟩ : Except Fault State) = .error fault) : fault.Unplaced := by
    cases hsay : s.draft.say s.top text with
    | error cause => rw [hsay] at h; cases h; exact Draft.unplaced_of_say hsay
    | ok d => rw [hsay] at h; cases h
  cases event with
  | start tag => exact .inl ⟨_, rfl⟩
  | empty tag => exact .inl ⟨_, rfl⟩
  | stop content => exact .inl ⟨_, rfl⟩
  | text raw =>
      rw [step] at h
      split at h
      · cases h
        exact .inl ⟨_, rfl⟩
      · have hunplaced := hsay h
        refine .inr ⟨?_, hunplaced⟩
        cases hunplaced <;> rfl
  | cdata raw =>
      rw [step] at h
      split at h
      · cases h
        exact .inr ⟨rfl, .verbatim _⟩
      · exact .inr ⟨rfl, hsay h⟩
  | comment body => cases h
  | instruction body => cases h
  | doctype body => cases h

theorem DocumentFault.chain_event {position : Nat} {event : Event} {fault : Fault}
    (h : fault ≠ .strayStop) :
    (DocumentFault.event position event fault).chain =
      (place position event fault).toList ++ fault.chain := by
  cases fault <;> first | rfl | exact absurd rfl h

/-- The position in the message about what fails is its own. -/
theorem Fails.eq_of_names {position n : Nat} {opened : List Bytes} {state : State} {b : UInt8}
    {input : Bytes} {fault : DocumentFault} {message : String}
    (h : Fails position opened state b input fault)
    (hmessage : fault.chain.head? = some message) (hnames : Names message n) : n = position := by
  cases h with
  | unread hnext =>
      cases hmessage
      exact hnames.unique (names_malformed position)
  | misplaced hnext hnest =>
      cases hmessage
      exact hnames.unique (names_malformed position)
  | @refused rest event opened' fault hnext hnest hstep =>
      by_cases hstray : fault = .strayStop
      · subst hstray
        cases hmessage
        exact hnames.unique (names_stray position)
      rw [DocumentFault.chain_event hstray] at hmessage
      rcases State.place_of_step hstep position with ⟨first, hplace⟩ | ⟨hplace, hunplaced⟩
      · rw [hplace] at hmessage
        cases hmessage
        exact hnames.unique (names_place hplace)
      · rw [hplace] at hmessage
        exact absurd hnames (hunplaced.not_names hmessage n)

theorem not_names_leftOpen {count n : Nat} {message : String}
    (hmessage : (DocumentFault.leftOpen count).chain.head? = some message) :
    ¬ Names message n := by
  cases hmessage
  have hwords : ("unexpected end of document (" ++ toString count ++
      " elements left open)").toList =
      (("unexpected end of document (" ++ toString count).toList ++ " elements left".toList) ++
        ' ' :: "open)".toList := by
    rw [String.toList_append]
    simp
  refine not_names hwords (by decide) ?_
  rw [List.getLast?_append]
  change some 't' ≠ some 'e'
  decide

/-! ### Main statement -/

/-- The loop comes to the same as the reading of the transcript, and it ends on
every input. Its turns start at strictly increasing positions in the input, a byte
order mark not counted, so there are no more of them than bytes and one. A position
in the message about an error is that of the last turn, and the document fails
there. -/
theorem ofDocument_turns (input : Bytes) :
    ∃ positions, Cursor.Loop (.start input) positions (Registry.ofDocument input) ∧
      (∀ positions' outcome, Cursor.Loop (.start input) positions' outcome →
        positions' = positions ∧ outcome = Registry.ofDocument input) ∧
      positions.Pairwise (· < ·) ∧ (∀ p ∈ positions, p ≤ (dropMark input).length) ∧
      positions.length ≤ (dropMark input).length + 1 ∧
      ∀ fault message n, Registry.ofDocument input = .error fault →
        fault.chain.head? = some message → Names message n →
        positions.getLast? = some n ∧ FailsAt (dropMark input) n fault := by
  obtain ⟨positions, outcome, hloop⟩ := Cursor.exists_loop (.start input)
  obtain rfl := hloop.ofDocument_eq
  obtain ⟨hrange, hpairwise, hlength⟩ := hloop.progress
  refine ⟨positions, hloop, fun _ _ => hloop.unique, hpairwise, fun p hp => ?_, hlength, ?_⟩
  · have hp := (hrange p hp).2
    rwa [Cursor.start, Nat.zero_add] at hp
  · intro fault message n hfault hmessage hnames
    rw [hfault] at hloop
    rcases hloop.failsAt (Cursor.reached_start input) with ⟨offset, hlast, hfails⟩ | ⟨count, rfl⟩
    · obtain ⟨events, opened, state, b, rest, -, -, -, hfault⟩ := id hfails
      obtain rfl := hfault.eq_of_names hmessage hnames
      exact ⟨hlast, hfails⟩
    · exact absurd hnames (not_names_leftOpen hmessage)

theorem ofDocument_turns_mismatched :
    let input := [0xEF, 0xBB, 0xBF] ++ Utf8.ofString "<a><!--x-->t</b>"
    let fault : DocumentFault :=
      .markup 12 (.mismatched (Utf8.ofString "a") (Utf8.ofString "b"))
    Registry.ofDocument input = .error fault ∧
      fault.chain.head? = some "malformed document near byte 12" ∧
      ∃ positions, Cursor.Loop (.start input) positions (.error fault) ∧
        positions.getLast? = some 12 ∧ positions.length ≤ 17 ∧
        FailsAt (dropMark input) 12 fault := by
  intro input fault
  have hfault : Registry.ofDocument input = .error fault := by decide +kernel
  have hmessage : fault.chain.head? = some "malformed document near byte 12" := by decide
  obtain ⟨positions, hloop, -, -, -, hlength, hfails⟩ := ofDocument_turns input
  obtain ⟨hlast, hfails⟩ := hfails fault _ 12 hfault hmessage (names_malformed 12)
  rw [hfault] at hloop
  exact ⟨hfault, hmessage, positions, hloop, hlast, hlength, hfails⟩

end LazyGL.Reading
