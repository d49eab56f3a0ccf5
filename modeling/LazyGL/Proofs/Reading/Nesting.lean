import LazyGL.Proofs.Reading.Walk
import Mathlib.Logic.Relation

/-!
How scopes are nested. A scope that is not ignored is reached on one path only,
so the scopes on the stack follow from the innermost one. An event is a sequence
of moves: a scope is entered, the innermost one is left, or a text is said
there. What every move keeps holds after every run.
-/

namespace LazyGL.Reading

/-! ### Moves -/

inductive State.Move (s : State) : State → Prop
  | enter (tag : Markup.Tag) {d : Draft}
      (h : s.draft.enter (s.top.child tag.localName) tag = .ok d) :
      Move s ⟨d, s.top.child tag.localName :: s.scopes⟩
  | leave {d : Draft} (htop : s.top ≠ .document) (h : s.draft.leave s.top = .ok d) :
      Move s ⟨d, s.scopes.tail⟩
  | say (text : String) {d : Draft} (h : s.draft.say s.top text = .ok d) : Move s ⟨d, s.scopes⟩

/-- Of two steps that succeed together each one succeeds. -/
theorem exists_of_bind_eq_ok {ε α β : Type} {x : Except ε α} {f : α → Except ε β} {b : β}
    (h : (x >>= f) = .ok b) : ∃ a, x = .ok a ∧ f a = .ok b := by
  cases x with
  | error fault => cases h
  | ok a => exact ⟨a, rfl, h⟩

theorem bind_eq_ok_iff {ε α β : Type} {x : Except ε α} {f : α → Except ε β} {b : β} :
    (x >>= f) = .ok b ↔ ∃ a, x = .ok a ∧ f a = .ok b := by
  refine ⟨exists_of_bind_eq_ok, ?_⟩
  rintro ⟨a, rfl, hf⟩
  exact hf

theorem State.moves_of_step {s next : State} {event : Markup.Event} (h : s.step event = .ok next) :
    Relation.ReflTransGen Move s next := by
  cases event with
  | start tag =>
      obtain ⟨d, henter, hnext⟩ := exists_of_bind_eq_ok h
      cases hnext
      exact .single (.enter tag henter)
  | empty tag =>
      -- a scope is entered that is the innermost one until it is left
      obtain ⟨d, henter, h⟩ := exists_of_bind_eq_ok h
      obtain ⟨d', hleave, hnext⟩ := exists_of_bind_eq_ok h
      cases hnext
      exact .tail (.single (.enter tag henter)) (.leave (s.top.child_ne_document _) hleave)
  | stop content =>
      rw [step] at h
      split at h
      · cases h
      · next htop =>
          obtain ⟨d, hleave, hnext⟩ := exists_of_bind_eq_ok h
          cases hnext
          exact .single (.leave htop hleave)
  | text raw =>
      rw [step] at h
      split at h
      · cases h
      · obtain ⟨d, hsay, hnext⟩ := exists_of_bind_eq_ok h
        cases hnext
        exact .single (.say _ hsay)
  | cdata raw =>
      rw [step] at h
      split at h
      · cases h
      · obtain ⟨d, hsay, hnext⟩ := exists_of_bind_eq_ok h
        cases hnext
        exact .single (.say _ hsay)
  | comment body => cases h; exact .refl
  | instruction body => cases h; exact .refl
  | doctype body => cases h; exact .refl

/-- The scopes after an event: a start tag adds one and an end tag takes one
away. -/
def State.scopesAfter (s : State) : Markup.Event → List Scope
  | .start tag => s.top.child tag.localName :: s.scopes
  | .stop _ => s.scopes.tail
  | _ => s.scopes

theorem State.scopes_step {s next : State} {event : Markup.Event} (h : s.step event = .ok next) :
    next.scopes = s.scopesAfter event := by
  cases event with
  | start tag =>
      rw [step_start] at h
      obtain ⟨d, -, hnext⟩ := exists_of_bind_eq_ok h
      cases hnext
      rfl
  | stop content =>
      rw [step] at h
      split at h
      · cases h
      · obtain ⟨d, -, hnext⟩ := exists_of_bind_eq_ok h
        cases hnext
        rfl
  | empty tag =>
      rw [step_empty] at h
      obtain ⟨d, -, hnext⟩ := exists_of_bind_eq_ok h
      cases hnext
      rfl
  | text raw =>
      rw [step_text] at h
      obtain ⟨d, -, hnext⟩ := exists_of_bind_eq_ok h
      cases hnext
      rfl
  | cdata raw =>
      rw [step_cdata] at h
      obtain ⟨d, -, hnext⟩ := exists_of_bind_eq_ok h
      cases hnext
      rfl
  | comment body => cases h; rfl
  | instruction body => cases h; rfl
  | doctype body => cases h; rfl

/-- What every move keeps is kept by every event, which is some moves. -/
theorem State.step_invariant {P : State → Prop} (hmove : ∀ s next, Move s next → P s → P next)
    {s next : State} {event : Markup.Event} (h : s.step event = .ok next) (hs : P s) : P next := by
  have hmoves := moves_of_step h
  clear h
  induction hmoves with
  | refl => exact hs
  | tail _ hlast hbefore => exact hmove _ _ hlast hbefore

/-- What every move keeps is kept by every run. -/
theorem State.run_invariant {P : State → Prop} (hmove : ∀ s next, Move s next → P s → P next)
    {s next : State} {events : List (Nat × Markup.Event)} (h : s.run events = .ok next)
    (hs : P s) : P next := by
  induction events generalizing s with
  | nil => cases h; exact hs
  | cons entry events ih =>
      rw [run] at h
      split at h
      · cases h
      · next middle hstep => exact ih h (step_invariant hmove hstep hs)

theorem State.steps_invariant {P : State → Prop} (hmove : ∀ s next, Move s next → P s → P next)
    {s next : State} {events : List Markup.Event} (h : s.steps events = .ok next) (hs : P s) :
    P next := by
  induction events generalizing s with
  | nil => cases h; exact hs
  | cons event events ih =>
      rw [steps_cons] at h
      obtain ⟨middle, hstep, hrest⟩ := exists_of_bind_eq_ok h
      exact ih hrest (step_invariant hmove hstep hs)

/-- A document that is accepted is well formed, all of its events are read, and
no element is open after the last one. -/
theorem run_of_ofDocument {input : Bytes} {r : Registry} (h : Registry.ofDocument input = .ok r) :
    ∃ s, State.run { } (Markup.transcribe input).events = .ok s ∧
      (Markup.transcribe input).fault = none ∧ s.scopes.length = 1 ∧ r = s.draft.registry := by
  unfold Registry.ofDocument readTranscript at h
  obtain ⟨s, hrun, h⟩ := exists_of_bind_eq_ok h
  refine ⟨s, hrun, ?_⟩
  split at h
  · cases h
  · next hwhole =>
      unfold State.finish at h
      split at h
      · next hscopes =>
          cases h
          exact ⟨hwhole, hscopes, rfl⟩
      · cases h

/-- A fault of an event is one of the run. -/
theorem run_of_ofDocument_error {input : Bytes} {position : Nat} {event : Markup.Event}
    {fault : Fault} (h : Registry.ofDocument input = .error (.event position event fault)) :
    State.run { } (Markup.transcribe input).events = .error (.event position event fault) := by
  unfold Registry.ofDocument readTranscript at h
  cases hrun : State.run { } (Markup.transcribe input).events with
  | error cause =>
      rw [hrun] at h
      cases h
      rfl
  | ok s =>
      -- what goes wrong after the last event is another kind of fault
      simp only [hrun, bind, Except.bind] at h
      split at h
      · cases h
      · unfold State.finish at h
        split at h <;> cases h

/-! ### Nested scopes -/

/-- The scopes around a place in a document, the innermost first: each is that
of an element directly inside the next one. -/
inductive Nested : List Scope → Prop
  | document : Nested [.document]
  | element {outer : Scope} {rest : List Scope} (name : String) (h : Nested (outer :: rest)) :
      Nested (outer.child name :: outer :: rest)

/-- The only path to a scope; none is known for those that are ignored. -/
def Scope.path : Scope → List Scope
  | .document => [.document]
  | .root => [.root, .document]
  | .groups => [.groups, .root, .document]
  | .group => [.group, .groups, .root, .document]
  | .groupMember => [.groupMember, .group, .groups, .root, .document]
  | .enumBlock => [.enumBlock, .root, .document]
  | .enumEntry => [.enumEntry, .enumBlock, .root, .document]
  | .extensions => [.extensions, .root, .document]
  | .extension => [.extension, .extensions, .root, .document]
  | .extensionRequire => [.extensionRequire, .extension, .extensions, .root, .document]
  | .extensionCommand =>
      [.extensionCommand, .extensionRequire, .extension, .extensions, .root, .document]
  | .feature => [.feature, .root, .document]
  | .featureList change => [.featureList change, .feature, .root, .document]
  | .featureCommand change =>
      [.featureCommand change, .featureList change, .feature, .root, .document]
  | .commands => [.commands, .root, .document]
  | .command => [.command, .commands, .root, .document]
  | .proto => [.proto, .command, .commands, .root, .document]
  | .protoType => [.protoType, .proto, .command, .commands, .root, .document]
  | .protoName => [.protoName, .proto, .command, .commands, .root, .document]
  | .param => [.param, .command, .commands, .root, .document]
  | .paramType => [.paramType, .param, .command, .commands, .root, .document]
  | .paramName => [.paramName, .param, .command, .commands, .root, .document]
  | .ignored => []

theorem Scope.path_child {outer : Scope} {name : String} (h : outer.child name ≠ .ignored) :
    (outer.child name).path = outer.child name :: outer.path := by
  unfold child at h ⊢
  split at h <;> first | rfl | exact absurd rfl h

/-- Inside an ignored element there is nothing else. -/
theorem Scope.ne_ignored_of_child {outer : Scope} {name : String}
    (h : outer.child name ≠ .ignored) : outer ≠ .ignored := by
  rintro rfl
  exact h rfl

/-- The innermost scope decides on those around it. -/
theorem Nested.eq_path {scope : Scope} {rest : List Scope} (h : Nested (scope :: rest))
    (hscope : scope ≠ .ignored) : scope :: rest = scope.path := by
  generalize hscopes : scope :: rest = scopes at h
  induction h generalizing scope rest with
  | document =>
      obtain ⟨rfl, rfl⟩ := List.cons_eq_cons.mp hscopes
      rfl
  | element name h ih =>
      obtain ⟨rfl, rfl⟩ := List.cons_eq_cons.mp hscopes
      rw [Scope.path_child hscope, ih (Scope.ne_ignored_of_child hscope) rfl]

/-- There is always an innermost scope. -/
theorem Nested.eq_cons {s : State} (h : Nested s.scopes) : s.scopes = s.top :: s.scopes.tail := by
  unfold State.top
  generalize s.scopes = scopes at h
  cases h <;> rfl

theorem Nested.of_tail {scope : Scope} {rest : List Scope} (h : Nested (scope :: rest))
    (hscope : scope ≠ .document) : Nested rest := by
  cases h with
  | document => exact absurd rfl hscope
  | element name h => exact h

theorem Nested.move {s next : State} (h : Nested s.scopes) (hmove : State.Move s next) :
    Nested next.scopes := by
  have htop := h.eq_cons
  rw [htop] at h
  cases hmove with
  | enter tag =>
      dsimp only
      rw [htop]
      exact .element tag.localName h
  | leave hdocument => exact h.of_tail hdocument
  | say text =>
      dsimp only
      rw [htop]
      exact h

end LazyGL.Reading
