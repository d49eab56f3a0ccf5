import LazyGL.Proofs.Reading.Pending
import LazyGL.Proofs.Registry.Grammar

/-!
Entries of a block of values. An entry is met inside its block only, so nothing
comes before its name and its value; then the value is read, and what is asked
of the entry after that has nothing to do with the value.

Main statement: texts have values by the grammar of values, and an entry is
refused for its value if and only if this is outside of the grammar.
-/

namespace LazyGL.Reading

open Std (HashSet)

structure IsEntry (s : State) (tag : Markup.Tag) (name text : String) : Prop where
  scope : s.top.child tag.localName = .enumEntry
  name : required tag "name" = .ok name
  value : required tag "value" = .ok text

/-- The stored name of an entry is new, and its groups can be read. -/
structure Admissible (used : List String) (tag : Markup.Tag) (name : String) : Prop where
  new : ∃ api, attribute? tag "api" = .ok api ∧ name ++ api.getD "" ∉ used
  groups : ∃ listed, attribute? tag "group" = .ok listed

theorem exists_of_attribute?_error {tag : Markup.Tag} {key : String} {fault : Fault}
    (h : attribute? tag key = .error fault) : ∃ cause, fault = .lookup cause := by
  unfold attribute? at h
  split at h <;> cases h
  exact ⟨_, rfl⟩

/-! ### Drafts -/

inductive Judged (used : List String) (tag : Markup.Tag) (name : String) : Except Fault Draft → Prop
  | refused (fault : Fault) (hfault : ∀ text, fault ≠ .nonNumeric text name)
      (h : ¬Admissible used tag name) : Judged used tag name (.error fault)
  | taken (d : Draft) (h : Admissible used tag name) : Judged used tag name (.ok d)

section Drafts

variable {d : Draft} {tag : Markup.Tag} {name text : String} {kind : ValueKind}

theorem Draft.enterEntry_of_isNone (hkind : d.blockKind = some kind)
    (hname : required tag "name" = .ok name) (hvalue : required tag "value" = .ok text)
    (h : (Literal.value? text).isNone) : d.enterEntry tag = .error (.nonNumeric text name) := by
  simp only [Draft.enterEntry, hkind, hname, hvalue]
  exact if_pos h

theorem Draft.judged_enterEntry (hkind : d.blockKind = some kind)
    (hname : required tag "name" = .ok name) (hvalue : required tag "value" = .ok text)
    (h : ¬(Literal.value? text).isNone) {used : List String}
    (hused : ∀ name, name ∈ d.enumNames ↔ name ∈ used) :
    Judged used tag name (d.enterEntry tag) := by
  simp only [Draft.enterEntry, hkind, hname, hvalue]
  change Judged used tag name (ite _ _ _)
  rw [if_neg h]
  cases hapi : attribute? tag "api" with
  | error fault =>
      obtain ⟨cause, rfl⟩ := exists_of_attribute?_error hapi
      refine .refused _ (by simp) fun hadmissible => ?_
      obtain ⟨api, hread, -⟩ := hadmissible.new
      rw [hapi] at hread
      cases hread
  | ok api =>
      change Judged used tag name (ite _ _ _)
      split
      · next hnew =>
          rw [HashSet.contains_iff_mem, hused] at hnew
          refine .refused _ (by simp) fun hadmissible => ?_
          obtain ⟨api, hread, hfresh⟩ := hadmissible.new
          rw [hapi] at hread
          cases hread
          exact hfresh hnew
      · next hnew =>
          rw [HashSet.contains_iff_mem, hused] at hnew
          cases hgroups : attribute? tag "group" with
          | error fault =>
              obtain ⟨cause, rfl⟩ := exists_of_attribute?_error hgroups
              refine .refused _ (by simp) fun hadmissible => ?_
              obtain ⟨listed, hread⟩ := hadmissible.groups
              rw [hgroups] at hread
              cases hread
          | ok listed => exact .taken _ ⟨⟨api, hapi, hnew⟩, listed, hgroups⟩

end Drafts

/-! ### States -/

section States

variable {s : State} {tag : Markup.Tag} {name text : String}

/-- Either kind of tag is read as the entry is, and nothing is done at its end. -/
theorem State.step_entry (hscope : s.top.child tag.localName = .enumEntry) {event : Markup.Event}
    (hevent : event ∈ [Markup.Event.start tag, .empty tag]) :
    ∃ after : Draft → State, s.step event = after <$> s.draft.enterEntry tag := by
  simp only [List.mem_cons, List.not_mem_nil, or_false] at hevent
  rcases hevent with rfl | rfl
  · rw [step_start, hscope]
    exact ⟨_, rfl⟩
  · rw [step_empty, Draft.walk, hscope]
    refine ⟨s.withDraft, congrArg _ ?_⟩
    exact bind_pure _

/-- Around an entry is the block that it belongs to. -/
theorem IsEntry.exists_blockKind (h : IsEntry s tag name text) (hnested : Nested s.scopes)
    (hkept : s.draft.Kept s.scopes) : ∃ kind, s.draft.blockKind = some kind := by
  have hinside : Nested (Scope.enumEntry :: s.scopes) := by
    have houter := hnested.eq_cons
    rw [houter] at hnested ⊢
    rw [← h.scope]
    exact .element tag.localName hnested
  exact Option.isSome_iff_exists.mp
    (hkept.of_path_tail hinside .enumBlock (by decide) (by decide))

end States

/-- A text has a value if and only if it spells a number, and the value is the
one of 64 bits that is congruent to it. An entry is refused for its value if and
only if this spells no number; else it is taken if its name is new and its
groups can be read. -/
theorem value_accepted_iff_spelled :
    (∀ (text : String) (v : Int64), Literal.value? text = some v ↔
      ∃ n, Literal.Spells text n ∧ v.toInt ≡ n [ZMOD 2 ^ 64]) ∧
    ∀ (events : List (Nat × Markup.Event)) (s : State), State.run { } events = .ok s →
      ∀ tag name text, IsEntry s tag name text →
        ∀ event ∈ [Markup.Event.start tag, .empty tag],
          (s.step event = .error (.nonNumeric text name) ↔ ¬∃ n, Literal.Spells text n) ∧
          ((∃ next, s.step event = .ok next) ↔
            (∃ n, Literal.Spells text n) ∧ Admissible s.draft.registry.valueNames tag name) := by
  refine ⟨fun text v => Literal.value?_eq_some_iff, ?_⟩
  intro events s hrun tag name text hentry event hevent
  have hsound : s.Sound :=
    State.run_invariant (fun _ _ hmove hs => hs.move hmove) hrun State.sound_empty
  obtain ⟨hnested, hkept⟩ : Nested s.scopes ∧ s.draft.Kept s.scopes :=
    State.run_invariant (P := fun s => Nested s.scopes ∧ s.draft.Kept s.scopes)
      (fun _ _ => State.Move.kept) hrun ⟨State.settled_empty.nested, State.settled_empty.kept⟩
  obtain ⟨kind, hkind⟩ := hentry.exists_blockKind hnested hkept
  obtain ⟨after, hstep⟩ := State.step_entry hentry.scope hevent
  rw [Literal.exists_spells_iff, hstep]
  by_cases hvalue : (Literal.value? text).isNone
  · rw [Draft.enterEntry_of_isNone hkind hentry.name hentry.value hvalue]
    refine ⟨iff_of_true rfl fun h => h hvalue, iff_of_false ?_ fun h => h.1 hvalue⟩
    rintro ⟨_, ⟨⟩⟩
  · have hjudged := Draft.judged_enterEntry hkind hentry.name hentry.value hvalue
      hsound.draft.enumNames
    generalize s.draft.enterEntry tag = entered at hjudged
    cases hjudged with
    | refused fault hfault hnot =>
        refine ⟨iff_of_false ?_ (not_not_intro hvalue), iff_of_false ?_ fun h => hnot h.2⟩
        · exact fun heq => hfault text (Except.error.inj heq)
        · rintro ⟨_, ⟨⟩⟩
    | taken d hadmissible =>
        refine ⟨iff_of_false nofun (not_not_intro hvalue), iff_of_true ⟨_, rfl⟩ ?_⟩
        exact ⟨hvalue, hadmissible⟩

theorem value_accepted_hexadecimal :
    let tag : Markup.Tag := ⟨Utf8.ofString "enum name='B' value='0X+0fF '"⟩
    let events : List (Nat × Markup.Event) :=
      [(0, .start ⟨Utf8.ofString "r"⟩), (3, .start ⟨Utf8.ofString "enums"⟩)]
    let s : State := ⟨{ blockKind := some .plain }, [.enumBlock, .root, .document]⟩
    State.run { } events = .ok s ∧ IsEntry s tag "B" "0X+0fF " ∧
      Literal.value? "0X+0fF " = some 255 ∧ (∃ n, Literal.Spells "0X+0fF " n) ∧
      s.step (.empty tag) ≠ .error (.nonNumeric "0X+0fF " "B") := by
  intro tag events s
  have hrun : State.run { } events = .ok s := by rfl
  have hentry : IsEntry s tag "B" "0X+0fF " :=
    ⟨by decide +kernel, by decide +kernel, by decide +kernel⟩
  have hvalue : Literal.value? "0X+0fF " = some 255 := by decide +kernel
  obtain ⟨n, hspells, -⟩ := (value_accepted_iff_spelled.1 _ _).mp hvalue
  refine ⟨hrun, hentry, hvalue, ⟨n, hspells⟩, fun hfault => ?_⟩
  have hiff := (value_accepted_iff_spelled.2 events s hrun tag _ _ hentry (.empty tag) (by simp)).1
  exact hiff.mp hfault ⟨n, hspells⟩

end LazyGL.Reading
