import LazyGL.Markup.Written

/-!
Documents that break off. An event is taken as soon as its last byte has been
read, whatever follows, so a front part of a document has the same events as the
whole as far as it goes. Only a text that is cut through is taken all the same,
as a shorter text; any other piece that is cut through is a fault.
-/

namespace LazyGL.Markup

/-! ### One event -/

/-- Of an input and of a front part of it the same is taken, if anything is. -/
structure Stable (next : Bytes → Except Fault (Event × Bytes)) : Prop where
  same : ∀ {input part : Bytes}, part <+: input → ∀ {event event' : Event} {rest rest' : Bytes},
    next input = .ok (event, rest) → next part = .ok (event', rest') →
      event' = event ∧ rest' <+: rest

theorem Closer.cut_prefix {σ : Type} {closer : Closer σ} {state : σ}
    {read input part body body' rest rest' : Bytes} (hpart : part <+: input)
    (h : closer.cut state read input = some (body, rest))
    (h' : closer.cut state read part = some (body', rest')) : body' = body ∧ rest' <+: rest := by
  induction part generalizing state read input with
  | nil => cases h'
  | cons b part ih =>
      obtain ⟨input, rfl, htail⟩ := List.cons_prefix_iff.mp hpart
      rw [Closer.cut] at h h'
      by_cases hclose : (b == '>'.toUInt8 && closer.closes state) = true
      · rw [if_pos hclose] at h h'
        cases h
        cases h'
        exact ⟨rfl, htail⟩
      · rw [if_neg hclose] at h h'
        exact ih htail h h'

/-- What is taken depends only on the bytes up to a closing bracket. -/
theorem stable_of_cut {σ : Type} (closer : Closer σ) (state : σ) (event : Bytes → Option Event)
    {next : Bytes → Except Fault (Event × Bytes)}
    (hnext : ∀ {input : Bytes} {e : Event} {rest : Bytes}, next input = .ok (e, rest) →
      ∃ body, closer.cut state [] input = some (body, rest) ∧ event body = some e) :
    Stable next := by
  constructor
  intro input part hpart e e' rest rest' h h'
  obtain ⟨body, hcut, he⟩ := hnext h
  obtain ⟨body', hcut', he'⟩ := hnext h'
  obtain ⟨rfl, hrest⟩ := Closer.cut_prefix hpart hcut hcut'
  rw [he] at he'
  cases he'
  exact ⟨rfl, hrest⟩

/-- The first byte decides on what is taken. -/
theorem Stable.dispatch (choice : UInt8 → Bytes → Except Fault (Event × Bytes))
    {next : Bytes → Except Fault (Event × Bytes)} (hchoice : ∀ b, Stable (choice b))
    (hnil : ∃ fault, next [] = .error fault)
    (hcons : ∀ b input, next (b :: input) = choice b input) :
    Stable next := by
  constructor
  intro input part hpart e e' rest rest' h h'
  cases part with
  | nil =>
      obtain ⟨fault, hnil⟩ := hnil
      rw [hnil] at h'
      cases h'
  | cons b part =>
      obtain ⟨input, rfl, htail⟩ := List.cons_prefix_iff.mp hpart
      rw [hcons] at h h'
      exact (hchoice b).same htail h h'

/-- A byte goes in front of what is taken from. -/
theorem Stable.cons {next : Bytes → Except Fault (Event × Bytes)} (h : Stable next) (b : UInt8) :
    Stable fun input => next (b :: input) :=
  ⟨fun hpart => h.same (List.cons_prefix_cons.mpr ⟨rfl, hpart⟩)⟩

theorem Stable.ite {c : Prop} [Decidable c] {next next' : Bytes → Except Fault (Event × Bytes)}
    (h : Stable next) (h' : Stable next') :
    Stable fun input => if c then next input else next' input := by
  by_cases hc : c
  · simp only [if_pos hc]
    exact h
  · simp only [if_neg hc]
    exact h'

theorem stable_error (fault : Fault) : Stable fun _ => .error fault :=
  ⟨fun _ => nofun⟩

theorem stable_nextCdata : Stable nextCdata := by
  refine stable_of_cut cdataCloser 0
    (fun body => (afterFront? (Utf8.ofString "[CDATA[") body).map fun raw =>
      .cdata (raw.take (raw.length - 2))) ?_
  intro input e rest h
  unfold nextCdata at h
  split at h
  · cases h
  next body rest' hcut =>
  split at h
  · cases h
  next raw hraw =>
  cases h
  exact ⟨body, hcut, by rw [hraw, Option.map_some]⟩

theorem stable_nextComment : Stable nextComment := by
  refine stable_of_cut commentCloser (0, 0)
    (fun body => (afterFront? (Utf8.ofString "--") body).map fun raw =>
      .comment (raw.take (raw.length - 2))) ?_
  intro input e rest h
  unfold nextComment at h
  split at h
  · cases h
  next body rest' hcut =>
  split at h
  · cases h
  next raw hraw =>
  cases h
  exact ⟨body, hcut, by rw [hraw, Option.map_some]⟩

theorem stable_nextDoctype : Stable nextDoctype := by
  refine stable_of_cut doctypeCloser 0
    (fun body => some (.doctype body)) ?_
  intro input e rest h
  unfold nextDoctype at h
  split at h
  · cases h
  next body rest' hcut =>
  split at h
  · split at h
    · cases h
    · cases h
      exact ⟨body, hcut, rfl⟩
  · cases h

theorem stable_nextInstruction : Stable nextInstruction := by
  refine stable_of_cut instructionCloser true
    (fun body => some (.instruction (body.take (body.length - 1)))) ?_
  intro input e rest h
  unfold nextInstruction at h
  split at h
  · cases h
  · cases h
  next body rest' hne hcut =>
  cases h
  exact ⟨body, hcut, rfl⟩

theorem stable_nextStop : Stable nextStop := by
  refine stable_of_cut tagCloser none
    (fun content => some (.stop content)) ?_
  intro input e rest h
  unfold nextStop at h
  split at h
  · cases h
  next content rest' hcut =>
  cases h
  exact ⟨content, hcut, rfl⟩

theorem stable_nextTag : Stable nextTag := by
  refine stable_of_cut tagCloser none
    (fun content =>
      if content.getLast? == some '/'.toUInt8 then
        some (.empty ⟨content.take (content.length - 1)⟩)
      else some (.start ⟨content⟩)) ?_
  intro input e rest h
  unfold nextTag at h
  split at h
  · cases h
  next content rest' hcut =>
  split at h
  · next hslash =>
      cases h
      exact ⟨content, hcut, if_pos hslash⟩
  · next hslash =>
      cases h
      exact ⟨content, hcut, if_neg hslash⟩

theorem stable_nextDeclaration : Stable nextDeclaration := by
  refine Stable.dispatch (fun b input =>
    if b == '['.toUInt8 then nextCdata (b :: input)
    else if b == '-'.toUInt8 then nextComment (b :: input)
    else if b == 'D'.toUInt8 || b == 'd'.toUInt8 then nextDoctype (b :: input)
    else .error .unknownMarkup) ?_ ⟨_, rfl⟩ fun b input => rfl
  intro b
  refine (stable_nextCdata.cons b).ite ((stable_nextComment.cons b).ite ?_)
  exact (stable_nextDoctype.cons b).ite (stable_error _)

theorem stable_nextMarkup : Stable nextMarkup := by
  refine Stable.dispatch (fun b input =>
    if b == '!'.toUInt8 then nextDeclaration input
    else if b == '?'.toUInt8 then nextInstruction input
    else if b == '/'.toUInt8 then nextStop input
    else nextTag (b :: input)) ?_ ⟨_, rfl⟩ fun b input => rfl
  intro b
  refine stable_nextDeclaration.ite (stable_nextInstruction.ite ?_)
  exact stable_nextStop.ite (stable_nextTag.cons b)

/-- The first bytes that satisfy a test, of an input and of a front part of
it. -/
theorem takeWhile_prefix {p : UInt8 → Bool} {input part : Bytes} (hpart : part <+: input) :
    (part.takeWhile p = input.takeWhile p ∧ part.dropWhile p <+: input.dropWhile p) ∨
      (part.takeWhile p <+: input.takeWhile p ∧ part.dropWhile p = []) := by
  induction part generalizing input with
  | nil => exact .inr ⟨List.nil_prefix, rfl⟩
  | cons b part ih =>
      obtain ⟨input, rfl, htail⟩ := List.cons_prefix_iff.mp hpart
      by_cases hb : p b = true
      · simp only [List.takeWhile_cons_of_pos hb, List.dropWhile_cons_of_pos hb,
          List.cons_prefix_cons, List.cons.injEq, true_and]
        exact ih htail
      · simp only [List.takeWhile_cons_of_neg hb, List.dropWhile_cons_of_neg hb]
        exact .inl ⟨trivial, hpart⟩

/-- From a front part of an input the same event is taken, or less of a text if
that is cut through. -/
theorem next_prefix {first : UInt8} {input part rest rest' : Bytes} {event event' : Event}
    (hpart : part <+: input) (h : Event.next first input = .ok (event, rest))
    (h' : Event.next first part = .ok (event', rest')) :
    (event' = event ∧ rest' <+: rest) ∨
      ∃ raw raw', event = .text raw ∧ event' = .text raw' ∧ raw' <+: raw ∧ rest' = [] := by
  unfold Event.next at h h'
  by_cases hfirst : (first == '<'.toUInt8) = true
  · rw [if_pos hfirst] at h h'
    exact .inl (stable_nextMarkup.same hpart h h')
  · rw [if_neg hfirst] at h h'
    cases h
    cases h'
    rcases takeWhile_prefix hpart with ⟨htake, hdrop⟩ | ⟨htake, hdrop⟩
    · exact .inl ⟨by rw [htake], hdrop⟩
    · exact .inr ⟨_, _, rfl, rfl, List.cons_prefix_cons.mpr ⟨rfl, htake⟩, hdrop⟩

/-! ### All events -/

def written (events : List Event) : Bytes :=
  events.flatMap Event.render

@[simp] theorem written_nil : written [] = [] := rfl

@[simp] theorem written_cons (event : Event) (events : List Event) :
    written (event :: events) = event.render ++ written events := rfl

@[simp] theorem written_append (first second : List Event) :
    written (first ++ second) = written first ++ written second :=
  List.flatMap_append

/-- The events of a whole input, inside some open elements. -/
inductive Spells : List Bytes → Bytes → List Event → Prop
  | nil (opened : List Bytes) : Spells opened [] []
  | cons {opened opened' : List Bytes} {b : UInt8} {input rest : Bytes} {event : Event}
      {events : List Event} (hnext : Event.next b input = .ok (event, rest))
      (hnest : nest opened event = .ok opened') (hrest : Spells opened' rest events) :
      Spells opened (b :: input) (event :: events)

/-- Where no fault is found, the transcript has the events of the input after
those read before. -/
theorem spells_of_transcribeFrom {position : Nat} {opened : List Bytes}
    {read : List (Nat × Event)} {input : Bytes}
    (hwhole : (transcribeFrom position opened read input).fault = none) :
    ∃ events, Spells opened input events ∧
      (transcribeFrom position opened read input).events.map Prod.snd =
        read.reverse.map Prod.snd ++ events := by
  fun_induction transcribeFrom position opened read input with
  | case1 position opened read => exact ⟨[], .nil opened, (List.append_nil _).symm⟩
  | case2 => cases hwhole
  | case3 => cases hwhole
  | case4 position opened read b input event rest hnext opened' hnest ih =>
      obtain ⟨events, hspells, hevents⟩ := ih hwhole
      refine ⟨event :: events, .cons hnext hnest hspells, ?_⟩
      rw [hevents]
      simp

theorem spells_of_transcribe {input : Bytes} (hwhole : (transcribe input).fault = none) :
    Spells [] (dropMark input) ((transcribe input).events.map Prod.snd) := by
  obtain ⟨events, hspells, hevents⟩ := spells_of_transcribeFrom hwhole
  rw [transcribe, hevents]
  exact hspells

theorem Spells.written {opened : List Bytes} {input : Bytes} {events : List Event}
    (h : Spells opened input events) : written events = input := by
  induction h with
  | nil => rfl
  | cons hnext hnest hrest ih => rw [written_cons, ih, ← render_next hnext]

/-- A front part has the events of the whole as far as it goes, but its last one
may be less of a text. -/
theorem Spells.front {opened : List Bytes} {input part : Bytes} {events events' : List Event}
    (h : Spells opened input events) (h' : Spells opened part events') (hpart : part <+: input) :
    events' <+: events ∨
      ∃ done raw raw' more, events = done ++ .text raw :: more ∧
        events' = done ++ [.text raw'] ∧ raw' <+: raw := by
  induction h generalizing part events' with
  | nil opened =>
      rw [List.prefix_nil] at hpart
      subst hpart
      cases h'
      exact .inl List.nil_prefix
  | @cons opened _ b input rest event events hnext hnest hrest ih =>
      cases h' with
      | nil => exact .inl List.nil_prefix
      | @cons _ _ _ part rest' event' events' hnext' hnest' hrest' =>
          obtain ⟨rfl, htail⟩ := List.cons_prefix_cons.mp hpart
          rcases next_prefix htail hnext hnext' with
            ⟨rfl, hrests⟩ | ⟨raw, raw', rfl, rfl, hraw, rfl⟩
          · -- the elements around the rest are the same too
            rw [hnest] at hnest'
            cases hnest'
            rcases ih hrest' hrests with hevents | ⟨done, raw, raw', more, rfl, rfl, hraw⟩
            · exact .inl (List.cons_prefix_cons.mpr ⟨rfl, hevents⟩)
            · exact .inr ⟨event' :: done, raw, raw', more, rfl, rfl, hraw⟩
          · cases hrest'
            exact .inr ⟨[], raw, raw', events, rfl, rfl, hraw⟩

/-! ### The byte order mark -/

def mark (input : Bytes) : Bytes :=
  input.take (input.length - (dropMark input).length)

theorem mark_eq (input : Bytes) :
    (mark input = [] ∧ dropMark input = input) ∨
      ∃ rest, input = 0xEF :: 0xBB :: 0xBF :: rest ∧ mark input = [0xEF, 0xBB, 0xBF] ∧
        dropMark input = rest := by
  unfold mark
  by_cases hmark : ∃ rest, input = 0xEF :: 0xBB :: 0xBF :: rest
  · obtain ⟨rest, rfl⟩ := hmark
    refine .inr ⟨rest, rfl, ?_, rfl⟩
    have hlength : (0xEF :: 0xBB :: 0xBF :: rest).length - rest.length = 3 := by
      simp only [List.length_cons]
      omega
    rw [dropMark, hlength]
    rfl
  · have hdrop : dropMark input = input := by
      unfold dropMark
      split
      · next rest => exact absurd ⟨rest, rfl⟩ hmark
      · rfl
    exact .inl ⟨by simp [hdrop], hdrop⟩

theorem mark_append_dropMark (input : Bytes) : mark input ++ dropMark input = input := by
  rcases mark_eq input with ⟨hmark, hdrop⟩ | ⟨rest, hinput, hmark, hdrop⟩
  · rw [hmark, hdrop, List.nil_append]
  · rw [hmark, hdrop, hinput]
    rfl

theorem dropMark_mark_append {input part : Bytes} (hpart : part <+: dropMark input) :
    dropMark (mark input ++ part) = part := by
  rcases mark_eq input with ⟨hmark, hdrop⟩ | ⟨rest, hinput, hmark, hdrop⟩
  · rw [hdrop] at hpart
    rw [hmark, List.nil_append]
    unfold dropMark
    split
    · next rest =>
        -- the mark would be that of the whole document too
        obtain ⟨more, rfl⟩ := hpart
        have hlength := congrArg List.length hdrop
        simp [dropMark] at hlength
        omega
    · rfl
  · rw [hmark]
    rfl

/-- A front part of a document has the same mark, if it goes beyond that. -/
theorem dropMark_take {input : Bytes} {size : Nat} (h : (mark input).length ≤ size) :
    dropMark (input.take size) = (dropMark input).take (size - (mark input).length) := by
  conv => lhs; rw [← mark_append_dropMark input, List.take_append, List.take_of_length_le h]
  exact dropMark_mark_append (List.take_prefix _ _)

end LazyGL.Markup
