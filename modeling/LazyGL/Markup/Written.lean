import LazyGL.Markup.Transcript

/-!
What is taken off the input is the written form of the event that was taken, to
the byte. So the written forms of a transcript's events, one after the other,
are the document up to the place where the transcript ends.
-/

namespace LazyGL.Markup

/-- What is cut off, the closing bracket and the rest are the input again. -/
theorem Closer.cut_append {σ : Type} {closer : Closer σ} {state : σ}
    {read input body rest : Bytes}
    (h : closer.cut state read input = some (body, rest)) :
    read.reverse ++ input = body ++ '>'.toUInt8 :: rest := by
  induction input generalizing state read with
  | nil => simp [Closer.cut] at h
  | cons b input ih =>
      rw [Closer.cut] at h
      split at h
      · next hclose =>
          simp only [Bool.and_eq_true, beq_iff_eq] at hclose
          simp only [Option.some.injEq, Prod.mk.injEq] at h
          rw [← h.1, ← h.2, hclose.1]
      · have := ih h
        simpa using this

/-- What holds of the state and the bytes before the first one and is kept by
every byte holds where the bracket closes. -/
theorem Closer.cut_invariant {σ : Type} {closer : Closer σ} (P : σ → Bytes → Prop)
    (hkeep : ∀ s r b, P s r → P (closer.advance s b) (b :: r)) {state : σ}
    {read input body rest : Bytes} (hstart : P state read)
    (h : closer.cut state read input = some (body, rest)) :
    ∃ s, closer.closes s = true ∧ P s body.reverse := by
  induction input generalizing state read with
  | nil => simp [Closer.cut] at h
  | cons b input ih =>
      rw [Closer.cut] at h
      split at h
      · next hclose =>
          simp only [Bool.and_eq_true] at hclose
          simp only [Option.some.injEq, Prod.mk.injEq] at h
          refine ⟨state, hclose.2, ?_⟩
          rw [← h.1, List.reverse_reverse]
          exact hstart
      · exact ih (hkeep _ _ _ hstart) h

/-- The bytes end, and so their reverse begins, with `count` copies of `b`. -/
def EndsWith (b : UInt8) (count : Nat) (reversed : Bytes) : Prop :=
  ∃ before, reversed = List.replicate count b ++ before

theorem endsWith_two {b : UInt8} {count : Nat} {body : Bytes} (hcount : 2 ≤ count)
    (h : EndsWith b count body.reverse) : ∃ before, body = before ++ [b, b] := by
  obtain ⟨before, h⟩ := h
  obtain ⟨more, rfl⟩ := Nat.exists_eq_add_of_le' hcount
  refine ⟨(List.replicate more b ++ before).reverse, ?_⟩
  have := congrArg List.reverse h
  simpa [List.replicate_succ] using this

theorem endsWith_step {a b : UInt8} {count : Nat} {reversed : Bytes}
    (h : EndsWith a count reversed) :
    EndsWith a (if (b == a) = true then count + 1 else 0) (b :: reversed) := by
  obtain ⟨before, rfl⟩ := h
  by_cases hb : b = a
  · subst hb
    exact ⟨before, by simp [List.replicate_succ]⟩
  · exact ⟨b :: (List.replicate count a ++ before), by simp [hb]⟩

/-- The last two bytes of a whole are those of its second part, if that is long
enough. -/
theorem take_append_of_ends {b : UInt8} {front raw before : Bytes} (hraw : 2 ≤ raw.length)
    (h : front ++ raw = before ++ [b, b]) : raw.take (raw.length - 2) ++ [b, b] = raw := by
  have hlength := congrArg List.length h
  simp only [List.length_append, List.length_cons, List.length_nil] at hlength
  have hdrop : raw.drop (raw.length - 2) = [b, b] := by
    have hwhole := congrArg (List.drop before.length) h
    rw [List.drop_append, List.drop_append] at hwhole
    have hindex : before.length - front.length = raw.length - 2 := by omega
    rw [hindex] at hwhole
    simpa [List.drop_eq_nil_of_le (show front.length ≤ before.length by omega)] using hwhole
  rw [← hdrop, List.take_append_drop]

theorem render_nextCdata {input rest : Bytes} {event : Event}
    (h : nextCdata input = .ok (event, rest)) :
    Utf8.ofString "<!" ++ input = event.render ++ rest := by
  unfold nextCdata at h
  split at h
  · simp at h
  · next body rest' hcut =>
      obtain ⟨count, hcount, hends⟩ := Closer.cut_invariant (fun s r => EndsWith ']'.toUInt8 s r)
        (fun s r b h => endsWith_step h) ⟨[], rfl⟩ hcut
      obtain ⟨before, hbefore⟩ := endsWith_two (by simpa [cdataCloser] using hcount) hends
      split at h
      · simp at h
      · next raw hraw =>
          simp only [Except.ok.injEq, Prod.mk.injEq] at h
          have hbody := eq_append_of_afterFront? hraw
          have hfront : Utf8.ofString "[CDATA[" = [91, 67, 68, 65, 84, 65, 91] := by decide
          have htwo : 2 ≤ raw.length := by
            rw [hfront] at hbody
            have hlast := congrArg List.reverse (hbody.symm.trans hbefore)
            have hbracket : (91 : UInt8) ≠ ']'.toUInt8 := by decide
            cases raw with
            | nil => simp [hbracket] at hlast
            | cons x raw =>
                cases raw with
                | nil => simp [hbracket] at hlast
                | cons y raw => simp
          have hinput := Closer.cut_append hcut
          rw [List.reverse_nil, List.nil_append] at hinput
          rw [hinput, ← h.1, ← h.2, hbody, Event.render]
          conv => lhs; rw [← take_append_of_ends htwo (hbody.symm.trans hbefore)]
          have hopen : Utf8.ofString "<![CDATA[" =
              Utf8.ofString "<!" ++ Utf8.ofString "[CDATA[" := by
            decide
          have hclose : Utf8.ofString "]]>" = [']'.toUInt8, ']'.toUInt8] ++ ['>'.toUInt8] := by
            decide
          rw [hopen, hclose]
          simp

theorem render_nextComment {input rest : Bytes} {event : Event}
    (h : nextComment input = .ok (event, rest)) :
    Utf8.ofString "<!" ++ input = event.render ++ rest := by
  unfold nextComment at h
  split at h
  · simp at h
  · next body rest' hcut =>
      obtain ⟨s, hcloses, hsize, hends⟩ := Closer.cut_invariant
        (fun s r => s.1 = r.length ∧ EndsWith '-'.toUInt8 s.2 r)
        (fun s r b h => ⟨by simp [commentCloser, h.1], endsWith_step h.2⟩) ⟨rfl, [], rfl⟩ hcut
      simp only [commentCloser, Bool.and_eq_true, decide_eq_true_eq] at hcloses
      obtain ⟨before, hbefore⟩ := endsWith_two hcloses.2 hends
      split at h
      · simp at h
      · next raw hraw =>
          simp only [Except.ok.injEq, Prod.mk.injEq] at h
          have hbody := eq_append_of_afterFront? hraw
          have hdashes : Utf8.ofString "--" = ['-'.toUInt8, '-'.toUInt8] := by decide
          have htwo : 2 ≤ raw.length := by
            have hlength := congrArg List.length hbody
            rw [List.length_append, hdashes] at hlength
            rw [List.length_reverse] at hsize
            simp only [List.length_cons, List.length_nil] at hlength
            omega
          have hinput := Closer.cut_append hcut
          rw [List.reverse_nil, List.nil_append] at hinput
          rw [hinput, ← h.1, ← h.2, hbody, Event.render]
          conv => lhs; rw [← take_append_of_ends htwo (hbody.symm.trans hbefore)]
          have hopen : Utf8.ofString "<!--" = Utf8.ofString "<!" ++ Utf8.ofString "--" := by
            decide
          have hclose : Utf8.ofString "-->" = ['-'.toUInt8, '-'.toUInt8] ++ ['>'.toUInt8] := by
            decide
          rw [hopen, hclose]
          simp

theorem render_nextDoctype {input rest : Bytes} {event : Event}
    (h : nextDoctype input = .ok (event, rest)) :
    Utf8.ofString "<!" ++ input = event.render ++ rest := by
  unfold nextDoctype at h
  split at h
  · simp at h
  · next body rest' hcut =>
      split at h
      · split at h
        · simp at h
        · simp only [Except.ok.injEq, Prod.mk.injEq] at h
          have hinput := Closer.cut_append hcut
          have hclose : Utf8.ofString ">" = ['>'.toUInt8] := by decide
          rw [List.reverse_nil, List.nil_append] at hinput
          rw [hinput, ← h.1, ← h.2, Event.render, hclose]
          simp
      · simp at h

theorem render_nextDeclaration {input rest : Bytes} {event : Event}
    (h : nextDeclaration input = .ok (event, rest)) :
    Utf8.ofString "<!" ++ input = event.render ++ rest := by
  unfold nextDeclaration at h
  split at h
  · simp at h
  · split at h
    · exact render_nextCdata h
    · split at h
      · exact render_nextComment h
      · split at h
        · exact render_nextDoctype h
        · simp at h

/-- A question mark is the byte just read, or no byte has been read. -/
def Marked (marked : Bool) (reversed : Bytes) : Prop :=
  marked = (reversed.head?.map (· == '?'.toUInt8)).getD true

theorem marked_advance (marked : Bool) (reversed : Bytes) (b : UInt8)
    (_ : Marked marked reversed) :
    Marked (instructionCloser.advance marked b) (b :: reversed) :=
  rfl

theorem render_nextInstruction {input rest : Bytes} {event : Event}
    (h : nextInstruction input = .ok (event, rest)) :
    Utf8.ofString "<?" ++ input = event.render ++ rest := by
  unfold nextInstruction at h
  split at h
  · simp at h
  · simp at h
  · next body rest' hne hcut =>
      simp only [Except.ok.injEq, Prod.mk.injEq] at h
      obtain ⟨marked, hcloses, hmark⟩ := Closer.cut_invariant
        Marked marked_advance (show Marked true [] from rfl) hcut
      have hlast : ∃ before, body = before ++ ['?'.toUInt8] := by
        cases hreverse : body.reverse with
        | nil => exact absurd (List.reverse_eq_nil_iff.mp hreverse) hne
        | cons b before =>
            rw [hreverse] at hmark
            simp only [instructionCloser] at hcloses
            rw [hcloses, Marked, List.head?_cons, Option.map_some, Option.getD_some] at hmark
            refine ⟨before.reverse, ?_⟩
            have := congrArg List.reverse hreverse
            simp only [List.reverse_reverse, List.reverse_cons] at this
            rw [this, beq_iff_eq.mp hmark.symm]
      obtain ⟨before, hbefore⟩ := hlast
      have hinput := Closer.cut_append hcut
      have hclose : Utf8.ofString "?>" = ['?'.toUInt8] ++ ['>'.toUInt8] := by decide
      rw [List.reverse_nil, List.nil_append] at hinput
      rw [hinput, ← h.1, ← h.2, Event.render, hclose, hbefore]
      simp

theorem render_nextStop {input rest : Bytes} {event : Event}
    (h : nextStop input = .ok (event, rest)) :
    Utf8.ofString "</" ++ input = event.render ++ rest := by
  unfold nextStop at h
  split at h
  · simp at h
  · next content rest' hcut =>
      simp only [Except.ok.injEq, Prod.mk.injEq] at h
      have hinput := Closer.cut_append hcut
      have hclose : Utf8.ofString ">" = ['>'.toUInt8] := by decide
      rw [List.reverse_nil, List.nil_append] at hinput
      rw [hinput, ← h.1, ← h.2, Event.render, hclose]
      simp

theorem render_nextTag {input rest : Bytes} {event : Event}
    (h : nextTag input = .ok (event, rest)) :
    Utf8.ofString "<" ++ input = event.render ++ rest := by
  unfold nextTag at h
  split at h
  · simp at h
  · next content rest' hcut =>
      have hinput := Closer.cut_append hcut
      rw [List.reverse_nil, List.nil_append] at hinput
      split at h
      · next hslash =>
          simp only [Except.ok.injEq, Prod.mk.injEq] at h
          obtain ⟨before, hbefore⟩ := List.getLast?_eq_some_iff.mp (beq_iff_eq.mp hslash)
          have hclose : Utf8.ofString "/>" = ['/'.toUInt8] ++ ['>'.toUInt8] := by decide
          rw [hinput, ← h.1, ← h.2, Event.render, hclose, hbefore]
          simp
      · simp only [Except.ok.injEq, Prod.mk.injEq] at h
        have hclose : Utf8.ofString ">" = ['>'.toUInt8] := by decide
        rw [hinput, ← h.1, ← h.2, Event.render, hclose]
        simp

theorem render_nextMarkup {input rest : Bytes} {event : Event}
    (h : nextMarkup input = .ok (event, rest)) :
    Utf8.ofString "<" ++ input = event.render ++ rest := by
  unfold nextMarkup at h
  split at h
  · simp at h
  · next b tail =>
      split at h
      · next hb =>
          rw [← render_nextDeclaration h, beq_iff_eq.mp hb]
          rfl
      · split at h
        · next hb =>
            rw [← render_nextInstruction h, beq_iff_eq.mp hb]
            rfl
        · split at h
          · next hb =>
              rw [← render_nextStop h, beq_iff_eq.mp hb]
              rfl
          · exact render_nextTag h

/-- An event's written form and the rest are the input. -/
theorem render_next {first : UInt8} {input rest : Bytes} {event : Event}
    (h : Event.next first input = .ok (event, rest)) :
    first :: input = event.render ++ rest := by
  unfold Event.next at h
  split at h
  · next hfirst =>
      rw [← render_nextMarkup h, beq_iff_eq.mp hfirst]
      rfl
  · simp only [Except.ok.injEq, Prod.mk.injEq] at h
    rw [← h.1, ← h.2, Event.render, List.cons_append, List.takeWhile_append_dropWhile]

end LazyGL.Markup
