import LazyGL.Proofs.Markup.Prefix
import LazyGL.Proofs.Reading.Descent
import LazyGL.Proofs.Reading.Forest

/-!
A document that breaks off inside a root element is no registry. If the cut goes
through markup, that is a fault. Otherwise the events up to the cut are those of
the whole document, up to a text that may have become shorter, and they leave the
root element open, so they are not the events of trees. Main statement: an
accepted document has trees, and every front part of it that ends inside one of
its root elements is refused.
-/

namespace LazyGL.Reading

open Markup (Event Tag written)

def Node.IsElement : Node → Prop
  | .element _ _ _ => True
  | .closed _ => True
  | _ => False

/-- The events of an element begin with a tag. -/
theorem Node.IsElement.ne_text {root : Node} (h : root.IsElement) {raw : Bytes}
    (after more : List Event) : root.events ++ after ≠ .text raw :: more := by
  cases root with
  | element tag children ending => exact nofun
  | closed tag => exact nofun
  | _ => exact h.elim

/-- Part of the events of an element leaves it open. -/
theorem Node.IsElement.depth_pos {root : Node} (h : root.IsElement) {part : List Event}
    (hpart : part <+: root.events) (hne : part ≠ []) (hproper : part ≠ root.events) :
    0 < depth part := by
  cases root with
  | element tag children ending => exact (balanced_eventsOf children).depth_pos hpart hne hproper
  | closed tag =>
      have hsingle : part <+: [] ++ [.empty tag] := hpart
      rcases List.prefix_concat_iff.mp hsingle with rfl | hpart
      · exact absurd rfl hproper
      · exact absurd (List.prefix_nil.mp hpart) hne
  | _ => exact h.elim

theorem length_written_le {first second : List Event} (h : first <+: second) :
    (written first).length ≤ (written second).length := by
  obtain ⟨rest, rfl⟩ := h
  simp

/-- The longer one of two front parts goes on from the shorter one. -/
theorem prefix_of_length_written {events first second : List Event} (h : first <+: events)
    (h' : second <+: events) (hlength : (written first).length < (written second).length) :
    first <+: second := by
  refine (List.prefix_or_prefix_of_prefix h h').resolve_right fun hsecond => ?_
  exact absurd (length_written_le hsecond) (by omega)

section Cut

variable {before after : List Node} {root : Node} {done : List Event}

/-- Some events after those before a root element leave the element open. -/
theorem depth_pos_of_prefix (hroot : root.IsElement)
    (hdone : done <+: eventsOf before ++ (root.events ++ eventsOf after))
    (hlow : eventsOf before <+: done) (hne : done ≠ eventsOf before)
    (hhigh : (written done).length < (written (eventsOf before ++ root.events)).length) :
    0 < depth done := by
  have hwhole : eventsOf before ++ root.events <+:
      eventsOf before ++ (root.events ++ eventsOf after) :=
    ⟨eventsOf after, List.append_assoc ..⟩
  have hpart := prefix_of_length_written hdone hwhole hhigh
  obtain ⟨part, rfl⟩ := hlow
  have hproper : part ≠ root.events := by
    rintro rfl
    exact absurd hhigh (lt_irrefl _)
  have hopen := hroot.depth_pos ((List.prefix_append_right_inj _).mp hpart)
    (by rintro rfl; simp at hne) hproper
  rw [depth_append, (balanced_eventsOf before).whole]
  omega

/-- The events of a document up to a place inside a root element, where a text
may be cut through, leave the element open. -/
theorem depth_pos_of_cut (hroot : root.IsElement)
    (hdone : done <+: eventsOf (before ++ root :: after) ∨
      ∃ whole raw raw' more, eventsOf (before ++ root :: after) = whole ++ .text raw :: more ∧
        done = whole ++ [.text raw'] ∧ raw' <+: raw)
    (hlow : (written (eventsOf before)).length < (written done).length)
    (hhigh : (written done).length < (written (eventsOf (before ++ [root]))).length) :
    0 < depth done := by
  rw [eventsOf_append, eventsOf] at hdone
  rw [eventsOf_append, eventsOf_singleton] at hhigh
  rcases hdone with hdone | ⟨whole, raw, raw', more, hevents, rfl, hraw⟩
  · refine depth_pos_of_prefix hroot hdone ?_ ?_ hhigh
    · exact prefix_of_length_written (List.prefix_append _ _) hdone hlow
    · rintro rfl
      exact absurd hlow (lt_irrefl _)
  · -- the text is after the start of the root element, so that is before the text
    have hshort := hraw.length_le
    have htext : whole ++ [.text raw] <+: eventsOf before ++ (root.events ++ eventsOf after) := by
      rw [hevents]
      exact ⟨more, by simp⟩
    simp only [Markup.written_append, Markup.written_cons, Markup.written_nil, Event.render,
      List.append_nil, List.length_append] at hlow hhigh
    have hfront : eventsOf before <+: whole ++ [.text raw] := by
      refine prefix_of_length_written (List.prefix_append _ _) htext ?_
      simp [Event.render]
      omega
    have hbefore : eventsOf before <+: whole := by
      refine (List.prefix_concat_iff.mp hfront).resolve_left fun h => ?_
      rw [h] at hlow
      simp [Event.render] at hlow
      omega
    have hopen : 0 < depth whole := by
      refine depth_pos_of_prefix hroot ((List.prefix_append _ _).trans htext) hbefore ?_ ?_
      · rintro rfl
        exact hroot.ne_text _ _ (List.append_cancel_left hevents)
      · simp
        omega
    rw [depth_append]
    have hzero : depth [.text raw'] = 0 := rfl
    omega

end Cut

/-- A document that is accepted is the written form of its trees after its byte
order mark. Wherever it breaks off after the first byte of a root element and
before the last one, it is refused. -/
theorem ofDocument_truncated {input : Bytes} {r : Registry}
    (haccepted : Registry.ofDocument input = .ok r) :
    (∃ document, (Markup.transcribe input).events.map Prod.snd = eventsOf document) ∧
      ∀ document, (Markup.transcribe input).events.map Prod.snd = eventsOf document →
        input = Markup.mark input ++ written (eventsOf document) ∧
          ∀ before root after, document = before ++ root :: after → root.IsElement →
            ∀ size, (Markup.mark input ++ written (eventsOf before)).length < size →
              size < (Markup.mark input ++ written (eventsOf (before ++ [root]))).length →
                ∃ fault, Registry.ofDocument (input.take size) = .error fault := by
  refine ⟨exists_eventsOf haccepted, fun document hevents => ?_⟩
  obtain ⟨-, -, hwhole, -, -⟩ := run_of_ofDocument haccepted
  have hspells := Markup.spells_of_transcribe hwhole
  rw [hevents] at hspells
  have hinput : input = Markup.mark input ++ written (eventsOf document) := by
    rw [hspells.written, Markup.mark_append_dropMark]
  refine ⟨hinput, ?_⟩
  rintro before root after rfl hroot size hlow hhigh
  rw [List.length_append] at hlow hhigh
  cases hcut : Registry.ofDocument (input.take size) with
  | error fault => exact ⟨fault, rfl⟩
  | ok r' =>
      -- what is left would have trees of its own
      obtain ⟨trees, htrees⟩ := exists_eventsOf hcut
      obtain ⟨-, -, hwhole', -, -⟩ := run_of_ofDocument hcut
      have hspells' := Markup.spells_of_transcribe hwhole'
      rw [htrees, Markup.dropMark_take (by omega)] at hspells'
      have hroom : (written (eventsOf (before ++ [root]))).length ≤
          (Markup.dropMark input).length := by
        rw [← hspells.written]
        refine length_written_le ⟨eventsOf after, ?_⟩
        rw [← eventsOf_append, List.append_assoc, List.singleton_append]
      have hsize : (written (eventsOf trees)).length = size - (Markup.mark input).length := by
        rw [hspells'.written, List.length_take]
        omega
      have hopen := depth_pos_of_cut hroot (hspells.front hspells' (List.take_prefix _ _))
        (by omega) (by omega)
      rw [(balanced_eventsOf trees).whole] at hopen
      exact absurd hopen (lt_irrefl 0)

theorem ofDocument_truncated_comment :
    let input := Utf8.ofString "<!-- a --><r>b<!-- </r> --><s c='>'/></r >"
    ∀ size, 10 < size → size < 42 →
      ∃ fault, Registry.ofDocument (input.take size) = .error fault := by
  intro input
  let document : List Node :=
    [.comment (Utf8.ofString " a "),
      .element ⟨Utf8.ofString "r"⟩
        [.text (Utf8.ofString "b"), .comment (Utf8.ofString " </r> "),
          .closed ⟨Utf8.ofString "s c='>'"⟩] (Utf8.ofString "r ")]
  have hwhole : (Markup.transcribe input).fault = none := by decide +kernel
  have hevents : (Markup.transcribe input).events.map Prod.snd = eventsOf document := by
    decide +kernel
  have hread : readTrees document = .ok { } := by decide +kernel
  obtain ⟨-, hrefused⟩ := ofDocument_truncated (ofDocument_of_readTrees hwhole hevents hread)
  obtain ⟨-, hrefused⟩ := hrefused document hevents
  exact hrefused [document[0]] document[1] [] rfl trivial

end LazyGL.Reading
