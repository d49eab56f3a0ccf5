import LazyGL.Proofs.Reading.Nesting
import Mathlib.Algebra.Order.Group.Int

/-!
The events of an accepted document are those of trees. While a document is read,
its events so far are those of some complete nodes and of the elements around
them that are still open, one for each scope on the stack. Once they are trees,
a start tag and its end tag balance, so what breaks off inside an element is not
the events of trees any more.
-/

namespace LazyGL.Reading

open Markup (Event Tag)

theorem eventsOf_append (first second : List Node) :
    eventsOf (first ++ second) = eventsOf first ++ eventsOf second := by
  induction first with
  | nil => rfl
  | cons node first ih => rw [List.cons_append, eventsOf, ih, eventsOf, List.append_assoc]

theorem eventsOf_singleton (node : Node) : eventsOf [node] = node.events := by
  rw [eventsOf, eventsOf, List.append_nil]

/-! ### Trees from events -/

/-- The events before the innermost open element's first child. Each open
element, the innermost first, is given by the nodes before it and its tag. -/
def opening : List (List Node × Tag) → List Event
  | [] => []
  | (before, tag) :: outer => opening outer ++ eventsOf before ++ [.start tag]

/-- The events so far are those of complete nodes inside open elements, as many
as the scopes inside the document. -/
def Grown (done : List Event) (s : State) : Prop :=
  ∃ opened nodes, done = opening opened ++ eventsOf nodes ∧ s.scopes.length = opened.length + 1

/-- An event that is a node by itself leaves the scopes alone. -/
theorem Grown.push {done : List Event} {s next : State} (h : Grown done s) (node : Node)
    {event : Event} (hnode : node.events = [event]) (hscopes : next.scopes = s.scopes) :
    Grown (done ++ [event]) next := by
  obtain ⟨opened, nodes, rfl, hlength⟩ := h
  refine ⟨opened, nodes ++ [node], ?_, by rw [hscopes, hlength]⟩
  rw [eventsOf_append, eventsOf_singleton, hnode, List.append_assoc]

theorem Nested.eq_document {scopes : List Scope} (h : Nested scopes) (hlength : scopes.length = 1) :
    scopes = [.document] := by
  cases h with
  | document => rfl
  | element name h => simp at hlength

theorem Grown.step {done : List Event} {s next : State} {event : Event} (h : Grown done s)
    (hnested : Nested s.scopes) (hstep : s.step event = .ok next) :
    Grown (done ++ [event]) next := by
  have hscopes := State.scopes_step hstep
  cases event with
  | start tag =>
      obtain ⟨opened, nodes, rfl, hlength⟩ := h
      refine ⟨(nodes, tag) :: opened, [], ?_, by simp [hscopes, State.scopesAfter, hlength]⟩
      rw [opening, eventsOf, List.append_nil]
  | stop content =>
      obtain ⟨opened, nodes, rfl, hlength⟩ := h
      cases opened with
      | nil =>
          -- only the document itself is around the event
          have htop : s.top = .document := by
            rw [State.top, hnested.eq_document hlength]
            rfl
          rw [State.step, if_pos htop] at hstep
          cases hstep
      | cons frame opened =>
          obtain ⟨before, tag⟩ := frame
          refine ⟨opened, before ++ [.element tag nodes content], ?_,
            by simp [hscopes, State.scopesAfter, hlength]⟩
          rw [eventsOf_append, eventsOf_singleton, Node.events, opening]
          simp
  | empty tag => exact h.push (.closed tag) rfl hscopes
  | text raw => exact h.push (.text raw) rfl hscopes
  | cdata raw => exact h.push (.cdata raw) rfl hscopes
  | comment body => exact h.push (.comment body) rfl hscopes
  | instruction body => exact h.push (.instruction body) rfl hscopes
  | doctype body => exact h.push (.doctype body) rfl hscopes

theorem Grown.run {done : List Event} {s next : State} {events : List (Nat × Event)}
    (h : Grown done s) (hnested : Nested s.scopes) (hrun : s.run events = .ok next) :
    Grown (done ++ events.map Prod.snd) next := by
  induction events generalizing done s with
  | nil =>
      cases hrun
      rwa [List.map_nil, List.append_nil]
  | cons entry events ih =>
      rw [State.run] at hrun
      split at hrun
      · cases hrun
      next middle hstep =>
      have hmiddle : Nested middle.scopes :=
        State.step_invariant (P := fun s => Nested s.scopes) (fun _ _ hmove h => h.move hmove)
          hstep hnested
      have hgrown := ih (h.step hnested hstep) hmiddle hrun
      rwa [List.append_assoc] at hgrown

/-- The events of an accepted document are those of its trees. -/
theorem exists_eventsOf {input : Bytes} {r : Registry} (h : Registry.ofDocument input = .ok r) :
    ∃ document, (Markup.transcribe input).events.map Prod.snd = eventsOf document := by
  obtain ⟨s, hrun, -, hscopes, -⟩ := run_of_ofDocument h
  have hstart : Grown [] { } := ⟨[], [], rfl, rfl⟩
  obtain ⟨opened, nodes, hevents, hlength⟩ := hstart.run .document hrun
  rw [hscopes] at hlength
  obtain rfl : opened = [] := List.length_eq_zero_iff.mp (by omega)
  exact ⟨nodes, by simpa [opening] using hevents⟩

/-! ### Balance -/

/-- The elements that an event opens, less those that it closes. -/
def turn : Event → Int
  | .start _ => 1
  | .stop _ => -1
  | _ => 0

def depth : List Event → Int
  | [] => 0
  | event :: events => turn event + depth events

@[simp] theorem depth_append (first second : List Event) :
    depth (first ++ second) = depth first + depth second := by
  induction first with
  | nil => rw [List.nil_append, depth, Int.zero_add]
  | cons event first ih => rw [List.cons_append, depth, depth, ih, Int.add_assoc]

/-- Some events close all that they open, and nothing else. -/
structure Balanced (events : List Event) : Prop where
  whole : depth events = 0
  part : ∀ part, part <+: events → 0 ≤ depth part

theorem balanced_nil : Balanced [] := by
  refine ⟨rfl, fun part hpart => ?_⟩
  rw [List.prefix_nil.mp hpart]
  rfl

theorem balanced_singleton {event : Event} (h : depth [event] = 0) : Balanced [event] := by
  refine ⟨h, fun part hpart => ?_⟩
  rcases List.prefix_concat_iff.mp (show part <+: [] ++ [event] from hpart) with rfl | hpart
  · exact h.ge
  · exact balanced_nil.part part hpart

theorem Balanced.append {first second : List Event} (h : Balanced first) (h' : Balanced second) :
    Balanced (first ++ second) := by
  refine ⟨by rw [depth_append, h.whole, h'.whole]; rfl, fun part hpart => ?_⟩
  have hfirst := List.prefix_append first second
  rcases List.prefix_or_prefix_of_prefix hpart hfirst with hpart' | hpart'
  · exact h.part part hpart'
  · obtain ⟨rest, rfl⟩ := hpart'
    rw [depth_append, h.whole, Int.zero_add]
    exact h'.part rest ((List.prefix_append_right_inj first).mp hpart)

/-- Inside an element one element at least is open. -/
theorem Balanced.depth_pos {inner part : List Event} (h : Balanced inner) {tag : Tag}
    {ending : Bytes} (hpart : part <+: .start tag :: (inner ++ [.stop ending])) (hne : part ≠ [])
    (hproper : part ≠ .start tag :: (inner ++ [.stop ending])) : 0 < depth part := by
  obtain ⟨event, part, rfl⟩ := List.exists_cons_of_ne_nil hne
  obtain ⟨rfl, htail⟩ := List.cons_prefix_cons.mp hpart
  rcases List.prefix_concat_iff.mp htail with rfl | htail
  · exact absurd rfl hproper
  · have hinner := h.part part htail
    have hdepth : depth (.start tag :: part) = 1 + depth part := rfl
    omega

theorem Balanced.element {inner : List Event} (h : Balanced inner) (tag : Tag) (ending : Bytes) :
    Balanced (.start tag :: (inner ++ [.stop ending])) := by
  have hwhole : depth (.start tag :: (inner ++ [.stop ending])) = 0 := by
    rw [← List.singleton_append, depth_append, depth_append, h.whole]
    rfl
  refine ⟨hwhole, fun part hpart => ?_⟩
  by_cases hne : part = []
  · rw [hne]
    rfl
  by_cases hproper : part = .start tag :: (inner ++ [.stop ending])
  · rw [hproper, hwhole]
  · exact (h.depth_pos hpart hne hproper).le

mutual

theorem balanced_events (node : Node) : Balanced node.events := by
  cases node with
  | element tag children ending => exact (balanced_eventsOf children).element tag ending
  | closed tag => exact balanced_singleton rfl
  | text raw => exact balanced_singleton rfl
  | cdata raw => exact balanced_singleton rfl
  | comment body => exact balanced_singleton rfl
  | instruction body => exact balanced_singleton rfl
  | doctype body => exact balanced_singleton rfl

theorem balanced_eventsOf (nodes : List Node) : Balanced (eventsOf nodes) := by
  cases nodes with
  | nil => exact balanced_nil
  | cons node rest => exact (balanced_events node).append (balanced_eventsOf rest)

end

end LazyGL.Reading
