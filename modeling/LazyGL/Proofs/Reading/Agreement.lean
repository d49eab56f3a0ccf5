import Mathlib.Logic.Basic
import LazyGL.Proofs.Reading.Walk

/-!
A walk that changes a draft and a recursive reading agree if they meet the same
fault or both succeed with related results. Agreement goes through sequencing
and through the children of an element, so it is enough to look at one text and
at one element of each scope.
-/

namespace LazyGL.Reading

/-- Both readings meet the same fault, or both succeed with results that `R`
relates. -/
inductive Agree {α β : Type} (R : α → β → Prop) : Except Fault α → Except Fault β → Prop
  | ok {a : α} {b : β} (h : R a b) : Agree R (.ok a) (.ok b)
  | error (fault : Fault) : Agree R (.error fault) (.error fault)

namespace Agree

variable {α β γ δ : Type} {R : α → β → Prop} {S : γ → δ → Prop}

theorem bind {x : Except Fault α} {y : Except Fault β} {f : α → Except Fault γ}
    {g : β → Except Fault δ} (h : Agree R x y) (hnext : ∀ a b, R a b → Agree S (f a) (g b)) :
    Agree S (x >>= f) (y >>= g) := by
  cases h with
  | ok h => exact hnext _ _ h
  | error fault => exact .error fault

/-- Two readings that begin alike agree if they go on alike. -/
theorem bind_same {x : Except Fault α} {f : α → Except Fault γ} {g : α → Except Fault δ}
    (hnext : ∀ a, Agree S (f a) (g a)) : Agree S (x >>= f) (x >>= g) := by
  cases x with
  | ok a => exact hnext a
  | error fault => exact .error fault

/-- Only the first reading goes on. -/
theorem bind_left {x : Except Fault α} {y : Except Fault β} {f : α → Except Fault γ}
    {S : γ → β → Prop} (h : Agree R x y) (hnext : ∀ a b, R a b → Agree S (f a) (.ok b)) :
    Agree S (x >>= f) y := by
  have hbind := h.bind hnext
  rwa [show (y >>= .ok) = y from bind_pure y] at hbind

/-- A reading agrees with itself. -/
theorem refl {R : α → α → Prop} (hR : ∀ a, R a a) (x : Except Fault α) : Agree R x x := by
  cases x with
  | ok a => exact .ok (hR a)
  | error fault => exact .error fault

/-- Both readings take the same branch. -/
theorem ite {c : Prop} [Decidable c] {x x' : Except Fault α} {y y' : Except Fault β}
    (h : c → Agree R x y) (h' : ¬c → Agree R x' y') :
    Agree R (if c then x else x') (if c then y else y') := by
  by_cases hc : c
  · rw [if_pos hc, if_pos hc]
    exact h hc
  · rw [if_neg hc, if_neg hc]
    exact h' hc

/-- Both readings refuse a name that has been used. -/
theorem ifNew {names : Std.HashSet String} {used : List String} {name : String} {fault : Fault}
    {x : Except Fault α} {y : Except Fault β} (hname : name ∈ names ↔ name ∈ used)
    (h : name ∉ used → Agree R x y) :
    Agree R (if names.contains name then .error fault else x)
      (if name ∈ used then .error fault else y) := by
  rw [← Std.HashSet.contains_iff_mem] at hname
  by_cases hused : name ∈ used
  · rw [if_pos hused, if_pos (hname.mpr hused)]
    exact .error fault
  · rw [if_neg hused, if_neg (hname.not.mpr hused)]
    exact h hused

end Agree

/-! ### Elements -/

def Draft.walkElement (scope : Scope) (d : Draft) (tag : Markup.Tag) (children : List Node) :
    Except Fault Draft := do
  let d ← d.enter scope tag
  let d ← walkAll scope d children
  d.leave scope

/-- A walk through the children of an element agrees with a reading of them if
it does so at each text and at each element. -/
theorem agree_inside {α : Type} {R : Draft → α → Prop} (scope : Scope)
    {hear : α → String → α} {visit : Visit α}
    (hhear : ∀ d a text, R d a → Agree R (d.say scope text) (.ok (hear a text)))
    (hvisit : ∀ d a tag children, R d a →
      Agree R (d.walkElement (scope.child tag.localName) tag children) (visit a tag children))
    {d : Draft} {a : α} (h : R d a) (nodes : List Node) :
    Agree R (walkAll scope d nodes) (inside hear visit a nodes) := by
  induction nodes generalizing d a with
  | nil => exact .ok h
  | cons node nodes ih =>
      rw [walkAll, inside, List.foldlM_cons]
      -- the rest of the children agrees from whatever the first one leaves
      refine Agree.bind (R := R) ?_ fun d a h => ih h
      cases node with
      | element tag children ending => exact hvisit d a tag children h
      | closed tag => exact hvisit d a tag [] h
      | text raw =>
          rw [Draft.walk, Node.fold]
          cases escaped raw with
          | error fault => exact .error fault
          | ok text => exact hhear d a text h
      | cdata raw =>
          rw [Draft.walk, Node.fold]
          cases verbatim raw with
          | error fault => exact .error fault
          | ok text => exact hhear d a text h
      | comment body => exact .ok h
      | instruction body => exact .ok h
      | doctype body => exact .ok h

/-! ### Scopes inside which nothing has a meaning -/

/-- Only the start of an element of the scope may change a draft. -/
structure Inert (scope : Scope) : Prop where
  child : ∀ name, scope.child name = .ignored
  say : ∀ (d : Draft) (text : String), d.say scope text = .ok d
  leave : ∀ d : Draft, d.leave scope = .ok d

theorem inert_ignored : Inert .ignored := ⟨fun _ => rfl, fun _ _ => rfl, fun _ => rfl⟩

theorem inert_groupMember : Inert .groupMember := ⟨fun _ => rfl, fun _ _ => rfl, fun _ => rfl⟩

theorem inert_enumEntry : Inert .enumEntry := ⟨fun _ => rfl, fun _ _ => rfl, fun _ => rfl⟩

theorem inert_extensionCommand : Inert .extensionCommand :=
  ⟨fun _ => rfl, fun _ _ => rfl, fun _ => rfl⟩

theorem inert_featureCommand (change : Change) : Inert (.featureCommand change) :=
  ⟨fun _ => rfl, fun _ _ => rfl, fun _ => rfl⟩

mutual

theorem Inert.walk {scope : Scope} (h : Inert scope) (d : Draft) (node : Node) :
    d.walk scope node = (fun _ => d) <$> node.skip := by
  cases node with
  | element tag children ending =>
      -- whatever the scope is, its elements are ignored, and ignored ones are inert too
      rw [Draft.walk, h.child, Node.skip, ← Inert.walkAll inert_ignored d children]
      exact bind_pure (LazyGL.Reading.walkAll .ignored d children)
  | closed tag => rw [Draft.walk, h.child]; rfl
  | text raw =>
      rw [Draft.walk, Node.skip]
      cases escaped raw with
      | error fault => rfl
      | ok text => exact h.say d text
  | cdata raw =>
      rw [Draft.walk, Node.skip]
      cases verbatim raw with
      | error fault => rfl
      | ok text => exact h.say d text
  | comment body => rfl
  | instruction body => rfl
  | doctype body => rfl

/-- A walk inside an inert element only looks at the texts. -/
theorem Inert.walkAll {scope : Scope} (h : Inert scope) (d : Draft) (nodes : List Node) :
    walkAll scope d nodes = (fun _ => d) <$> skipAll nodes := by
  cases nodes with
  | nil => rfl
  | cons node rest =>
      rw [LazyGL.Reading.walkAll, skipAll, Inert.walk h d node]
      cases node.skip with
      | error fault => rfl
      | ok _ => exact Inert.walkAll h d rest

end

theorem Inert.walkElement {scope : Scope} (h : Inert scope) (d : Draft) (tag : Markup.Tag)
    (children : List Node) :
    d.walkElement scope tag children =
      d.enter scope tag >>= fun d => skipAll children >>= fun _ => .ok d := by
  rw [Draft.walkElement]
  refine congrArg _ (funext fun entered => ?_)
  rw [h.walkAll]
  cases skipAll children with
  | error fault => rfl
  | ok _ => exact h.leave entered

theorem agree_ignored {α : Type} {R : Draft → α → Prop} {d : Draft} {a : α} (h : R d a)
    (tag : Markup.Tag) (children : List Node) :
    Agree R (d.walkElement .ignored tag children) (ignored a tag children) := by
  rw [inert_ignored.walkElement, ignored]
  exact Agree.bind_same fun _ => .ok h

/-- An element that puts its direct text together piece by piece agrees with one
that has the text at once. -/
theorem agree_text {α : Type} {R : Draft → α → Prop} (scope : Scope) {d : Draft}
    {put : String → Draft} {result : String → α} (hput : put "" = d)
    (hchild : ∀ name, scope.child name = .ignored)
    (henter : ∀ (d : Draft) (tag : Markup.Tag), d.enter scope tag = .ok d)
    (hsay : ∀ a text, (put a).say scope text = .ok (put (a ++ text)))
    (hleave : ∀ text, Agree R ((put text).leave scope) (.ok (result text)))
    (tag : Markup.Tag) (children : List Node) :
    Agree R (d.walkElement scope tag children)
      (directText children >>= fun text => .ok (result text)) := by
  -- while the element is open, the draft is a function of the text so far
  have htext : Agree (fun d a => d = put a) (walkAll scope d children) (directText children) := by
    refine agree_inside (R := fun d a => d = put a) scope ?_ ?_ hput.symm children
    · rintro _ a text rfl
      rw [hsay]
      exact .ok rfl
    · intro d a tag children h
      rw [hchild]
      exact agree_ignored (R := fun d a => d = put a) h tag children
  rw [Draft.walkElement, henter]
  refine htext.bind ?_
  rintro _ text rfl
  exact hleave text

/-- A walk through children of which only those of one name have a meaning. -/
theorem agree_only {α : Type} {R : Draft → α → Prop} {scope : Scope} {name : String}
    {visit : Visit α} (hnamed : scope.named = [name])
    (hsay : ∀ (d : Draft) (text : String), d.say scope text = .ok d)
    (hvisit : ∀ d a tag children, R d a →
      Agree R (d.walkElement (scope.child name) tag children) (visit a tag children))
    {d : Draft} {a : α} (h : R d a) (nodes : List Node) :
    Agree R (walkAll scope d nodes) (inside unheard (only name visit) a nodes) := by
  refine agree_inside scope ?_ ?_ h nodes
  · intro d a text h
    rw [hsay]
    exact .ok h
  · intro d a tag children h
    unfold only
    by_cases hname : tag.localName = name
    · rw [if_pos hname, hname]
      exact hvisit d a tag children h
    · -- the document has no names of its own: every root element will do
      have hdocument : scope ≠ .document := by
        rintro rfl
        cases hnamed
      have hother : tag.localName ∉ scope.named := by
        rw [hnamed, List.mem_singleton]
        exact hname
      rw [if_neg hname, scope.child_of_not_named hdocument hother]
      exact agree_ignored h tag children

end LazyGL.Reading
