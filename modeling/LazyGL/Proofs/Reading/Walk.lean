import LazyGL.Proofs.Reading.Tree

/-!
A run over the events of a document is a walk over its trees: while an element
is read, the scopes around it stay on the stack, and afterwards they are the
scopes again. So the stack can be replaced by the recursion on the trees, and
only the draft is passed on.
-/

namespace LazyGL.Reading

theorem Scope.child_ne_document (scope : Scope) (name : String) :
    scope.child name ≠ .document := by
  unfold Scope.child
  split <;> simp

def Scope.named : Scope → List String
  | .root => ["groups", "enums", "extensions", "feature", "commands"]
  | .groups => ["group"]
  | .group => ["enum"]
  | .enumBlock => ["enum"]
  | .extensions => ["extension"]
  | .extension => ["require"]
  | .extensionRequire => ["command"]
  | .feature => ["require", "remove"]
  | .featureList _ => ["command"]
  | .commands => ["command"]
  | .command => ["proto", "param"]
  | .proto => ["ptype", "name"]
  | .param => ["ptype", "name"]
  | _ => []

theorem Scope.child_of_not_named (scope : Scope) {name : String}
    (hdocument : scope ≠ .document) (h : name ∉ scope.named) : scope.child name = .ignored := by
  unfold Scope.child
  split <;> simp_all [Scope.named]

/-! ### Walks that change a draft -/

mutual

/-- Reads a node that stands directly in the given scope. The scope of an
element is a local of the recursion. -/
def Draft.walk (scope : Scope) (d : Draft) : Node → Except Fault Draft
  | .element tag children _ => do
    let d ← d.enter (scope.child tag.localName) tag
    let d ← walkAll (scope.child tag.localName) d children
    d.leave (scope.child tag.localName)
  | .closed tag => do
    let d ← d.enter (scope.child tag.localName) tag
    d.leave (scope.child tag.localName)
  | .text raw => do
    let text ← escaped raw
    d.say scope text
  | .cdata raw => do
    let text ← verbatim raw
    d.say scope text
  | .comment _ => .ok d
  | .instruction _ => .ok d
  | .doctype _ => .ok d

def walkAll (scope : Scope) (d : Draft) : List Node → Except Fault Draft
  | [] => .ok d
  | node :: rest => do
    let d ← d.walk scope node
    walkAll scope d rest

end

/-! ### Runs without positions -/

/-- Reads some events; a fault does not say where it was met. -/
def State.steps (s : State) (events : List Markup.Event) : Except Fault State :=
  events.foldlM State.step s

theorem State.steps_cons (s : State) (event : Markup.Event) (events : List Markup.Event) :
    s.steps (event :: events) = s.step event >>= fun next => next.steps events :=
  List.foldlM_cons

theorem State.steps_append (s : State) (events more : List Markup.Event) :
    s.steps (events ++ more) = s.steps events >>= fun next => next.steps more :=
  List.foldlM_append

theorem State.steps_singleton (s : State) (event : Markup.Event) :
    s.steps [event] = s.step event := by
  rw [steps_cons]
  exact bind_pure _

def State.withDraft (s : State) (d : Draft) : State := ⟨d, s.scopes⟩

/-! ### One event -/

/-- A start tag enters a scope, which becomes the innermost one. -/
theorem State.step_start (s : State) (tag : Markup.Tag) :
    s.step (.start tag) =
      (fun d => ⟨d, s.top.child tag.localName :: s.scopes⟩) <$>
        s.draft.enter (s.top.child tag.localName) tag := by
  simp only [State.step, map_eq_pure_bind]
  rfl

/-- An end tag leaves the innermost scope. -/
theorem State.step_stop {s : State} (htop : s.top ≠ .document) (content : Bytes) :
    s.step (.stop content) = (fun d => ⟨d, s.scopes.tail⟩) <$> s.draft.leave s.top := by
  simp only [State.step, if_neg htop, map_eq_pure_bind]
  rfl

/-- A self-closed tag enters a scope and leaves it at once. -/
theorem State.step_empty (s : State) (tag : Markup.Tag) :
    s.step (.empty tag) = s.withDraft <$> s.draft.walk s.top (.closed tag) := by
  -- the loop pushes no scope here: it leaves the one it would have pushed
  simp only [State.step, Draft.walk, map_eq_pure_bind, bind_assoc]
  rfl

/-- A text is heard in the innermost scope. -/
theorem State.step_text (s : State) (raw : Bytes) :
    s.step (.text raw) = s.withDraft <$> s.draft.walk s.top (.text raw) := by
  simp only [State.step, Draft.walk, escaped, map_eq_pure_bind]
  cases Markup.meaning raw <;> rfl

theorem State.step_cdata (s : State) (raw : Bytes) :
    s.step (.cdata raw) = s.withDraft <$> s.draft.walk s.top (.cdata raw) := by
  simp only [State.step, Draft.walk, verbatim, map_eq_pure_bind]
  cases Utf8.decode raw <;> rfl

/-! ### The events of a tree -/

mutual

/-- The events of a node change the draft as a walk over the node does. -/
theorem State.steps_events (s : State) (node : Node) :
    s.steps node.events = s.withDraft <$> s.draft.walk s.top node := by
  cases node with
  | element tag children ending =>
      have hinner (d : Draft) :
          (State.mk d (s.top.child tag.localName :: s.scopes)).steps
              (eventsOf children ++ [.stop ending]) =
            walkAll (s.top.child tag.localName) d children >>= fun d =>
              s.withDraft <$> d.leave (s.top.child tag.localName) := by
        rw [steps_append, State.steps_eventsOf _ children, bind_map_left]
        refine congrArg _ (funext fun d' => ?_)
        -- the scope of the element is the innermost one again
        have htop : (State.mk d' (s.top.child tag.localName :: s.scopes)).top ≠ .document :=
          s.top.child_ne_document tag.localName
        rw [steps_singleton]
        exact step_stop htop ending
      rw [Node.events, Draft.walk, steps_cons, step_start, bind_map_left, map_bind]
      simp only [map_bind]
      exact congrArg _ (funext hinner)
  | closed tag => rw [Node.events, steps_singleton, step_empty]
  | text raw => rw [Node.events, steps_singleton, step_text]
  | cdata raw => rw [Node.events, steps_singleton, step_cdata]
  | comment body => rfl
  | instruction body => rfl
  | doctype body => rfl

theorem State.steps_eventsOf (s : State) (nodes : List Node) :
    s.steps (eventsOf nodes) = s.withDraft <$> walkAll s.top s.draft nodes := by
  cases nodes with
  | nil => rfl
  | cons node rest =>
      rw [eventsOf, steps_append, State.steps_events s node, walkAll, bind_map_left, map_bind]
      exact congrArg _ (funext fun d => State.steps_eventsOf (s.withDraft d) rest)

end

/-! ### Runs with positions -/

theorem State.run_of_steps_ok {s next : State} {events : List (Nat × Markup.Event)}
    (h : s.steps (events.map Prod.snd) = .ok next) : s.run events = .ok next := by
  induction events generalizing s with
  | nil => exact congrArg _ (Except.ok.inj h)
  | cons entry events ih =>
      rw [List.map_cons, steps_cons] at h
      rw [State.run]
      cases hstep : s.step entry.2 with
      | error fault => rw [hstep] at h; cases h
      | ok middle => rw [hstep] at h; exact ih h

/-- A fault of a step is reported with the event and its position. -/
theorem State.run_of_steps_error {s : State} {fault : Fault}
    {events : List (Nat × Markup.Event)}
    (h : s.steps (events.map Prod.snd) = .error fault) :
    ∃ position event, (position, event) ∈ events ∧
      s.run events = .error (.event position event fault) := by
  induction events generalizing s with
  | nil => cases h
  | cons entry events ih =>
      rw [List.map_cons, steps_cons] at h
      rw [State.run]
      cases hstep : s.step entry.2 with
      | error first =>
          rw [hstep] at h
          obtain rfl : first = fault := Except.error.inj h
          exact ⟨entry.1, entry.2, List.mem_cons_self, rfl⟩
      | ok middle =>
          rw [hstep] at h
          obtain ⟨position, event, hmem, hrun⟩ := ih h
          exact ⟨position, event, List.mem_cons_of_mem _ hmem, hrun⟩

theorem State.steps_of_run_ok {s next : State} {events : List (Nat × Markup.Event)}
    (h : s.run events = .ok next) : s.steps (events.map Prod.snd) = .ok next := by
  cases hsteps : s.steps (events.map Prod.snd) with
  | error fault =>
      obtain ⟨position, event, -, hfault⟩ := State.run_of_steps_error hsteps
      rw [h] at hfault
      cases hfault
  | ok last =>
      rw [State.run_of_steps_ok hsteps] at h
      exact congrArg _ (Except.ok.inj h)

end LazyGL.Reading
