import LazyGL.Proofs.Reading.Alike
import LazyGL.Proofs.Reading.Pending

/-!
The layout of a document. Comments, instructions and complete elements off the
known paths say nothing, a text is the same in one piece and in several, and the
blanks of a declaration are of no account where they only set its parts off.
Main statement: such edits, in any number and at any places, change neither
whether a document is accepted nor which registry it describes.
-/

namespace LazyGL.Reading

open Markup (Event Tag)

/-! ### Edits -/

def scopesAfterAll (before : List Event) : List Scope :=
  before.foldl (fun scopes event => State.scopesAfter ⟨{ }, scopes⟩ event) [.document]

def scopeAfter (before : List Event) : Scope := State.top ⟨{ }, scopesAfterAll before⟩

/-- A piece without meaning in a scope. The texts inside an element must be well
formed even so. -/
def Meaningless (scope : Scope) : Node → Prop
  | .element tag children _ => scope.child tag.localName = .ignored ∧ skipAll children = .ok ()
  | .closed tag => scope.child tag.localName = .ignored
  | .comment _ => True
  | .instruction _ => True
  | _ => False

/-- The text that an event stands for, be it escaped or verbatim. -/
inductive Says : Event → String → Prop
  | text {raw : Bytes} {text : String} (h : escaped raw = .ok text) : Says (.text raw) text
  | cdata {raw : Bytes} {text : String} (h : verbatim raw = .ok text) : Says (.cdata raw) text

inductive Spoken : List Event → String → Prop
  | nil : Spoken [] ""
  | cons {event : Event} {pieces : List Event} {text more : String} (h : Says event text)
      (hrest : Spoken pieces more) : Spoken (event :: pieces) (text ++ more)

theorem Spoken.single {event : Event} {text : String} (h : Says event text) :
    Spoken [event] text := by
  have hsingle := Spoken.cons h .nil
  rwa [String.append_empty] at hsingle

/-- One change of the layout of a document, to be made in either direction. -/
inductive Edit : List Event → List Event → Prop
  /-- A piece without meaning is put in. -/
  | insert {before : List Event} {node : Node} (h : Meaningless (scopeAfter before) node)
      (after : List Event) : Edit (before ++ after) (before ++ node.events ++ after)
  /-- A text is replaced by one that is as good, in any number of pieces. -/
  | rewrite {before pieces pieces' : List Event} {text text' : String} (h : Spoken pieces text)
      (h' : Spoken pieces' text') (hsame : Interchangeable (scopeAfter before) text text')
      (after : List Event) : Edit (before ++ pieces ++ after) (before ++ pieces' ++ after)

/-! ### Pieces without meaning -/

theorem Draft.walk_meaningless {scope : Scope} {node : Node} (h : Meaningless scope node)
    (d : Draft) : d.walk scope node = .ok d := by
  cases node with
  | element tag children ending =>
      obtain ⟨hignored, hskip⟩ := h
      have hinside : walkAll .ignored d children = .ok d := by
        rw [inert_ignored.walkAll, hskip]
        rfl
      rw [Draft.walk, hignored]
      change (walkAll .ignored d children >>= fun d => d.leave .ignored) = .ok d
      rw [hinside]
      rfl
  | closed tag =>
      rw [Draft.walk, show scope.child tag.localName = .ignored from h]
      rfl
  | comment body => rfl
  | instruction body => rfl
  | text raw => exact h.elim
  | cdata raw => exact h.elim
  | doctype body => exact h.elim

theorem State.steps_meaningless {s : State} {node : Node} (h : Meaningless s.top node) :
    s.steps node.events = .ok s := by
  rw [State.steps_events, Draft.walk_meaningless h]
  rfl

/-! ### Texts in pieces -/

namespace Draft

theorem changeCommand_bind (d : Draft) (f g : Command → Command) :
    (d.changeCommand f >>= fun d => d.changeCommand g) = d.changeCommand (g ∘ f) := by
  unfold changeCommand
  cases d.command <;> rfl

theorem changeParam_bind (d : Draft) (f g : Param → Param) :
    (d.changeParam f >>= fun d => d.changeParam g) = d.changeParam (g ∘ f) := by
  unfold changeParam
  cases d.param <;> rfl

/-- A text can be said piece by piece. -/
theorem say_append (d : Draft) (scope : Scope) (text more : String) :
    d.say scope (text ++ more) = d.say scope text >>= fun d => d.say scope more := by
  cases scope with
  | proto | protoType | protoName =>
      simp only [say, changeCommand_bind, Function.comp_def, String.append_assoc]
  | param =>
      simp only [say, changeParam_bind, Function.comp_def, Blank.strip_append, String.append_assoc]
  | paramType | paramName =>
      simp only [say, changeParam_bind, Function.comp_def, String.append_assoc]
  | _ => rfl

theorem changeCommand_of_id {d : Draft} (h : d.keeps .command) {f : Command → Command}
    (hf : ∀ c, f c = c) : d.changeCommand f = .ok d := by
  obtain ⟨c, hc⟩ := Option.isSome_iff_exists.mp h
  simp only [changeCommand, hc, hf]
  rw [← hc]

theorem changeParam_of_id {d : Draft} (h : d.keeps .param) {f : Param → Param}
    (hf : ∀ p, f p = p) : d.changeParam f = .ok d := by
  obtain ⟨p, hp⟩ := Option.isSome_iff_exists.mp h
  simp only [changeParam, hp, hf]
  rw [← hp]

/-- An empty text changes nothing inside what it would belong to. -/
theorem Kept.say_empty {d : Draft} {scope : Scope} {rest : List Scope}
    (h : d.Kept (scope :: rest)) (hnested : Nested (scope :: rest)) : d.say scope "" = .ok d := by
  have hcommand := h.of_path hnested .command (by decide)
  have hparam := h.of_path hnested .param (by decide)
  have hstrip : Blank.strip "" = "" := rfl
  cases scope with
  | proto | protoType | protoName =>
      exact changeCommand_of_id (hcommand (by decide)) fun c => by rw [String.append_empty]
  | param =>
      exact changeParam_of_id (hparam (by decide)) fun p => by rw [hstrip, String.append_empty]
  | paramType | paramName =>
      exact changeParam_of_id (hparam (by decide)) fun p => by rw [String.append_empty]
  | _ => rfl

end Draft

theorem State.step_says {event : Event} {text : String} (h : Says event text) (s : State) :
    s.step event = s.withDraft <$> s.draft.say s.top text := by
  cases h with
  | text h =>
      rw [State.step_text, Draft.walk, h]
      rfl
  | cdata h =>
      rw [State.step_cdata, Draft.walk, h]
      rfl

/-- The pieces of a text change a draft as the text does. -/
theorem State.steps_spoken {pieces : List Event} {text : String} (h : Spoken pieces text)
    {s : State} (hempty : s.draft.say s.top "" = .ok s.draft) :
    s.steps pieces = s.withDraft <$> s.draft.say s.top text := by
  induction h generalizing s with
  | nil =>
      rw [hempty]
      rfl
  | @cons event pieces text more h hrest ih =>
      rw [State.steps_cons, State.step_says h, Draft.say_append]
      cases hsay : s.draft.say s.top text with
      | error fault => rfl
      | ok d =>
          -- nothing changes if an empty text comes last
          have hmiddle : d.say s.top "" = .ok d := by
            have hlast := s.draft.say_append s.top text ""
            rw [String.append_empty, hsay] at hlast
            exact hlast.symm
          exact ih (s := s.withDraft d) hmiddle

/-! ### Edited documents -/

theorem State.scopes_steps {s next : State} {events : List Event} (h : s.steps events = .ok next) :
    next.scopes =
      events.foldl (fun scopes event => State.scopesAfter ⟨{ }, scopes⟩ event) s.scopes := by
  induction events generalizing s with
  | nil => cases h; rfl
  | cons event events ih =>
      rw [State.steps_cons] at h
      obtain ⟨middle, hstep, hrest⟩ := exists_of_bind_eq_ok h
      rw [ih hrest, State.scopes_step hstep, List.foldl_cons]
      cases event <;> rfl

theorem State.top_steps {s : State} {before : List Event}
    (h : State.steps { } before = .ok s) : s.top = scopeAfter before := by
  rw [scopeAfter, scopesAfterAll, State.top, State.top, State.scopes_steps h]

theorem State.say_empty_of_steps {s : State} {before : List Event}
    (h : State.steps { } before = .ok s) : s.draft.say s.top "" = .ok s.draft := by
  obtain ⟨hnested, hkept⟩ : Nested s.scopes ∧ s.draft.Kept s.scopes :=
    State.steps_invariant (P := fun s => Nested s.scopes ∧ s.draft.Kept s.scopes)
      (fun _ _ => State.Move.kept) h
      ⟨State.settled_empty.nested, State.settled_empty.kept⟩
  have htop := hnested.eq_cons
  rw [htop] at hnested hkept
  exact hkept.say_empty hnested

/-- Two middle parts that agree wherever the part before them leads to can be
exchanged. -/
theorem agree_middle {before middle middle' : List Event}
    (h : ∀ s, State.steps { } before = .ok s →
      Agree State.Alike (s.steps middle) (s.steps middle')) (after : List Event) :
    Agree State.Alike (State.steps { } (before ++ middle ++ after))
      (State.steps { } (before ++ middle' ++ after)) := by
  simp only [State.steps_append]
  refine Agree.bind (R := State.Alike) ?_ fun s s' hs => hs.steps after
  cases hbefore : State.steps { } before with
  | error fault => exact .error fault
  | ok s => exact h s hbefore

theorem Edit.agree {events events' : List Event} (h : Edit events events') :
    Agree State.Alike (State.steps { } events) (State.steps { } events') := by
  cases h with
  | @insert before node h after =>
      have hinserted (s : State) (hs : State.steps { } before = .ok s) :
          Agree State.Alike (s.steps []) (s.steps node.events) := by
        rw [← State.top_steps hs] at h
        rw [State.steps_meaningless h]
        exact .ok (.refl s)
      have hmiddle := agree_middle hinserted after
      rwa [List.append_nil] at hmiddle
  | @rewrite before pieces pieces' text text' h h' hsame after =>
      refine agree_middle (fun s hs => ?_) after
      have hempty := State.say_empty_of_steps hs
      rw [State.steps_spoken h hempty, State.steps_spoken h' hempty]
      rw [← State.top_steps hs] at hsame
      exact ((Draft.Alike.refl s.draft).say hsame).bind fun d d' hd =>
        .ok ((State.Alike.refl s).withDraft hd)

def Describe (events : List Event) (r : Registry) : Prop :=
  ∃ s, State.steps { } events = .ok s ∧ s.scopes.length = 1 ∧ s.draft.registry = r

theorem Edit.describe_iff {events events' : List Event} (h : Edit events events') (r : Registry) :
    Describe events r ↔ Describe events' r := by
  have hagree := h.agree
  unfold Describe
  generalize State.steps { } events = read at hagree
  generalize State.steps { } events' = read' at hagree
  cases hagree with
  | error fault => simp
  | ok h => simp [h.scopes, h.draft.registry]

theorem describe_iff_of_edits {events events' : List Event}
    (h : Relation.EqvGen Edit events events') (r : Registry) :
    Describe events r ↔ Describe events' r := by
  induction h with
  | rel events events' h => exact h.describe_iff r
  | refl events => rfl
  | symm events events' _ ih => exact ih.symm
  | trans events events' events'' _ _ ih ih' => exact ih.trans ih'

theorem ofDocument_eq_ok_iff {input : Bytes} {r : Registry} :
    Registry.ofDocument input = .ok r ↔
      (Markup.transcribe input).fault = none ∧
        Describe ((Markup.transcribe input).events.map Prod.snd) r := by
  constructor
  · intro h
    obtain ⟨s, hrun, hwhole, hscopes, rfl⟩ := run_of_ofDocument h
    exact ⟨hwhole, s, State.steps_of_run_ok hrun, hscopes, rfl⟩
  · rintro ⟨hwhole, s, hsteps, hscopes, rfl⟩
    rw [Registry.ofDocument, readTranscript, State.run_of_steps_ok hsteps, hwhole]
    exact if_pos hscopes

/-- Edits of the layout, made and undone in any order, do not change whether a
document is accepted and what it describes. -/
theorem ofDocument_edited {input input' : Bytes}
    (hfault : (Markup.transcribe input).fault = none ↔ (Markup.transcribe input').fault = none)
    (hedits : Relation.EqvGen Edit ((Markup.transcribe input).events.map Prod.snd)
      ((Markup.transcribe input').events.map Prod.snd)) (r : Registry) :
    Registry.ofDocument input = .ok r ↔ Registry.ofDocument input' = .ok r := by
  rw [ofDocument_eq_ok_iff, ofDocument_eq_ok_iff, hfault]
  exact and_congr_right' (describe_iff_of_edits hedits r)

/-- A return type in several pieces and with more blanks, a parameter without its
blank, and an element off the known paths. -/
theorem ofDocument_edited_declaration :
    let input := Utf8.ofString ("<r><commands><command><proto>a b<name>f</name></proto>" ++
      "<param>c <name>p</name></param></command></commands></r>")
    let input' := Utf8.ofString ("<r><commands><x><name>&lt;<!---->" ++
      "</name></x><command><proto>a <![CDATA[ b]]><name>f</name></proto>" ++
      "<param>c<name>p</name></param></command></commands></r>")
    let r : Registry :=
      { commands := [⟨"f", "a b", [{ name := "p", base := "void", shape := "c?" }]⟩] }
    (Markup.transcribe input).fault = none ∧ (Markup.transcribe input').fault = none ∧
      Relation.EqvGen Edit ((Markup.transcribe input).events.map Prod.snd)
        ((Markup.transcribe input').events.map Prod.snd) ∧
      Registry.ofDocument input = .ok r ∧ Registry.ofDocument input' = .ok r := by
  intro input input' r
  let start (name : String) : Event := .start ⟨Utf8.ofString name⟩
  let stop (name : String) : Event := .stop (Utf8.ofString name)
  let text (raw : String) : Event := .text (Utf8.ofString raw)
  let leaf (name raw : String) : List Event := [start name, text raw, stop name]
  let opened : List Event := [start "r", start "commands"]
  let inside (returnType : List Event) (blank : String) : List Event :=
    [start "command", start "proto"] ++ returnType ++ leaf "name" "f" ++
      [stop "proto", start "param", text ("c" ++ blank)] ++ leaf "name" "p" ++
      [stop "param", stop "command", stop "commands", stop "r"]
  let pieces : List Event := [text "a ", .cdata (Utf8.ofString " b")]
  let node : Node := .element ⟨Utf8.ofString "x"⟩
    [.element ⟨Utf8.ofString "name"⟩ [.text (Utf8.ofString "&lt;"), .comment []]
      (Utf8.ofString "name")] (Utf8.ofString "x")
  obtain ⟨hwhole, hevents⟩ : (Markup.transcribe input).fault = none ∧
      (Markup.transcribe input).events.map Prod.snd = opened ++ inside [text "a b"] " " := by
    decide +kernel
  obtain ⟨hwhole', hevents'⟩ : (Markup.transcribe input').fault = none ∧
      (Markup.transcribe input').events.map Prod.snd =
        opened ++ node.events ++ inside pieces "" := by
    decide +kernel
  have hproto : Edit (opened ++ inside [text "a b"] " ") (opened ++ inside pieces " ") := by
    have hscope : scopeAfter (opened ++ [start "command", start "proto"]) = .proto := by
      decide +kernel
    have hfront : Says (text "a ") "a " := .text (by decide +kernel)
    have hback : Says (.cdata (Utf8.ofString " b")) " b" := .cdata (by decide +kernel)
    have hsame : Interchangeable .proto ("a" ++ " " ++ "b") ("a" ++ "  " ++ "b") :=
      .proto ⟨by decide, List.all_eq_true.mp (by decide)⟩
        ⟨by decide, List.all_eq_true.mp (by decide)⟩ "a" "b"
    rw [show "a" ++ " " ++ "b" = "a b" by decide, show "a" ++ "  " ++ "b" = "a " ++ " b" by decide,
      ← hscope] at hsame
    exact .rewrite (.single (.text (by decide +kernel))) (.cons hfront (.single hback)) hsame _
  have hparam : Edit (opened ++ inside pieces " ") (opened ++ inside pieces "") := by
    have hscope : scopeAfter (opened ++ [start "command", start "proto"] ++ pieces ++
        leaf "name" "f" ++ [stop "proto", start "param"]) = .param := by
      decide +kernel
    have hsame : Interchangeable .param "c " "c" := .param (by decide +kernel)
    rw [← hscope] at hsame
    exact .rewrite (.single (.text (by decide +kernel))) (.single (.text (by decide +kernel)))
      hsame (leaf "name" "p" ++ [stop "param", stop "command", stop "commands", stop "r"])
  have hnode : Edit (opened ++ inside pieces "") (opened ++ node.events ++ inside pieces "") := by
    have hmeaningless : Meaningless (scopeAfter opened) node := ⟨by decide +kernel, rfl⟩
    exact .insert hmeaningless _
  have hedits : Relation.EqvGen Edit ((Markup.transcribe input).events.map Prod.snd)
      ((Markup.transcribe input').events.map Prod.snd) := by
    rw [hevents, hevents']
    exact .trans _ _ _ (.rel _ _ hproto) (.trans _ _ _ (.rel _ _ hparam) (.rel _ _ hnode))
  let branch (name : String) (children : List Node) : Node :=
    .element ⟨Utf8.ofString name⟩ children (Utf8.ofString name)
  let piece (raw : String) : Node := .text (Utf8.ofString raw)
  have hread : readTrees [branch "r" [branch "commands" [branch "command"
      [branch "proto" [piece "a b", branch "name" [piece "f"]],
        branch "param" [piece "c ", branch "name" [piece "p"]]]]]] = .ok r := by
    decide +kernel
  have haccepted : Registry.ofDocument input = .ok r :=
    ofDocument_of_readTrees hwhole (hevents.trans rfl) hread
  exact ⟨hwhole, hwhole', hedits, haccepted,
    (ofDocument_edited (iff_of_true hwhole hwhole') hedits r).mp haccepted⟩

end LazyGL.Reading
